import Mathlib
import ModuleLinker.Erase.Edit
import ModuleLinker.Proofs.Source.Spelling

/-!
# Stretches of a spelled text

A spelled text in which some stretches of symbols are overwritten and the others stay. Carrying out the
edits that overwrite them (`blanks`) leaves a text (`remain`) that is spelled from the symbols of the
other stretches (`exists_spell_remain`): the spaces of a stretch that is overwritten become part of what
stands in front of the next symbol, and no symbol runs into a space.
-/

set_option autoImplicit false

namespace ModuleLinker

open Erase Text

/-! ## Spelled texts -/

theorem spell_append (front back : List Spaced) (rest : List Char) :
    spell (front ++ back) rest = spell front (spell back rest) := by
  induction front with
  | nil => rfl
  | cons piece front ih => rw [List.cons_append, spell, spell, ih]

theorem spell_eq_append (pieces : List Spaced) (rest : List Char) :
    spell pieces rest = spell pieces [] ++ rest := by
  induction pieces with
  | nil => rfl
  | cons piece pieces ih => rw [spell, spell, ih, List.append_assoc, List.append_assoc]

theorem isLegible_append {front back : List Spaced} {rest : List Char} :
    isLegible (front ++ back) rest = true ↔
      isLegible front (spell back rest) = true ∧ isLegible back rest = true := by
  induction front with
  | nil => simp [isLegible]
  | cons piece front ih =>
    simp only [List.cons_append, isLegible, spell_append, Bool.and_eq_true, ih, and_assoc]

theorem isGap_append {front back : List Char} :
    isGap (front ++ back) = true ↔ isGap front = true ∧ isGap back = true := by
  rw [isGap, List.all_append, Bool.and_eq_true, isGap, isGap]

/-- The tokens of symbols that are spelled one after the other. -/
theorem tokensOf_append (pos : Nat) (front back : List Spaced) :
    tokensOf pos (front ++ back) =
      tokensOf pos front ++ tokensOf (pos + (spell front []).length) back := by
  induction front generalizing pos with
  | nil => rfl
  | cons piece front ih =>
    have place : pos + piece.gap.length + piece.symbol.text.length + (spell front []).length =
        pos + (spell (piece :: front) []).length := by
      simp only [spell, List.length_append, String.length_toList]
      omega
    rw [List.cons_append, tokensOf, tokensOf, List.cons_append, ih, place]

theorem length_tokensOf (pos : Nat) (pieces : List Spaced) :
    (tokensOf pos pieces).length = pieces.length := by
  induction pieces generalizing pos with
  | nil => rfl
  | cons piece pieces ih => rw [tokensOf, List.length_cons, List.length_cons, ih]

/-- The last token of a spelled text stops where the text does. -/
theorem exists_getLast?_tokensOf (pos : Nat) {pieces : List Spaced} (some : pieces ≠ []) :
    ∃ z, (tokensOf pos pieces).getLast? = .some z ∧ z.stop = pos + (spell pieces []).length := by
  cases pieces using List.reverseRecOn with
  | nil => exact absurd rfl some
  | append_singleton front last =>
    rw [tokensOf_append, spell_append, length_spell front (spell [last] [])]
    refine ⟨_, List.getLast?_concat, ?_⟩
    simp only [Token.stop, spell, List.length_append, List.length_nil, String.length_toList]
    omega

/-- A token is on the line of the one before it unless a line ends in the blanks between them. -/
theorem newlineBefore_tokensOf {pos : Nat} {pieces : List Spaced}
    (line : ∀ piece ∈ pieces, piece.gap.any Text.isLineEnd = false) :
    ∀ t ∈ tokensOf pos pieces, t.newlineBefore = false := by
  induction pieces generalizing pos with
  | nil => exact fun t mem => absurd mem List.not_mem_nil
  | cons piece pieces ih =>
    rw [List.forall_mem_cons] at line
    rw [tokensOf, List.forall_mem_cons]
    exact ⟨line.1, ih line.2⟩

/-- A symbol that stands before a text has a text. -/
theorem length_pos_of_isLegible {pieces : List Spaced} {rest : List Char}
    (legible : isLegible pieces rest = true) : ∀ piece ∈ pieces, 0 < piece.symbol.text.length := by
  induction pieces with
  | nil => exact fun piece mem => absurd mem List.not_mem_nil
  | cons piece pieces ih =>
    rw [isLegible, Bool.and_eq_true, Bool.and_eq_true] at legible
    obtain ⟨c, cs, chars, -⟩ := Symbol.exists_cons_of_standsBefore legible.1.2
    rw [List.forall_mem_cons, ← String.length_toList, chars]
    exact ⟨Nat.succ_pos _, ih legible.2⟩

/-! ## What stands behind a symbol -/

/-- Whether a character is a space or a line end. -/
def isSpace (c : Char) : Bool := c == ' ' || c == '\n' || c == '\r'

/-- Whether a text starts as another one does, or with a space. -/
def Follows (old new : List Char) : Prop := new.head? = old.head? ∨ new.head?.any isSpace = true

theorem isSpace_blankOut (c : Char) : isSpace (Edit.blankOut c) = true := by
  unfold Edit.blankOut isSpace
  split
  case isTrue ends =>
    rw [Bool.or_eq_true, decide_eq_true_eq, decide_eq_true_eq] at ends
    rcases ends with rfl | rfl <;> rfl
  case isFalse => rfl

theorem isGap_map_blankOut (cs : List Char) : isGap (cs.map Edit.blankOut) = true := by
  rw [isGap, List.all_map, List.all_eq_true]
  intro c _
  have space := isSpace_blankOut c
  simp only [isSpace, Bool.or_eq_true, beq_iff_eq] at space
  rw [Function.comp_apply]
  rcases space with (same | same) | same <;> rw [same] <;> decide

theorem not_isNamePart_of_isSpace {c : Char} (space : isSpace c = true) :
    (isNamePart c || c == '\\') = false := by
  simp only [isSpace, Bool.or_eq_true, beq_iff_eq] at space
  rcases space with (rfl | rfl) | rfl <;> decide +kernel

theorem not_isAlphanum_of_isSpace {c : Char} (space : isSpace c = true) :
    (c.isAlphanum || c == '_' || c == '.') = false := by
  simp only [isSpace, Bool.or_eq_true, beq_iff_eq] at space
  rcases space with (rfl | rfl) | rfl <;> decide

/-- There are no spaces in punctuators. -/
theorem not_isSpace_of_mem_operators :
    ∀ op ∈ Lexeme.operators, op.toList.any isSpace = false := by
  decide +kernel

theorem not_runsInto_of_isSpace {c : Char} (space : isSpace c = true) (op : String) :
    Symbol.runsInto op c = false := by
  rw [Symbol.runsInto, Bool.or_eq_false_iff, Bool.and_eq_false_iff, List.any_eq_false]
  constructor
  · right
    simp only [isSpace, Bool.or_eq_true, beq_iff_eq] at space
    rcases space with (rfl | rfl) | rfl <;> decide
  · intro longer known isPrefix
    have inside : c ∈ longer.toList :=
      (List.isPrefixOf_iff_prefix.mp isPrefix).subset (List.mem_append_right _ List.mem_cons_self)
    have none := List.any_eq_false.mp (not_isSpace_of_mem_operators longer known) c inside
    exact none space

/-- What is asked about the character behind a symbol is not so of a space. -/
theorem Follows.any {old new : List Char} (follows : Follows old new) {property : Char → Bool}
    (none : ∀ c, isSpace c = true → property c = false) (before : old.head?.any property = false) :
    new.head?.any property = false := by
  rcases follows with same | space
  · rw [same, before]
  · obtain ⟨c, head, space⟩ := (Option.any_eq_true ..).mp space
    rw [head, Option.any_some, none c space]

/-- A symbol that stands before a text stands before a space as well. -/
theorem Follows.standsBefore {old new : List Char} (follows : Follows old new) {s : Symbol}
    (stands : s.standsBefore old = true) : s.standsBefore new = true := by
  obtain ⟨kind, text⟩ := s
  unfold Symbol.standsBefore at stands ⊢
  cases kind <;> simp only [Bool.and_eq_true, Bool.not_eq_true'] at stands ⊢
  case ident => exact ⟨stands.1, follows.any (fun _ => not_isNamePart_of_isSpace) stands.2⟩
  case string => exact stands
  case number => exact ⟨stands.1, follows.any (fun _ => not_isAlphanum_of_isSpace) stands.2⟩
  case punct =>
    exact ⟨stands.1, follows.any (fun _ space => not_runsInto_of_isSpace space text) stands.2⟩
  all_goals exact stands

theorem Follows.append {old new : List Char} (follows : Follows old new) (front : List Char) :
    Follows (front ++ old) (front ++ new) := by
  cases front with
  | nil => exact follows
  | cons c front => exact .inl rfl

theorem Follows.spell {old new : List Char} (follows : Follows old new) (pieces : List Spaced) :
    Follows (spell pieces old) (spell pieces new) := by
  rw [spell_eq_append pieces old, spell_eq_append pieces new]
  exact follows.append _

/-- Symbols do not run into what follows them if a space stands there. -/
theorem Follows.isLegible {old new : List Char} (follows : Follows old new) {pieces : List Spaced}
    (legible : isLegible pieces old = true) : isLegible pieces new = true := by
  induction pieces with
  | nil => rfl
  | cons piece pieces ih =>
    rw [ModuleLinker.isLegible, Bool.and_eq_true, Bool.and_eq_true] at legible ⊢
    obtain ⟨⟨blank, stands⟩, legible⟩ := legible
    exact ⟨⟨blank, (follows.spell pieces).standsBefore stands⟩, ih legible⟩

/-! ## Stretches -/

/-- Symbols that are overwritten together, or stay. -/
structure Part where
  /-- Whether they are overwritten. -/
  erased : Bool
  /-- The symbols. -/
  symbols : List Symbol
  deriving DecidableEq, Repr

/-- The symbols of some parts. -/
def allSymbols (parts : List Part) : List Symbol := parts.flatMap Part.symbols

/-- The symbols of the parts that stay. -/
def keptSymbols (parts : List Part) : List Symbol :=
  parts.flatMap fun part => if part.erased then [] else part.symbols

@[simp] theorem allSymbols_nil : allSymbols [] = [] := rfl

@[simp] theorem allSymbols_cons (part : Part) (parts : List Part) :
    allSymbols (part :: parts) = part.symbols ++ allSymbols parts := rfl

@[simp] theorem allSymbols_append (front back : List Part) :
    allSymbols (front ++ back) = allSymbols front ++ allSymbols back := List.flatMap_append

theorem keptSymbols_append (front back : List Part) :
    keptSymbols (front ++ back) = keptSymbols front ++ keptSymbols back := List.flatMap_append

theorem keptSymbols_subset {parts : List Part} : keptSymbols parts ⊆ allSymbols parts := by
  intro s mem
  obtain ⟨part, among, mem⟩ := List.mem_flatMap.mp mem
  refine List.mem_flatMap.mpr ⟨part, among, ?_⟩
  split at mem
  · cases mem
  · exact mem

/-- A part of a text with the blanks in front of its symbols. -/
structure Stretch where
  /-- Whether it is overwritten. -/
  erased : Bool
  /-- The symbols with the blanks in front of them. -/
  pieces : List Spaced

/-- The part that a stretch is without blanks. -/
def Stretch.part (stretch : Stretch) : Part := ⟨stretch.erased, stretch.pieces.map Spaced.symbol⟩

/-- The symbols of a text with the blanks in front of them. -/
def allPieces (stretches : List Stretch) : List Spaced := stretches.flatMap Stretch.pieces

theorem allSymbols_map_part (stretches : List Stretch) :
    allSymbols (stretches.map Stretch.part) = (allPieces stretches).map Spaced.symbol := by
  rw [allPieces, List.map_flatMap, allSymbols, List.flatMap_map]
  rfl

/-- Symbols with blanks in front of them are cut into stretches as the symbols are cut into parts. -/
theorem exists_stretches {parts : List Part} {pieces : List Spaced}
    (same : pieces.map Spaced.symbol = allSymbols parts) :
    ∃ stretches, allPieces stretches = pieces ∧ stretches.map Stretch.part = parts := by
  induction parts generalizing pieces with
  | nil => exact ⟨[], (List.map_eq_nil_iff.mp same).symm, rfl⟩
  | cons part parts ih =>
    rw [allSymbols_cons] at same
    obtain ⟨front, back, rfl, first, rest⟩ := List.map_eq_append_iff.mp same
    obtain ⟨stretches, rfl, rfl⟩ := ih rest
    refine ⟨⟨part.erased, front⟩ :: stretches, rfl, ?_⟩
    rw [List.map_cons, Stretch.part, first]

/-- The text that is left when stretches are overwritten from their first symbol to their last. -/
def remain : List Stretch → List Char → List Char
  | [], rest => rest
  | ⟨false, pieces⟩ :: stretches, rest => spell pieces (remain stretches rest)
  | ⟨true, []⟩ :: stretches, rest => remain stretches rest
  | ⟨true, piece :: pieces⟩ :: stretches, rest =>
    piece.gap ++ ((spell (⟨[], piece.symbol⟩ :: pieces) []).map Edit.blankOut ++ remain stretches rest)

theorem remain_append (front back : List Stretch) (rest : List Char) :
    remain (front ++ back) rest = remain front (remain back rest) := by
  induction front with
  | nil => rfl
  | cons stretch front ih =>
    obtain ⟨erased, pieces⟩ := stretch
    rw [List.cons_append]
    cases erased with
    | false => rw [remain, remain, ih]
    | true => cases pieces <;> rw [remain, remain, ih]

/-- The edits that overwrite stretches of a text that lies at an offset. -/
def blanks (pos : Nat) : List Stretch → List Edit
  | [] => []
  | ⟨true, piece :: pieces⟩ :: stretches =>
    let stop := pos + (spell (piece :: pieces) []).length
    ⟨pos + piece.gap.length, stop, none⟩ :: blanks stop stretches
  | ⟨_, pieces⟩ :: stretches => blanks (pos + (spell pieces []).length) stretches

/-- What is left starts as the text does, or with a space. -/
theorem follows_remain (stretches : List Stretch) (rest : List Char) :
    Follows (spell (allPieces stretches) rest) (remain stretches rest) := by
  induction stretches with
  | nil => exact .inl rfl
  | cons stretch stretches ih =>
    obtain ⟨erased, pieces⟩ := stretch
    rw [allPieces, List.flatMap_cons, spell_append, ← allPieces]
    cases erased with
    | false => exact ih.spell pieces
    | true =>
      cases pieces with
      | nil => exact ih
      | cons piece pieces =>
        have whole : spell (piece :: pieces) (spell (allPieces stretches) rest) = piece.gap ++
            (spell (⟨[], piece.symbol⟩ :: pieces) [] ++ spell (allPieces stretches) rest) := by
          rw [spell_eq_append]
          simp only [spell, List.nil_append, List.append_assoc]
        rw [whole, remain]
        apply Follows.append
        cases spell (⟨[], piece.symbol⟩ :: pieces) [] with
        | nil => exact ih
        | cons c cs => exact .inr (isSpace_blankOut c)

theorem exists_spell_append {gap : List Char} (blank : isGap gap = true) {pieces : List Spaced}
    {last : List Char} (legible : isLegible pieces last = true) (ends : isGap last = true) :
    ∃ pieces' last', gap ++ spell pieces last = spell pieces' last' ∧
      pieces'.map Spaced.symbol = pieces.map Spaced.symbol ∧ isLegible pieces' last' = true ∧
      isGap last' = true := by
  cases pieces with
  | nil => exact ⟨[], gap ++ last, rfl, rfl, rfl, isGap_append.mpr ⟨blank, ends⟩⟩
  | cons piece pieces =>
    refine ⟨⟨gap ++ piece.gap, piece.symbol⟩ :: pieces, last, ?_, rfl, ?_, ends⟩
    · rw [spell, spell, List.append_assoc]
    · rw [isLegible, Bool.and_eq_true, Bool.and_eq_true] at legible ⊢
      exact ⟨⟨isGap_append.mpr ⟨blank, legible.1.1⟩, legible.1.2⟩, legible.2⟩

/-- What is left is spelled from the symbols that stay. -/
theorem exists_spell_remain {stretches : List Stretch} {last : List Char}
    (legible : isLegible (allPieces stretches) last = true) (ends : isGap last = true) :
    ∃ pieces last', remain stretches last = spell pieces last' ∧
      pieces.map Spaced.symbol = keptSymbols (stretches.map Stretch.part) ∧ isLegible pieces last' = true ∧
      isGap last' = true := by
  induction stretches with
  | nil => exact ⟨[], last, rfl, rfl, rfl, ends⟩
  | cons stretch stretches ih =>
    rw [allPieces, List.flatMap_cons, isLegible_append] at legible
    obtain ⟨pieces', last', left, symbols, legible', ends'⟩ := ih legible.2
    obtain ⟨erased, pieces⟩ := stretch
    cases erased with
    | false =>
      refine ⟨pieces ++ pieces', last', ?_, ?_, ?_, ends'⟩
      · rw [remain, left, spell_append]
      · rw [List.map_append, symbols]
        rfl
      · have follows := follows_remain stretches last
        rw [left] at follows
        exact isLegible_append.mpr ⟨follows.isLegible legible.1, legible'⟩
    | true =>
      cases pieces with
      | nil => exact ⟨pieces', last', left, symbols, legible', ends'⟩
      | cons piece pieces =>
        have first : isGap piece.gap = true := by
          have legible := legible.1
          rw [isLegible, Bool.and_eq_true, Bool.and_eq_true] at legible
          exact legible.1.1
        have blank := isGap_append.mpr
          ⟨first, isGap_map_blankOut (spell (⟨[], piece.symbol⟩ :: pieces) [])⟩
        obtain ⟨pieces'', last'', same, symbols', spelled⟩ := exists_spell_append blank legible' ends'
        refine ⟨pieces'', last'', ?_, symbols'.trans symbols, spelled⟩
        rw [remain, left, ← same, List.append_assoc]

/-! ## The edits of stretches -/

/-- An edit that starts behind all others is added to them. -/
theorem Erase.Edits.absorb_of_lt {edits : Edits} {e : Edit} (before : ∀ old ∈ edits, old.start < e.start) :
    edits.absorb e = e :: edits := by
  refine congrArg (e :: ·) (List.filter_eq_self.mpr fun old mem => ?_)
  have less := before old mem
  simp only [Edit.within, Bool.not_eq_true', Bool.and_eq_false_iff, decide_eq_false_iff_not]
  omega

theorem blanks_keep (pos : Nat) (pieces : List Spaced) (stretches : List Stretch) :
    blanks pos (⟨false, pieces⟩ :: stretches) = blanks (pos + (spell pieces []).length) stretches := by
  rw [blanks]
  rintro piece more ⟨⟩

/-- An edit starts no earlier than the text. -/
theorem le_of_mem_blanks {pos : Nat} {stretches : List Stretch} {e : Edit}
    (mem : e ∈ blanks pos stretches) : pos ≤ e.start := by
  fun_induction blanks pos stretches with
  | case1 => cases mem
  | case2 pos piece pieces stretches stop ih =>
    rcases List.mem_cons.mp mem with rfl | mem
    · exact Nat.le_add_right _ _
    · have le := ih mem
      omega
  | case3 pos erased pieces stretches other ih =>
    have le := ih mem
    omega

/-- An edit stops no later than the text. -/
theorem stop_le_of_mem_blanks {pos : Nat} {stretches : List Stretch} {e : Edit}
    (mem : e ∈ blanks pos stretches) :
    e.start ≤ e.stop ∧ e.stop ≤ pos + (spell (allPieces stretches) []).length := by
  have length (stretch : Stretch) (stretches : List Stretch) :
      (spell (allPieces (stretch :: stretches)) []).length =
        (spell stretch.pieces []).length + (spell (allPieces stretches) []).length := by
    rw [allPieces, List.flatMap_cons, spell_append, length_spell, ← allPieces]
  fun_induction blanks pos stretches with
  | case1 => cases mem
  | case2 pos piece pieces stretches stop ih =>
    rw [length]
    rcases List.mem_cons.mp mem with rfl | mem
    · simp only [stop, spell, List.length_append]
      omega
    · have le := ih mem
      simp only [stop] at le
      exact ⟨le.1, le.2.trans_eq (Nat.add_assoc ..)⟩
  | case3 pos erased pieces stretches other ih =>
    rw [length]
    have le := ih mem
    exact ⟨le.1, le.2.trans_eq (Nat.add_assoc ..)⟩

/-- An edit of symbols that have a text is not empty. -/
theorem start_lt_of_mem_blanks {pos : Nat} {stretches : List Stretch}
    (solid : ∀ piece ∈ allPieces stretches, 0 < piece.symbol.text.length) {e : Edit}
    (mem : e ∈ blanks pos stretches) : e.start < e.stop := by
  fun_induction blanks pos stretches with
  | case1 => cases mem
  | case2 pos piece pieces stretches stop ih =>
    have split : allPieces (⟨true, piece :: pieces⟩ :: stretches) =
        piece :: (pieces ++ allPieces stretches) := rfl
    rw [split, List.forall_mem_cons, List.forall_mem_append] at solid
    rcases List.mem_cons.mp mem with rfl | mem
    · have some := solid.1
      simp only [stop, spell, List.length_append, String.length_toList]
      omega
    · exact ih solid.2.2 mem
  | case3 pos erased pieces stretches other ih =>
    have split : allPieces (⟨erased, pieces⟩ :: stretches) = pieces ++ allPieces stretches := rfl
    rw [split, List.forall_mem_append] at solid
    exact ih solid.2 mem

theorem pairwise_blanks (pos : Nat) (stretches : List Stretch) :
    (blanks pos stretches).Pairwise fun a b => a.start ≤ b.start := by
  fun_induction blanks pos stretches with
  | case1 => exact .nil
  | case2 pos piece pieces stretches stop ih =>
    refine .cons (fun e mem => ?_) ih
    have later := le_of_mem_blanks mem
    simp only [stop, spell, List.length_append] at later
    dsimp only
    omega
  | case3 pos erased pieces stretches other ih => exact ih

/-- Edits in the order of the text are carried out in this order. -/
theorem Erase.Edits.inOrder_reverse {es : List Edit} (sorted : es.Pairwise fun a b => a.start ≤ b.start) :
    Edits.inOrder es.reverse = es := by
  rw [Edits.inOrder, List.reverse_reverse]
  exact List.mergeSort_of_pairwise (sorted.imp fun le => decide_eq_true le)

/-- The edits are in the order of the text. -/
theorem inOrder_blanks (pos : Nat) (stretches : List Stretch) :
    Edits.inOrder (blanks pos stretches).reverse = blanks pos stretches :=
  Edits.inOrder_reverse (pairwise_blanks pos stretches)

/-- What stands before all edits stays. -/
theorem applyFrom_append_of_le {pos : Nat} {front cs : List Char} {es : List Edit}
    (later : ∀ e ∈ es, pos + front.length ≤ e.start) :
    Edits.applyFrom pos (front ++ cs) es = front ++ Edits.applyFrom (pos + front.length) cs es := by
  cases es with
  | nil => rfl
  | cons e es =>
    have le := later e List.mem_cons_self
    have place : e.start - pos = front.length + (e.start - (pos + front.length)) := by omega
    rw [Edits.applyFrom, Edits.applyFrom, if_neg (by omega), if_neg (by omega), place]
    dsimp only
    rw [← List.drop_drop, List.drop_left, List.take_length_add_append]
    simp only [List.append_assoc]

/-- The edits of stretches leave what remains of the text, and those behind them are carried out behind
it. -/
theorem applyFrom_blanks_append (pos : Nat) (stretches : List Stretch) (last : List Char)
    {later : List Edit} (behind : ∀ e ∈ later, pos + (spell (allPieces stretches) []).length ≤ e.start) :
    Edits.applyFrom pos (spell (allPieces stretches) last) (blanks pos stretches ++ later) =
      remain stretches
        (Edits.applyFrom (pos + (spell (allPieces stretches) []).length) last later) := by
  induction stretches generalizing pos with
  | nil => rfl
  | cons stretch stretches ih =>
    obtain ⟨erased, pieces⟩ := stretch
    have whole (last : List Char) : spell (allPieces (⟨erased, pieces⟩ :: stretches)) last =
        spell pieces [] ++ spell (allPieces stretches) last := by
      rw [allPieces, List.flatMap_cons, spell_append, spell_eq_append, ← allPieces]
    rw [whole [], List.length_append, ← Nat.add_assoc] at behind ⊢
    have further := ih (pos + (spell pieces []).length) behind
    rw [whole]
    cases erased with
    | false =>
      have later' : ∀ e ∈ blanks (pos + (spell pieces []).length) stretches ++ later,
          pos + (spell pieces []).length ≤ e.start :=
        List.forall_mem_append.mpr ⟨fun e => le_of_mem_blanks, fun e mem =>
          Nat.le_trans (Nat.le_add_right ..) (behind e mem)⟩
      rw [blanks_keep, applyFrom_append_of_le later', further, remain, ← spell_eq_append]
    | true =>
      cases pieces with
      | nil => exact further
      | cons piece pieces =>
        have split : spell (piece :: pieces) [] =
            piece.gap ++ spell (⟨[], piece.symbol⟩ :: pieces) [] := rfl
        rw [blanks, remain]
        rw [split] at further ⊢
        generalize spell (⟨[], piece.symbol⟩ :: pieces) [] = body at further ⊢
        have size : pos + (piece.gap ++ body).length - (pos + piece.gap.length) = body.length := by
          rw [List.length_append]
          omega
        have later : ¬ pos + piece.gap.length < pos := by omega
        rw [List.cons_append, Edits.applyFrom]
        simp only [later, if_false, Nat.add_sub_cancel_left, size]
        rw [List.append_assoc piece.gap body, List.take_left, List.drop_left, List.take_left,
          List.drop_left, further, List.append_assoc]
        rfl

/-- The edits of stretches leave what remains of the text. -/
theorem applyFrom_blanks (pos : Nat) (stretches : List Stretch) (last : List Char) :
    Edits.applyFrom pos (spell (allPieces stretches) last) (blanks pos stretches) =
      remain stretches last := by
  have applied := @applyFrom_blanks_append pos stretches last [] fun e mem => by cases mem
  rwa [List.append_nil] at applied

theorem applyTo_blanks (stretches : List Stretch) (last : List Char) :
    Edits.applyTo (blanks 0 stretches).reverse (spell (allPieces stretches) last) =
      remain stretches last := by
  rw [Edits.applyTo, inOrder_blanks, applyFrom_blanks]

end ModuleLinker
