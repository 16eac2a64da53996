import Mathlib
import ModuleLinker.Proofs.Erase.Behind.Text
import ModuleLinker.Proofs.Erase.TypedWalk

/-!
# The references of a module without its types

Erasing a module of imports, exports, type aliases and constants overwrites the parts of its items that
are types and leaves all else (`erase_piecesOf`), and the search for static imports finds in what is left
the references of the items that are not only about types (`staticImports_erase`).
-/

set_option autoImplicit false

namespace ModuleLinker

open Erase ModuleLinker.Symbol

/-! ## The edits of a walk -/

namespace Erase.Program

variable {p : Program}

/-- Overwriting the tokens of a spelled text overwrites it from its first symbol to its end. -/
theorem blank_tokensOf {front back : List Token} {pos : Nat} {piece : Spaced} {pieces : List Spaced}
    (whole : p.tokens.toList = front ++ (tokensOf pos (piece :: pieces) ++ back)) (s : State) :
    p.blank s front.length (front.length + (piece :: pieces).length) =
      s.edit ⟨pos + piece.gap.length, pos + (spell (piece :: pieces) []).length, none⟩ := by
  obtain ⟨z, last, stop⟩ := exists_getLast?_tokensOf pos (List.cons_ne_nil piece pieces)
  have start : p.tokens[front.length]? = (tokensOf pos (piece :: pieces))[0]? := by
    rw [← Array.getElem?_toList, whole]
    simp [tokensOf]
  have ends : p.tokens[front.length + (piece :: pieces).length - 1]? = some z := by
    rw [List.getLast?_eq_getElem?, length_tokensOf] at last
    rw [← Array.getElem?_toList, whole, List.length_cons, ← Nat.add_assoc, Nat.add_sub_cancel,
      List.getElem?_append_right (Nat.le_add_right ..), Nat.add_sub_cancel_left, ← last,
      List.getElem?_append_left (by simp [length_tokensOf])]
    rfl
  rw [blank, if_pos (by simp), start, ends]
  dsimp only [tokensOf, List.getElem?_cons_zero]
  rw [stop]

/-- Overwriting the parts of a spelled text is done by the edits for its stretches, which come behind
the edits so far. -/
theorem edits_eraseParts {front back : List Token} {pos : Nat} {stretches : List Stretch}
    (whole : p.tokens.toList = front ++ (tokensOf pos (allPieces stretches) ++ back))
    (solid : ∀ piece ∈ allPieces stretches, 0 < piece.symbol.text.length) {s : State}
    (before : ∀ e ∈ s.edits, e.start < pos) :
    (p.eraseParts front.length (stretches.map Stretch.part) s).edits =
      (blanks pos stretches).reverse ++ s.edits := by
  -- No edit takes the place of an earlier one, as all edits so far start before the stretches left.
  induction stretches generalizing front pos s with
  | nil => rfl
  | cons stretch stretches ih =>
    obtain ⟨erased, pieces⟩ := stretch
    have split : allPieces (⟨erased, pieces⟩ :: stretches) = pieces ++ allPieces stretches := rfl
    rw [split] at whole solid
    rw [List.forall_mem_append] at solid
    have whole' : p.tokens.toList = front ++ tokensOf pos pieces ++
        (tokensOf (pos + (spell pieces []).length) (allPieces stretches) ++ back) := by
      rw [whole, tokensOf_append, List.append_assoc, List.append_assoc]
    have place : front.length + (pieces.map Spaced.symbol).length =
        (front ++ tokensOf pos pieces).length := by
      rw [List.length_map, List.length_append, length_tokensOf]
    have further (s : State) (before : ∀ e ∈ s.edits, e.start < pos + (spell pieces []).length) :
        (p.eraseParts (front.length + (pieces.map Spaced.symbol).length) (stretches.map Stretch.part) s).edits =
          (blanks (pos + (spell pieces []).length) stretches).reverse ++ s.edits := by
      rw [place]
      exact ih whole' solid.2 before
    have before' : ∀ e ∈ s.edits, e.start < pos + (spell pieces []).length :=
      fun e mem => Nat.lt_add_right _ (before e mem)
    rw [List.map_cons, Stretch.part, eraseParts_cons]
    cases erased with
    | false =>
      rw [blanks_keep]
      exact further s before'
    | true =>
      cases pieces with
      | nil =>
        have stays : p.blank s front.length (front.length + 0) = s := if_neg (Nat.lt_irrefl _)
        rw [if_pos rfl, List.map_nil, List.length_nil, stays]
        exact further s before'
      | cons piece pieces =>
        let added : Edit := ⟨pos + piece.gap.length, pos + (spell (piece :: pieces) []).length, none⟩
        have blanked : (p.blank s front.length
            (front.length + ((piece :: pieces).map Spaced.symbol).length)).edits = added :: s.edits := by
          rw [List.length_map, blank_tokensOf (by rw [whole', List.append_assoc])]
          exact Edits.absorb_of_lt fun old mem => Nat.lt_add_right _ (before old mem)
        have later : added.start < pos + (spell (piece :: pieces) []).length := by
          have some := solid.1 piece List.mem_cons_self
          simp only [added, spell, List.length_append, String.length_toList]
          omega
        have last : ∀ e ∈ added :: s.edits, e.start < pos + (spell (piece :: pieces) []).length :=
          List.forall_mem_cons.mpr ⟨later, before'⟩
        rw [← blanked] at last
        rw [if_pos rfl, further _ last, blanked, blanks, List.reverse_cons, List.append_assoc]
        rfl

/-! ## Items as they are written -/

theorem hasAll_of_tokens {front middle back : List Token}
    (whole : p.tokens.toList = front ++ (middle ++ back)) :
    p.HasAll front.length (middle.map Token.symbol) := by
  induction middle generalizing front with
  | nil => trivial
  | cons t middle ih =>
    have found : p.tokens[front.length]? = some t := by
      rw [← Array.getElem?_toList, whole]
      simp
    have rest := @ih (front ++ [t]) (by rw [whole]; simp)
    rw [List.length_append, List.length_singleton] at rest
    exact ⟨⟨t, found, rfl⟩, rest⟩

theorem reads_of_tokens {front middle back : List Token}
    (whole : p.tokens.toList = front ++ (middle ++ back))
    (line : ∀ t ∈ middle, t.newlineBefore = false) : p.Reads front.length (middle.map Token.symbol) := by
  induction middle generalizing front with
  | nil => trivial
  | cons t middle ih =>
    rw [List.forall_mem_cons] at line
    have found : p.tokens[front.length]? = some t := by
      rw [← Array.getElem?_toList, whole]
      simp
    have rest := @ih (front ++ [t]) (by rw [whole]; simp) line.2
    rw [List.length_append, List.length_singleton] at rest
    exact ⟨⟨t, found, rfl, line.1⟩, rest⟩

/-- The tokens of a spelled text behind its first one are read if no line ends before them. -/
theorem reads_tail_of_tokens {front back : List Token} {pos : Nat} {pieces : List Spaced}
    (whole : p.tokens.toList = front ++ (tokensOf pos pieces ++ back))
    (line : ∀ piece ∈ pieces.tail, piece.gap.any Text.isLineEnd = false) :
    p.Reads (front.length + 1) (pieces.map Spaced.symbol).tail := by
  cases pieces with
  | nil => trivial
  | cons piece pieces =>
    obtain ⟨t, pos', split⟩ : ∃ t pos', tokensOf pos (piece :: pieces) = t :: tokensOf pos' pieces :=
      ⟨_, _, rfl⟩
    have whole' : p.tokens.toList = (front ++ [t]) ++ (tokensOf pos' pieces ++ back) := by
      rw [whole, split, List.append_assoc]
      rfl
    have rest := reads_of_tokens whole' (newlineBefore_tokensOf line)
    rwa [map_symbol_tokensOf, List.length_append, List.length_singleton] at rest

/-- The tokens of a program on one line are read from the first one on. -/
theorem reads_all (line : ∀ t ∈ p.tokens.toList, t.newlineBefore = false) :
    p.Reads 0 (p.tokens.toList.map Token.symbol) := by
  have whole : p.tokens.toList = [] ++ (p.tokens.toList ++ []) := (List.append_nil _).symm
  exact reads_of_tokens whole line

end Erase.Program

/-- An item with the blanks in front of its symbols. -/
structure TypedLine where
  /-- The item. -/
  item : TypedItem
  /-- Its symbols with the blanks in front of them. -/
  pieces : List Spaced

/-- Whether an item is written as it should be, on one line if it ends with its line. -/
structure TypedLine.IsProper (line : TypedLine) : Prop where
  /-- The item is as it should be. -/
  item : line.item.IsProper
  /-- The symbols are those of the item. -/
  spelled : line.pieces.map Spaced.symbol = line.item.symbols
  /-- No line ends in an item that ends with its line. -/
  oneLine : line.item.endsWithLine = true →
    ∀ piece ∈ line.pieces.tail, piece.gap.any Text.isLineEnd = false

/-- The symbols of a module with the blanks in front of them. -/
def piecesOf (lines : List TypedLine) : List Spaced := lines.flatMap TypedLine.pieces

namespace Erase.Program

variable {p : Program}

theorem lies_of_tokens {front back : List Token} {pos : Nat} {line : TypedLine} (proper : line.IsProper)
    (whole : p.tokens.toList = front ++ (tokensOf pos line.pieces ++ back)) :
    p.Lies front.length line.item := by
  obtain ⟨item, pieces⟩ := line
  obtain ⟨-, spelled, oneLine⟩ := proper
  dsimp only at spelled oneLine whole ⊢
  constructor
  · rw [← spelled, ← map_symbol_tokensOf pos]
    exact hasAll_of_tokens whole
  · intro ends
    rw [← spelled]
    exact reads_tail_of_tokens whole (oneLine ends)

theorem lieAll_of_tokens {front : List Token} {pos : Nat} {lines : List TypedLine}
    (proper : ∀ line ∈ lines, line.IsProper)
    (whole : p.tokens.toList = front ++ tokensOf pos (piecesOf lines)) :
    p.LieAll front.length (lines.map TypedLine.item) := by
  induction lines generalizing front pos with
  | nil => trivial
  | cons line lines ih =>
    rw [List.forall_mem_cons] at proper
    rw [piecesOf, List.flatMap_cons, tokensOf_append, ← piecesOf] at whole
    have length : (front ++ tokensOf pos line.pieces).length = front.length + line.item.symbols.length := by
      rw [List.length_append, length_tokensOf, ← proper.1.spelled, List.length_map]
    have rest := @ih (front ++ tokensOf pos line.pieces) _ proper.2 (by rw [whole, List.append_assoc])
    rw [length] at rest
    exact ⟨lies_of_tokens proper.1 whole, rest⟩

/-! ## Erasing a module -/

/-- A text whose brackets have partners is read as its tokens. -/
theorem exists_ofSource {source : List Char} {tokens : Array Token} (scanned : scan source = .ok tokens)
    (nested : Nested (tokens.toList.map Token.symbol)) :
    ∃ p, ofSource source = .ok p ∧ p.tokens = tokens ∧ matchBrackets p.tokens = .ok p.partners := by
  obtain ⟨partners, matched⟩ := exists_partners_of_nested nested
  refine ⟨⟨source, tokens, partners⟩, ?_, rfl, matched⟩
  rw [ofSource, scanned]
  exact bind_eq_ok.mpr ⟨_, rfl, bind_eq_ok.mpr ⟨_, matched, rfl⟩⟩

end Erase.Program

theorem nested_between {ss : List Symbol} (between : ∀ s ∈ ss, isBetween s = true) : Nested ss := by
  refine nested_of_isPlain fun s mem => ?_
  obtain ⟨x, rfl⟩ | rfl | rfl := eq_of_isBetween (between s mem) <;> rfl

theorem nested_braces (list : Braces) : Nested (allSymbols list.parts) := by
  rw [allSymbols_braces]
  exact @Nested.bracket openBrace _ (by decide) (nested_elementParts ..)

theorem nested_clause {front : List Symbol} (between : ∀ s ∈ front, isBetween s = true)
    (list : Option Braces) (r : Quoted) : Nested (allSymbols (clauseParts front list r)) := by
  rw [allSymbols_clause]
  refine (nested_between between).append (.append ?_ ?_)
  · cases list with
    | none => exact .nil
    | some list => exact nested_braces list
  · exact .cons rfl (.cons rfl (.plain (by decide)))

theorem nested_fromParts (keyword : String) (typeOnly : Bool) {front : List Symbol}
    (between : ∀ s ∈ front, isBetween s = true) (list : Option Braces) (r : Quoted) :
    Nested (allSymbols (fromParts keyword typeOnly front list r)) := by
  have clause := nested_clause between list r
  cases typeOnly with
  | false => exact .cons rfl clause
  | true => exact (Nested.cons rfl (.cons rfl clause)).append .nil

/-- The brackets of an item have partners. -/
theorem TypedItem.IsProper.nested {item : TypedItem} (proper : item.IsProper) : Nested item.symbols := by
  cases item with
  | importOnly r => exact .cons rfl (.cons rfl (.plain (by decide)))
  | importFrom typeOnly clause r => exact nested_fromParts _ _ clause.isBetween_front _ _
  | exportFrom typeOnly clause r => exact nested_fromParts _ _ clause.isBetween_front _ _
  | exportTypes list =>
    exact (Nested.cons rfl (.cons rfl ((nested_braces list).append (.plain (by decide))))).append .nil
  | typeAlias name type =>
    have type := (proper.type _ _ rfl).nested
    exact (Nested.cons rfl (.cons rfl (.cons (by decide) (type.append (.plain (by decide)))))).append .nil
  | constant x n => exact .cons rfl (.cons rfl (.cons (by decide) (.cons rfl (.plain (by decide)))))

theorem nested_flatMap {items : List TypedItem} (proper : ∀ item ∈ items, item.IsProper) :
    Nested (items.flatMap TypedItem.symbols) := by
  induction items with
  | nil => exact .nil
  | cons item items ih =>
    rw [List.forall_mem_cons] at proper
    exact proper.1.nested.append (ih proper.2)

theorem allSymbols_flatMap (items : List TypedItem) :
    allSymbols (items.flatMap TypedItem.parts) = items.flatMap TypedItem.symbols := List.flatMap_assoc

theorem map_symbol_piecesOf {lines : List TypedLine} (proper : ∀ line ∈ lines, line.IsProper) :
    (piecesOf lines).map Spaced.symbol = (lines.map TypedLine.item).flatMap TypedItem.symbols := by
  induction lines with
  | nil => rfl
  | cons line lines ih =>
    rw [List.forall_mem_cons] at proper
    rw [piecesOf, List.flatMap_cons, ← piecesOf, List.map_append, proper.1.spelled, ih proper.2]
    rfl

/-- Erasing a module of typed items overwrites the parts of the items that are types. -/
theorem erase_piecesOf {lines : List TypedLine} {last : List Char}
    (proper : ∀ line ∈ lines, line.IsProper) (legible : isLegible (piecesOf lines) last = true)
    (blank : isGap last = true) {stretches : List Stretch} (whole : allPieces stretches = piecesOf lines)
    (parts : stretches.map Stretch.part = (lines.map TypedLine.item).flatMap TypedItem.parts) :
    erase (spell (piecesOf lines) last) = .ok (remain stretches last) := by
  have proper' : ∀ item ∈ lines.map TypedLine.item, item.IsProper :=
    List.forall_mem_map.mpr fun line mem => (proper line mem).item
  have symbols := map_symbol_piecesOf proper
  have nested : Nested ((tokensOf 0 (piecesOf lines)).map Token.symbol) := by
    rw [map_symbol_tokensOf, symbols]
    exact nested_flatMap proper'
  obtain ⟨p, read, tokens, matched⟩ := Program.exists_ofSource (scan_spell legible blank) nested
  replace tokens : p.tokens.toList = tokensOf 0 (piecesOf lines) := congrArg Array.toList tokens
  obtain ⟨hole, -, editsOf_eq⟩ := Program.editsOf_eq_walk read
  have size : ((lines.map TypedLine.item).flatMap TypedItem.symbols).length = p.tokens.size := by
    rw [← symbols, List.length_map, ← Array.length_toList, tokens, length_tokensOf]
  have lie : p.LieAll ([] : List Token).length (lines.map TypedLine.item) :=
    Program.lieAll_of_tokens proper tokens
  have edits : (p.eraseParts ([] : List Token).length (stretches.map Stretch.part) ⟨0, []⟩).edits =
      (blanks 0 stretches).reverse ++ ([] : Edits) := by
    refine @Program.edits_eraseParts p _ [] _ _ ?_ ?_ _ fun e mem => absurd mem List.not_mem_nil
    · rw [whole, List.append_nil]
      exact tokens
    · rw [whole]
      exact length_pos_of_isLegible legible
  rw [erase, editsOf_eq, Program.walk_module matched proper' lie size, ← parts]
  have same : ((p.eraseParts 0 (stretches.map Stretch.part) ⟨0, []⟩).goto p.tokens.size).edits =
      (blanks 0 stretches).reverse := edits.trans (List.append_nil _)
  refine bind_eq_ok.mpr ⟨(blanks 0 stretches).reverse, congrArg Except.ok same, ?_⟩
  rw [← whole, applyTo_blanks]

/-! ## The references that are left -/

/-- A reference is found where it stands. -/
theorem reference?_symbol (r : Quoted) (ts : List Token) :
    ModuleLinker.reference? (r.symbol.token :: ts) = some r.text := by
  have text : unquote r.symbol.token.text = r.text := by
    simp [unquote, Quoted.symbol, token]
  exact congrArg some text

/-- Whether a symbol in front of the word `from` neither ends a clause nor starts a statement. -/
def IsInClause (s : Symbol) : Prop :=
  s = mark "*" ∨ s = mark "," ∨ ∃ x, s = word x ∧ x ∉ ["from", "import", "export"]

theorem clauseReference?_inClause {ss : List Symbol} (inClause : ∀ s ∈ ss, IsInClause s)
    (ts : List Token) : clauseReference? (ss.map token ++ ts) = clauseReference? ts := by
  induction ss with
  | nil => rfl
  | cons s ss ih =>
    rw [List.forall_mem_cons] at inClause
    rw [List.map_cons, List.cons_append]
    rcases inClause.1 with rfl | rfl | ⟨x, rfl, other⟩
    · rw [clauseReference?_mark (.inl rfl), ih inClause.2]
    · rw [clauseReference?_mark (.inr rfl), ih inClause.2]
    · rw [clauseReference?_word, if_neg fun same => other (by simp [same]), ih inClause.2]

theorem tokenImports_inClause {ss : List Symbol} (inClause : ∀ s ∈ ss, IsInClause s)
    (ts : List Token) : tokenImports 0 false (ss.map token ++ ts) = tokenImports 0 false ts := by
  induction ss with
  | nil => rfl
  | cons s ss ih =>
    rw [List.forall_mem_cons] at inClause
    rw [List.map_cons, List.cons_append]
    rcases inClause.1 with rfl | rfl | ⟨x, rfl, other⟩
    · rw [tokenImports_mark (by decide), ih inClause.2]
    · rw [tokenImports_mark (by decide), ih inClause.2]
    · rw [List.mem_cons, List.mem_cons, List.mem_singleton, not_or, not_or] at other
      rw [tokenImports_word other.2, ih inClause.2]

theorem isInClause_of_isFree {name : String} (free : isFree name = true) : IsInClause (word name) := by
  refine .inr (.inr ⟨name, rfl, fun mem => ?_⟩)
  simp only [List.mem_cons, List.not_mem_nil, or_false] at mem
  rcases mem with rfl | rfl | rfl <;> revert free <;> decide

theorem isInClause_as : IsInClause (word "as") := .inr (.inr ⟨"as", rfl, by decide⟩)

theorem ImportClause.isInClause_front {clause : ImportClause}
    (free : ∀ name ∈ clause.names, isFree name = true) : ∀ s ∈ clause.front, IsInClause s := by
  cases clause with
  | default x =>
    exact List.forall_mem_singleton.mpr (isInClause_of_isFree (free x List.mem_cons_self))
  | all x =>
    have name := isInClause_of_isFree (free x List.mem_cons_self)
    exact List.forall_mem_cons.mpr ⟨.inl rfl, List.forall_mem_cons.mpr ⟨isInClause_as, List.forall_mem_singleton.mpr name⟩⟩
  | named list => exact fun s mem => absurd mem List.not_mem_nil
  | both x list =>
    have name := isInClause_of_isFree (free x List.mem_cons_self)
    exact List.forall_mem_cons.mpr ⟨name, List.forall_mem_singleton.mpr (.inr (.inl rfl))⟩

theorem ExportClause.isInClause_front {clause : ExportClause}
    (free : ∀ name ∈ clause.names, isFree name = true) : ∀ s ∈ clause.front, IsInClause s := by
  cases clause with
  | named list => exact fun s mem => absurd mem List.not_mem_nil
  | all => exact List.forall_mem_singleton.mpr (.inl rfl)
  | allAs x =>
    have name := isInClause_of_isFree (free x List.mem_cons_self)
    exact List.forall_mem_cons.mpr ⟨.inl rfl, List.forall_mem_cons.mpr ⟨isInClause_as, List.forall_mem_singleton.mpr name⟩⟩

/-- The symbols that are left of a brace list. -/
theorem keptSymbols_braces (list : Braces) : keptSymbols list.parts = mark openBrace ::
    (keptSymbols (elementParts list.trailing list.elements) ++ [mark closeBrace]) := by
  simp [Braces.parts, keptSymbols]

/-- In what is left of a brace list there are words and commas. -/
theorem mem_keptSymbols {trailing : Bool} {es : List Element} {s : Symbol}
    (mem : s ∈ keptSymbols (elementParts trailing es)) : s = mark "," ∨ ∃ x, s = word x := by
  refine mem_elementParts (?_ : s ∈ allSymbols (elementParts trailing es))
  exact keptSymbols_subset mem

/-- The symbols that are left behind the keyword of an item with a clause. -/
theorem keptSymbols_clause (front : List Symbol) (list : Option Braces) (r : Quoted) :
    keptSymbols (clauseParts front list r) = front ++
      ((list.elim [] fun list => keptSymbols list.parts) ++ [word "from", r.symbol, mark ";"]) := by
  cases list <;> simp [clauseParts, keptSymbols]

theorem clauseReference?_clause {front : List Symbol} (inClause : ∀ s ∈ front, IsInClause s)
    (list : Option Braces) (r : Quoted) (ts : List Token) :
    clauseReference? ((keptSymbols (clauseParts front list r)).map token ++ ts) = some r.text := by
  have source : clauseReference? ([word "from", r.symbol, mark ";"].map token ++ ts) = some r.text := by
    refine (clauseReference?_word "from" _).trans ?_
    rw [if_pos rfl]
    exact reference?_symbol r _
  rw [keptSymbols_clause, List.map_append, List.append_assoc, clauseReference?_inClause inClause,
    List.map_append, List.append_assoc]
  cases list with
  | none => exact source
  | some list =>
    rw [Option.elim_some, keptSymbols_braces, clauseReference?_braces fun s => mem_keptSymbols, source]

theorem tokenImports_clause {front : List Symbol} (inClause : ∀ s ∈ front, IsInClause s)
    (list : Option Braces) (r : Quoted) (ts : List Token) :
    tokenImports 0 false ((keptSymbols (clauseParts front list r)).map token ++ ts) =
      tokenImports 0 false ts := by
  have source : tokenImports 0 false ([word "from", r.symbol, mark ";"].map token ++ ts) =
      tokenImports 0 false ts := by
    refine (tokenImports_word (by decide) _).trans ((tokenImports_literal (.inl rfl) _ _).trans ?_)
    exact tokenImports_mark (by decide) ts
  rw [keptSymbols_clause, List.map_append, List.append_assoc, tokenImports_inClause inClause,
    List.map_append, List.append_assoc]
  cases list with
  | none => exact source
  | some list =>
    rw [Option.elim_some, keptSymbols_braces, tokenImports_braces fun s => mem_keptSymbols, source]

/-- Of what is left of an item the search finds the reference, if the item is not only about types. -/
theorem tokenImports_keptSymbols {item : TypedItem} (proper : item.IsProper) (ts : List Token) :
    tokenImports 0 false ((keptSymbols item.parts).map token ++ ts) =
      item.reference?.toList ++ tokenImports 0 false ts := by
  cases item with
  | importOnly r =>
    have left : (keptSymbols (TypedItem.importOnly r).parts).map token ++ ts =
        (word "import").token :: r.symbol.token :: (mark ";").token :: ts := rfl
    have rest : tokenImports 0 false (r.symbol.token :: (mark ";").token :: ts) = tokenImports 0 false ts :=
      (tokenImports_literal (.inl rfl) _ _).trans (tokenImports_mark (by decide) ts)
    rw [left, tokenImports_start (.inl rfl), statementReference?_import, reference?_symbol, rest]
    rfl
  | importFrom typeOnly clause r =>
    cases typeOnly with
    | false =>
      have inClause := clause.isInClause_front proper.names
      have left : (keptSymbols (TypedItem.importFrom false clause r).parts).map token ++ ts =
          (word "import").token ::
            ((keptSymbols (clauseParts clause.front clause.list? r)).map token ++ ts) := rfl
      have noString : ModuleLinker.reference?
          ((keptSymbols (clauseParts clause.front clause.list? r)).map token ++ ts) = none := by
        cases clause <;> rfl
      rw [left, tokenImports_start (.inl rfl), statementReference?_import, noString,
        clauseReference?_clause inClause, tokenImports_clause inClause]
      rfl
    | true => rfl
  | exportFrom typeOnly clause r =>
    cases typeOnly with
    | false =>
      have inClause := clause.isInClause_front proper.names
      have left : (keptSymbols (TypedItem.exportFrom false clause r).parts).map token ++ ts =
          (word "export").token ::
            ((keptSymbols (clauseParts clause.front clause.list? r)).map token ++ ts) := rfl
      rw [left, tokenImports_start (.inr rfl), statementReference?_export,
        clauseReference?_clause inClause, tokenImports_clause inClause]
      rfl
    | true => rfl
  | exportTypes list => rfl
  | typeAlias name type => rfl
  | constant x n =>
    have name : IsInClause (word x) := isInClause_of_isFree (proper.names x List.mem_cons_self)
    have left : (keptSymbols (TypedItem.constant x n).parts).map token ++ ts =
        (word "const").token :: ([word x].map token ++
          (mark "=").token :: (Symbol.mk .number n).token :: (mark ";").token :: ts) := rfl
    rw [left, tokenImports_word (by decide), tokenImports_inClause (List.forall_mem_singleton.mpr name),
      tokenImports_mark (by decide), tokenImports_literal (.inr rfl), tokenImports_mark (by decide)]
    rfl

/-- In what is left of some items the search finds the references of those that are not only about
types. -/
theorem tokenImports_items {items : List TypedItem} (proper : ∀ item ∈ items, item.IsProper) :
    tokenImports 0 false ((keptSymbols (items.flatMap TypedItem.parts)).map token) =
      items.filterMap TypedItem.reference? := by
  induction items with
  | nil => rfl
  | cons item items ih =>
    rw [List.forall_mem_cons] at proper
    rw [List.flatMap_cons, keptSymbols_append, List.map_append, tokenImports_keptSymbols proper.1,
      ih proper.2, List.filterMap_cons]
    cases item.reference? <;> rfl

/-- Erasing a module of typed items succeeds, and the static imports of what is left are the references
of the items that are not only about types, in order: imports and exports of types do not become static
imports, and all others stay. -/
theorem staticImports_erase {lines : List TypedLine} {last : List Char}
    (proper : ∀ line ∈ lines, line.IsProper) (legible : isLegible (piecesOf lines) last = true)
    (blank : isGap last = true) :
    ∃ out, erase (spell (piecesOf lines) last) = .ok out ∧
      staticImports (String.ofList out) = .ok (lines.filterMap fun line => line.item.reference?) := by
  have proper' : ∀ item ∈ lines.map TypedLine.item, item.IsProper :=
    List.forall_mem_map.mpr fun line mem => (proper line mem).item
  have symbols : (piecesOf lines).map Spaced.symbol =
      allSymbols ((lines.map TypedLine.item).flatMap TypedItem.parts) := by
    rw [map_symbol_piecesOf proper, allSymbols_flatMap]
  obtain ⟨stretches, whole, parts⟩ := exists_stretches symbols
  refine ⟨remain stretches last, erase_piecesOf proper legible blank whole parts, ?_⟩
  rw [← whole] at legible
  obtain ⟨pieces, last', left, kept, legible', blank'⟩ := exists_spell_remain legible blank
  have scanned : scan (String.ofList (remain stretches last)).toList =
      .ok (tokensOf 0 pieces).toArray := by
    rw [String.toList_ofList, left]
    exact scan_spell legible' blank'
  have found : tokenImports 0 false (tokensOf 0 pieces) =
      lines.filterMap fun line => line.item.reference? := by
    rw [← tokenImports_symbols, map_symbol_tokensOf, kept, parts, tokenImports_items proper',
      List.filterMap_map]
    rfl
  rw [staticImports, scanned, ← found]
  rfl

/-- An import with one element that is a type, and items that are only about types between imports. -/
theorem staticImports_erase_elements :
    let source := "import a, \x7b type B, c as d \x7d from \"q\";\n" ++
      "import type \x7b E \x7d from \"r\";\nexport type \x7b F \x7d;\ntype X = 1;\nconst x = 1;\n" ++
      "export * as g from \"s\";"
    ∃ out, erase source.toList = .ok out ∧ staticImports (String.ofList out) = .ok ["q", "s"] := by
  intro source
  let lines : List TypedLine := [
    ⟨.importFrom false (.both "a" ⟨[⟨true, "B", none⟩, ⟨false, "c", some "d"⟩], false⟩) ⟨"q", false⟩,
      [⟨[], word "import"⟩, ⟨[' '], word "a"⟩, ⟨[], mark ","⟩, ⟨[' '], mark openBrace⟩, ⟨[' '], word "type"⟩,
        ⟨[' '], word "B"⟩, ⟨[], mark ","⟩, ⟨[' '], word "c"⟩, ⟨[' '], word "as"⟩, ⟨[' '], word "d"⟩,
        ⟨[' '], mark closeBrace⟩, ⟨[' '], word "from"⟩, ⟨[' '], quoted "q"⟩, ⟨[], mark ";"⟩]⟩,
    ⟨.importFrom true (.named ⟨[⟨false, "E", none⟩], false⟩) ⟨"r", false⟩,
      [⟨['\n'], word "import"⟩, ⟨[' '], word "type"⟩, ⟨[' '], mark openBrace⟩, ⟨[' '], word "E"⟩,
        ⟨[' '], mark closeBrace⟩, ⟨[' '], word "from"⟩, ⟨[' '], quoted "r"⟩, ⟨[], mark ";"⟩]⟩,
    ⟨.exportTypes ⟨[⟨false, "F", none⟩], false⟩,
      [⟨['\n'], word "export"⟩, ⟨[' '], word "type"⟩, ⟨[' '], mark openBrace⟩, ⟨[' '], word "F"⟩,
        ⟨[' '], mark closeBrace⟩, ⟨[], mark ";"⟩]⟩,
    ⟨.typeAlias "X" [⟨.number, "1"⟩],
      [⟨['\n'], word "type"⟩, ⟨[' '], word "X"⟩, ⟨[' '], mark "="⟩, ⟨[' '], ⟨.number, "1"⟩⟩, ⟨[], mark ";"⟩]⟩,
    ⟨.constant "x" "1",
      [⟨['\n'], word "const"⟩, ⟨[' '], word "x"⟩, ⟨[' '], mark "="⟩, ⟨[' '], ⟨.number, "1"⟩⟩, ⟨[], mark ";"⟩]⟩,
    ⟨.exportFrom false (.allAs "g") ⟨"s", false⟩,
      [⟨['\n'], word "export"⟩, ⟨[' '], mark "*"⟩, ⟨[' '], word "as"⟩, ⟨[' '], word "g"⟩,
        ⟨[' '], word "from"⟩, ⟨[' '], quoted "s"⟩, ⟨[], mark ";"⟩]⟩]
  have noAlias {item : TypedItem} (names : ∀ name ∈ item.names, isFree name = true)
      (other : ∀ name type, item ≠ .typeAlias name type) : item.IsProper :=
    ⟨names, fun name type same => absurd same (other name type)⟩
  have proper : ∀ line ∈ lines, line.IsProper := by
    simp only [lines, List.forall_mem_cons]
    refine ⟨⟨noAlias (by decide) (by simp), by decide, by decide⟩,
      ⟨noAlias (by decide) (by simp), by decide, by decide⟩,
      ⟨noAlias (by decide) (by simp), by decide, by decide⟩, ⟨⟨by decide, ?_⟩, by decide, by decide⟩,
      ⟨noAlias (by decide) (by simp), by decide, by decide⟩,
      ⟨noAlias (by decide) (by simp), by decide, by decide⟩, fun line mem => absurd mem List.not_mem_nil⟩
    rintro _ _ ⟨⟩
    exact .number "1"
  obtain ⟨out, done, finds⟩ := @staticImports_erase lines [] proper (by decide +kernel) (by decide)
  have same : spell (piecesOf lines) [] = source.toList := by decide +kernel
  rw [same] at done
  exact ⟨out, done, finds⟩

end ModuleLinker
