import Mathlib
import ModuleLinker.Proofs.Erase.Grows
import ModuleLinker.Proofs.Erase.Overlay
import ModuleLinker.Proofs.Text.Digits

/-!
# How many lines an erased text has

Erasing types keeps every line feed of a text. The code that takes the place of an enum repeats the
line feeds of the keys and values that it copies, and these are all that is ever added, so that no
line moves in a text none of whose enums has a key or a value over several lines
(`count_lineFeed_erase`).
-/

set_option autoImplicit false

namespace ModuleLinker.Erase

open Text

/-! ## Counting line feeds -/

namespace Edit

/-- How many line feeds the code of an edit has. -/
def codeLines (e : Edit) : Nat := e.code.elim 0 (·.toList.count '\n')

theorem blankOut_eq_lineFeed (c : Char) : (blankOut c == '\n') = (c == '\n') := by
  rcases blankOut_eq c with same | ⟨space, other, -⟩
  · rw [same]
  · rw [space, beq_eq_false_iff_ne.mpr other]
    rfl

/-- What stands for an edited range has the line feeds of the range and those of the code. -/
theorem count_apply (e : Edit) (range : List Char) :
    (e.apply range).count '\n' = range.count '\n' + e.codeLines := by
  unfold apply codeLines
  cases e.code with
  | none =>
    rw [List.count, List.countP_map, Option.elim_none, Nat.add_zero]
    exact List.countP_congr fun c _ => by rw [Function.comp_apply, blankOut_eq_lineFeed]
  | some code =>
    rw [List.count_append, List.count_replicate_self, Nat.add_comm, Option.elim_some]

end Edit

namespace Edits

/-- Carrying out edits adds the line feeds of their code. -/
theorem count_applyFrom (offset : Nat) (cs : List Char) (es : List Edit) :
    (applyFrom offset cs es).count '\n' =
      cs.count '\n' + ((carriedOut offset es).map (·.codeLines)).sum := by
  induction es generalizing offset cs with
  | nil => rfl
  | cons e es ih =>
    unfold applyFrom carriedOut
    split
    · exact ih offset cs
    · -- The text falls into what comes before the range, the range, and the rest.
      have whole := congrArg (List.count '\n') (List.take_append_drop (e.start - offset) cs)
      have range := congrArg (List.count '\n')
        (List.take_append_drop (e.stop - e.start) (cs.drop (e.start - offset)))
      rw [List.count_append] at whole range
      dsimp only
      rw [List.count_append, List.count_append, Edit.count_apply, ih, List.map_cons, List.sum_cons]
      omega

end Edits

/-! ## Code on one line -/

/-- Whether a code has no line feed. -/
def IsOnLine (code : String) : Prop := '\n' ∉ code.toList

theorem isOnLine_append {a b : String} : IsOnLine (a ++ b) ↔ IsOnLine a ∧ IsOnLine b := by
  unfold IsOnLine
  rw [String.toList_append, List.mem_append, not_or]

theorem IsOnLine.append {a b : String} (first : IsOnLine a) (second : IsOnLine b) : IsOnLine (a ++ b) :=
  isOnLine_append.mpr ⟨first, second⟩

theorem isOnLine_intercalate {separator : String} {codes : List String} (line : IsOnLine separator)
    (lines : ∀ code ∈ codes, IsOnLine code) : IsOnLine (separator.intercalate codes) := by
  induction codes with
  | nil =>
    rw [String.intercalate_nil]
    exact List.not_mem_nil
  | cons code codes ih =>
    rw [List.forall_mem_cons] at lines
    by_cases last : codes = []
    · rw [last, String.intercalate_singleton]
      exact lines.1
    · rw [String.intercalate_cons_of_ne_nil last]
      exact (lines.1.append line).append (ih lines.2)

theorem isOnLine_toString (n : Int) : IsOnLine (toString n) := by
  have digits (n : Nat) : IsOnLine (toString n) := fun mem =>
    absurd (isDigit_of_mem_toString mem) (by decide)
  cases n with
  | ofNat n => exact digits n
  | negSucc n =>
    change IsOnLine ("-" ++ toString (n + 1))
    exact isOnLine_append.mpr ⟨by unfold IsOnLine; decide, digits (n + 1)⟩

theorem codeLines_eq_zero {code : String} (line : IsOnLine code) (start stop : Nat) :
    (⟨start, stop, some code⟩ : Edit).codeLines = 0 :=
  List.count_eq_zero.mpr line

/-- Whether what has been written of an enum stands on one line. -/
structure EnumState.IsOnLine (s : EnumState) : Prop where
  /-- Every statement does. -/
  statements : ∀ code ∈ s.statements, Erase.IsOnLine code
  /-- The key that the next member may count on from does. -/
  key : ∀ m, s.previous = some m → Erase.IsOnLine m.key

namespace Program

variable (p : Program)

/-- The offset right after the token before a position; the length of the text past the last one. -/
def stopBefore (i : Nat) : Nat := (p.tokens[i - 1]?.map (·.stop)).getD p.source.length

/-- Whether the tokens from one position up to another stand on more than one line. -/
def SpansLines (first last : Nat) : Prop :=
  ∃ k, p.offset first ≤ k ∧ k < p.stopBefore last ∧ p.source[k]? = some '\n'

/-- Whether a key at a position, or a value after an equals sign there, of an enum that closes at
`close` stands on more than one line. -/
def SplitsAt (close i : Nat) : Prop :=
  (p.kind? i = some .string ∧ p.SpansLines i (i + 1)) ∨
    (p.isPunct i "=" = true ∧ p.SpansLines (i + 1) (p.valueEnd close (i + 1)))

/-- Whether an enum of a program has a key or a value on more than one line. -/
def SplitsEnum : Prop :=
  ∃ i m, p.text i = "enum" ∧ i + 2 < m ∧ m ≤ p.close (i + 2) ∧ p.SplitsAt (p.close (i + 2)) m

variable {p}

theorem mem_slice {start stop : Nat} {c : Char} (mem : c ∈ (p.slice start stop).toList) :
    ∃ k, start ≤ k ∧ k < stop ∧ p.source[k]? = some c := by
  rw [slice, String.toList_ofList] at mem
  obtain ⟨k, less, found⟩ := List.mem_iff_getElem.mp mem
  have stands := List.getElem?_eq_getElem less
  rw [found, List.getElem?_take] at stands
  split at stands
  case isTrue before =>
    rw [List.getElem?_drop] at stands
    exact ⟨start + k, by omega, by omega, stands⟩
  case isFalse => cases stands

theorem IsRead.stop_le_stopBefore (read : p.IsRead) {i j : Nat} {t : Token} (before : i < j)
    (found : p.tokens[i]? = some t) : t.stop ≤ p.stopBefore j := by
  unfold stopBefore
  cases last : p.tokens[j - 1]? with
  | none => exact read.stop_le_length (Array.mem_of_getElem? found)
  | some z => exact (read.stop_le_stop (Nat.le_sub_one_of_lt before) found last).2

theorem IsRead.offset_le_stop (read : p.IsRead) {i j : Nat} {t : Token} (before : i ≤ j)
    (found : p.tokens[j]? = some t) : p.offset i ≤ t.stop := by
  have less := (read.piece (Array.mem_of_getElem? found)).less
  obtain ⟨inside, -⟩ := Array.getElem?_eq_some_iff.mp found
  have first := Array.getElem?_eq_getElem (Nat.lt_of_le_of_lt before inside)
  have ordered := (read.stop_le_stop before first found).1
  rw [offset, first]
  exact Nat.le_trans ordered (Nat.le_of_lt less)

theorem IsRead.isOnLine_name (read : p.IsRead) {i : Nat} (name : p.isName i = true) :
    IsOnLine (p.text i) := by
  obtain ⟨t, found, ident⟩ := (Option.any_eq_true ..).mp name
  rw [text, found]
  intro mem
  rcases (read.piece (Array.mem_of_getElem? found)).cut.mem_name (beq_iff_eq.mp ident) mem with h | h
  · exact absurd h (by decide)
  · exact absurd h (by decide)

theorem IsRead.isOnLine_binding (read : p.IsRead) {i : Nat} (binds : p.bindsAt i = true) :
    IsOnLine (p.text i) := by
  have punct {word : String} (line : IsOnLine word) (h : p.isPunct i word = true) :
      IsOnLine (p.text i) := by
    obtain ⟨t, found, same⟩ := (Option.any_eq_true ..).mp h
    rw [Token.isPunct, Bool.and_eq_true, beq_iff_eq, beq_iff_eq] at same
    rw [text, found]
    change IsOnLine t.text
    rwa [same.2]
  rw [bindsAt, Bool.or_eq_true, Bool.or_eq_true] at binds
  rcases binds with (name | brace) | bracket
  · exact read.isOnLine_name name
  · exact punct (by unfold IsOnLine; decide) brace
  · exact punct (by unfold IsOnLine; decide) bracket

/-! ## The code of an enum -/

theorem le_valueEnd (p : Program) (limit i : Nat) : i ≤ p.valueEnd limit i := by
  fun_induction valueEnd p limit i with
  | case1 => exact Nat.le_refl _
  | case2 i _ _ _ closes ih => exact Nat.le_trans (by omega) ih
  | case3 i _ _ _ ih => exact Nat.le_trans (Nat.le_add_right i 1) ih
  | case4 => exact Nat.le_refl _

/-- A line feed in the code of a value is one of the source, from where the code has been copied. -/
theorem IsRead.lineFeed_of_memberCode (read : p.IsRead) {name : String} (line : IsOnLine name)
    {declared : List String} {first cursor i count : Nat}
    (after : ∀ j t, i ≤ j → p.tokens[j]? = some t → cursor ≤ t.stop)
    (mem : '\n' ∈ (p.memberCode name declared first cursor i count).toList) :
    ∃ k, cursor ≤ k ∧ k < p.stopBefore (i + count) ∧ p.source[k]? = some '\n' := by
  induction count generalizing cursor i with
  | zero =>
    obtain ⟨k, le, less, found⟩ := mem_slice mem
    refine ⟨k, le, ?_, found⟩
    rw [Nat.add_zero, stopBefore]
    cases last : p.tokens[i - 1]? with
    | none =>
      rw [last] at less
      exact absurd less (Nat.not_lt.mpr le)
    | some z =>
      rw [last] at less
      exact less
  | succ count ih =>
    rw [memberCode] at mem
    have place : i + (count + 1) = i + 1 + count := by omega
    split at mem
    case isTrue member =>
      simp only [Bool.and_eq_true] at member
      obtain ⟨t, here, -⟩ := (Option.any_eq_true ..).mp member.1.1
      have less := (read.piece (Array.mem_of_getElem? here)).less
      have offset : p.offset i = t.start := by rw [offset, here]; rfl
      rw [here, offset] at mem
      simp only [String.toList_append, List.mem_append] at mem
      rcases mem with (((copied | inName) | inDot) | inMember) | rest
      · obtain ⟨k, le, before, found⟩ := mem_slice copied
        have stop := read.stop_le_stopBefore (j := i + (count + 1)) (by omega) here
        exact ⟨k, le, by omega, found⟩
      · exact absurd inName line
      · exact absurd inDot (by decide)
      · exact absurd inMember (read.isOnLine_name member.1.1)
      · have later (j : Nat) (t' : Token) (le : i + 1 ≤ j) (there : p.tokens[j]? = some t') :
            t.stop ≤ t'.stop := (read.stop_le_stop (by omega) here there).2
        obtain ⟨k, le, before, found⟩ := ih later rest
        have start := after i t (Nat.le_refl i) here
        exact ⟨k, Nat.le_trans start le, place ▸ before, found⟩
    case isFalse =>
      obtain ⟨k, le, before, found⟩ := ih (fun j t le => after j t (by omega)) mem
      exact ⟨k, le, place ▸ before, found⟩

/-- A key on one line is on one line in the code. -/
theorem IsRead.isOnLine_memberKey (read : p.IsRead) {i : Nat} {key : String}
    (found : p.memberKey? i = some key)
    (line : ¬ (p.kind? i = some .string ∧ p.SpansLines i (i + 1))) : IsOnLine key := by
  have quote : IsOnLine "\"" := by unfold IsOnLine; decide
  unfold memberKey? at found
  split at found
  case h_1 ident =>
    cases found
    have name : p.isName i = true := by
      obtain ⟨t, here, kind⟩ := Option.map_eq_some_iff.mp ident
      rw [isName, is, here]
      exact beq_iff_eq.mpr kind
    exact (quote.append (read.isOnLine_name name)).append quote
  case h_2 string =>
    cases found
    obtain ⟨t, here, -⟩ := Option.map_eq_some_iff.mp string
    intro mem
    rw [text, here] at mem
    change '\n' ∈ t.text.toList at mem
    obtain ⟨n, less, found⟩ := List.mem_iff_getElem.mp mem
    have stop := read.stop_le_stopBefore (Nat.lt_add_one i) here
    have offset : p.offset i = t.start := by rw [Program.offset, here]; rfl
    refine line ⟨string, t.start + n, by omega, ?_, ?_⟩
    · have less : n < t.text.length := by rwa [String.length_toList] at less
      unfold Token.stop at stop
      omega
    · have piece := (read.piece (Array.mem_of_getElem? here)).piece
      obtain ⟨rest, same⟩ := piece
      rw [← List.getElem?_drop, ← same, List.getElem?_append_left less]
      exact (List.getElem?_eq_getElem less).trans (congrArg some found)
  case h_3 => cases found

theorem isOnLine_nextValue {name : String} (line : IsOnLine name) {previous : Option EnumMember}
    (key : ∀ m, previous = some m → IsOnLine m.key) {code : String} {value : Option Int}
    (next : nextValue name previous = .ok (code, value)) : IsOnLine code := by
  unfold nextValue at next
  split at next
  case h_1 =>
    cases next
    unfold IsOnLine
    decide
  case h_2 =>
    split at next
    · cases next
      exact isOnLine_toString _
    · cases next
  case h_3 key' =>
    cases next
    have brackets : IsOnLine "[" ∧ IsOnLine "] + 1" := by unfold IsOnLine; decide
    have keyLine := key _ rfl
    exact ((line.append brackets.1).append keyLine).append brackets.2

theorem isOnLine_textStatement {name key value : String} (nameLine : IsOnLine name)
    (keyLine : IsOnLine key) (valueLine : IsOnLine value) :
    IsOnLine (textStatement name key value) := by
  have marks : IsOnLine "[" ∧ IsOnLine "] = " ∧ IsOnLine ";" := by unfold IsOnLine; decide
  unfold textStatement
  exact ((((nameLine.append marks.1).append keyLine).append marks.2.1).append valueLine).append marks.2.2

theorem isOnLine_valueStatement {name key value : String} (nameLine : IsOnLine name)
    (keyLine : IsOnLine key) (valueLine : IsOnLine value) :
    IsOnLine (valueStatement name key value) := by
  have marks : IsOnLine "[" ∧ IsOnLine "] = " ∧ IsOnLine ";" := by unfold IsOnLine; decide
  have place := (((nameLine.append marks.1).append nameLine).append marks.1).append keyLine
  unfold valueStatement
  exact ((((place.append marks.2.1).append valueLine).append marks.2.1).append keyLine).append marks.2.2

theorem isOnLine_enumCode {name : String} (nameLine : IsOnLine name) {statements : List String}
    (lines : ∀ code ∈ statements, IsOnLine code) : IsOnLine (enumCode name statements) := by
  have marks : IsOnLine "var " ∧ IsOnLine "; (function (" ∧ IsOnLine ") \x7b " ∧ IsOnLine " \x7d)(" ∧
      IsOnLine " || (" ∧ IsOnLine " = \x7b\x7d));" ∧ IsOnLine " " := by
    unfold IsOnLine
    decide
  obtain ⟨var, opens, begins, ends, or, object, space⟩ := marks
  have front := ((((var.append nameLine).append opens).append nameLine).append begins).append
    (isOnLine_intercalate space lines)
  unfold enumCode
  exact ((((front.append ends).append nameLine).append or).append nameLine).append object

/-- A member whose key and value stand on one line is written on one line. -/
theorem IsRead.isOnLine_enumMember (read : p.IsRead) {name : String} (line : IsOnLine name)
    {close : Nat} {s s' : EnumState} (plain : ∀ m, s.pos ≤ m → m ≤ s.pos + 1 → ¬ p.SplitsAt close m)
    (before : s.IsOnLine) (done : p.enumMember name close s = .ok s') : s'.IsOnLine := by
  unfold enumMember at done
  split at done
  case h_1 => cases done
  case h_2 key found =>
    have keyLine : IsOnLine key := by
      refine read.isOnLine_memberKey found fun spans => ?_
      exact plain s.pos (Nat.le_refl _) (Nat.le_add_right ..) (.inl spans)
    have written {statement : String} {value : Option Int} {pos : Nat} {declared : List String}
        (isLine : IsOnLine statement) :
        (⟨pos, s.statements ++ [statement], declared, some ⟨key, value⟩⟩ : EnumState).IsOnLine := by
      constructor
      · intro code mem
        rcases List.mem_append.mp mem with mem | mem
        · exact before.statements code mem
        · rw [List.mem_singleton.mp mem]
          exact isLine
      · intro m same
        cases same
        exact keyLine
    dsimp only at done
    split at done
    case isTrue equals =>
      split at done
      case isTrue => cases done
      case isFalse =>
        generalize last : p.valueEnd close (s.pos + 1 + 1) = stop at done
        have valueLine : IsOnLine (p.memberCode name s.declared (s.pos + 1 + 1)
            (p.offset (s.pos + 1 + 1)) (s.pos + 1 + 1) (stop - (s.pos + 1 + 1))) := by
          intro mem
          have le := p.le_valueEnd close (s.pos + 1 + 1)
          have after (j : Nat) (t : Token) (ge : s.pos + 1 + 1 ≤ j) (there : p.tokens[j]? = some t) :
              p.offset (s.pos + 1 + 1) ≤ t.stop := read.offset_le_stop ge there
          obtain ⟨k, from', upTo, found⟩ := read.lineFeed_of_memberCode line after mem
          rw [last] at le
          have whole : s.pos + 1 + 1 + (stop - (s.pos + 1 + 1)) = stop := by omega
          rw [whole, ← last] at upTo
          exact plain (s.pos + 1) (by omega) (Nat.le_refl _) (.inr ⟨equals, k, from', upTo, found⟩)
        split at done
        · cases done
          exact written (isOnLine_textStatement line keyLine valueLine)
        · cases done
          exact written (isOnLine_valueStatement line keyLine valueLine)
    case isFalse =>
      obtain ⟨⟨code, value⟩, next, done⟩ := bind_eq_ok.mp done
      cases done
      exact written (isOnLine_valueStatement line keyLine (isOnLine_nextValue line before.key next))

/-- The members of an enum are written on one line where their keys and values stand on one line. -/
theorem IsRead.isOnLine_enumMembers (read : p.IsRead) {name : String} (line : IsOnLine name)
    {close : Nat} {s s' : EnumState} (plain : ∀ m, s.pos ≤ m → m ≤ close → ¬ p.SplitsAt close m)
    (before : s.IsOnLine) (done : p.enumMembers name close s = .ok s') : s'.IsOnLine := by
  fun_induction enumMembers p name close s with
  | case1 s less e failed => cases done
  | case2 s less next found ih =>
    have written : next.IsOnLine :=
      read.isOnLine_enumMember line (fun m ge le => plain m ge (by omega)) before found
    refine ih (fun m ge le => plain m ?_ le) ⟨written.statements, written.key⟩ done
    change max next.pos (s.pos + 1) ≤ m at ge
    omega
  | case3 s less =>
    cases done
    exact before

/-- The code of an enum whose keys and values stand on one line has no line feed. -/
theorem IsRead.codeLines_enumeration (read : p.IsRead) {i : Nat} {s s' : State}
    (isEnum : p.text (p.enumKeyword i) = "enum") (plain : ¬ p.SplitsEnum)
    (before : ∀ e ∈ s.edits, e.codeLines = 0) (done : p.enumeration i s = .ok s') :
    ∀ e ∈ s'.edits, e.codeLines = 0 := by
  unfold enumeration at done
  rw [← enumKeyword] at done
  dsimp only at done
  split at done
  case isTrue named =>
    rw [Bool.and_eq_true] at named
    obtain ⟨written, members, done⟩ := bind_eq_ok.mp done
    cases done
    have name := read.isOnLine_name named.1
    have lines : written.IsOnLine := by
      refine read.isOnLine_enumMembers name (fun m ge le splits => plain ?_) ⟨?_, ?_⟩ members
      · exact ⟨p.enumKeyword i, m, isEnum, ge, le, splits⟩
      · exact fun _ mem => absurd mem List.not_mem_nil
      · exact fun _ same => by cases same
    intro e mem
    rcases List.mem_cons.mp mem with rfl | mem
    · exact codeLines_eq_zero (isOnLine_enumCode name lines.statements) _ _
    · exact before e (List.mem_of_mem_filter mem)
  case isFalse => cases done

theorem isOnLine_assignments {properties : List String} (lines : ∀ name ∈ properties, IsOnLine name) :
    IsOnLine (assignments properties) := by
  have marks : IsOnLine " " ∧ IsOnLine "this." ∧ IsOnLine " = " ∧ IsOnLine ";" := by
    unfold IsOnLine
    decide
  obtain ⟨space, this, equals, semicolon⟩ := marks
  rw [assignments]
  refine space.append (isOnLine_intercalate space fun code mem => ?_)
  obtain ⟨name, listed, rfl⟩ := List.mem_map.mp mem
  have line := lines name listed
  exact (((this.append line).append equals).append line).append semicolon

/-- Only an enum, here or in a substitution, brings code with line feeds into the edits of a walk. -/
theorem Grows.codeLines {hole : Hole → Except Failure Edits} {edits edits' : Edits}
    (read : p.IsRead) (plain : ¬ p.SplitsEnum)
    (substitutions : ∀ t ∈ p.tokens, ∀ h ∈ t.holes, ∀ inner, hole h = .ok inner →
      ∀ e ∈ inner, e.codeLines = 0)
    (grows : p.Grows hole edits edits') (before : ∀ e ∈ edits, e.codeLines = 0) :
    ∀ e ∈ edits', e.codeLines = 0 := by
  induction grows with
  | blank less opens ends =>
    intro e mem
    rcases List.mem_cons.mp mem with rfl | mem
    · rfl
    · exact before e (List.mem_of_mem_filter mem)
  | replace isEnum done => exact read.codeLines_enumeration isEnum plain before done
  | @assign edits i properties brace some modified =>
    rw [List.forall_mem_cons]
    refine ⟨codeLines_eq_zero (isOnLine_assignments fun name mem => ?_) _ _, before⟩
    obtain ⟨j, binds, rfl⟩ := (modified name mem).2
    exact read.isOnLine_binding binds
  | @adopt edits inner t h token inside done =>
    intro e mem
    rcases List.mem_append.mp mem with mem | mem
    · obtain ⟨e', mem', rfl⟩ := List.mem_map.mp mem
      exact substitutions t token h inside inner done e' mem'
    · exact before e mem
  | refl => exact before
  | trans _ _ ih ih' => exact ih' (ih before)

end Program

/-- Whether a text, or a substitution in one of its template literals, has an enum with a key or a
value on more than one line. -/
inductive SplitsEnum : List Char → Prop
  /-- The text itself has one. -/
  | here {source : List Char} {p : Program} (opened : Program.ofSource source = .ok p)
      (splits : p.SplitsEnum) : SplitsEnum source
  /-- A substitution has one. -/
  | inside {source : List Char} {p : Program} {t : Token} {h : Hole}
      (opened : Program.ofSource source = .ok p) (token : t ∈ p.tokens) (hole : h ∈ t.holes)
      (splits : SplitsEnum h.text) : SplitsEnum source

/-- Without such an enum no edit brings line feeds with it. -/
theorem editsOf_codeLines {source : List Char} {edits : Edits} (plain : ¬ SplitsEnum source)
    (done : editsOf source = .ok edits) : ∀ e ∈ edits, e.codeLines = 0 := by
  rw [editsOf] at done
  split at done
  · cases done
  case h_2 p opened =>
    have read := Program.isRead_of_ofSource opened
    dsimp only at done
    generalize walked : p.walk _ _ _ _ = result at done
    cases result with
    | error e => cases done
    | ok s =>
      cases done
      refine (Program.walk_grows walked).codeLines read (fun splits => plain (.here opened splits)) ?_
        (fun _ mem => by cases mem)
      intro t token h hole inner given
      split at given
      case isTrue shorter =>
        exact editsOf_codeLines (fun splits => plain (.inside opened token hole splits)) given
      case isFalse =>
        cases given
        exact fun _ mem => by cases mem
termination_by source.length

end Erase

open Erase

/-- Erasing types adds the line feeds in the code of the edits that are carried out, and nothing
else; where no enum has a key or a value on more than one line, the number of lines stays. -/
theorem count_lineFeed_erase {source out : List Char} (done : erase source = .ok out) :
    ∃ edits, editsOf source = .ok edits ∧
      out.count '\n' =
        source.count '\n' + ((Edits.carriedOut 0 edits.inOrder).map (·.codeLines)).sum ∧
      (¬ SplitsEnum source → out.count '\n' = source.count '\n') := by
  obtain ⟨edits, found, done⟩ := bind_eq_ok.mp done
  cases done
  have count : (edits.applyTo source).count '\n' = _ := Edits.count_applyFrom 0 source edits.inOrder
  refine ⟨edits, found, count, fun plain => ?_⟩
  have none : ((Edits.carriedOut 0 edits.inOrder).map (·.codeLines)).sum = 0 := by
    rw [List.sum_eq_zero]
    intro n mem
    obtain ⟨e, carried, rfl⟩ := List.mem_map.mp mem
    exact editsOf_codeLines plain found e
      (Edits.mem_inOrder.mp (Edits.mem_of_mem_carriedOut carried))
  rw [count, none, Nat.add_zero]

/-- An enum over two lines and a property leave the next statement on its line. -/
theorem count_lineFeed_erase_enum :
    let source := "enum A \x7b B = 2,\nC \x7d\nclass D \x7b constructor(private x) \x7b\x7d \x7d".toList
    let out := ("var A; (function (A) \x7b A[A[\"B\"] = 2] = \"B\"; A[A[\"C\"] = 3] = \"C\"; \x7d)(A || (A = \x7b\x7d));\n\n" ++
      "class D \x7b constructor(        x) \x7b this.x = x;\x7d \x7d").toList
    erase source = .ok out ∧ ∃ edits, editsOf source = .ok edits ∧
      out.count '\n' =
        source.count '\n' + ((Edits.carriedOut 0 edits.inOrder).map (·.codeLines)).sum := by
  intro source out
  have done : erase source = .ok out := by
    unfold source out
    cbv
  obtain ⟨edits, found, count, -⟩ := count_lineFeed_erase done
  exact ⟨done, edits, found, count⟩

/-- A value on two lines brings its line feed once more, so that the next statement moves. -/
theorem lineFeed_of_value_repeated :
    let source := "enum A \x7b B = 1 +\n2 \x7d\nfoo();".toList
    ∃ out, erase source = .ok out ∧ out.count '\n' ≠ source.count '\n' := by
  refine ⟨"var A; (function (A) \x7b A[A[\"B\"] = 1 +\n2] = \"B\"; \x7d)(A || (A = \x7b\x7d));\n\nfoo();".toList,
    ?_, by decide⟩
  cbv

end ModuleLinker
