import ModuleLinker.Proofs.Erase.Classes
import ModuleLinker.Proofs.Erase.EnumText

/-!
# What becomes of enums

Erasing a text that is an enum leaves a variable and a function that fills it in (`erase_enum`). The
members are gone through one after the other: what has been noted of the members so far (`noted`) is what
the next one needs to know of them, and each adds its own statement (`enumMember_eq`).
-/

set_option autoImplicit false

namespace ModuleLinker

open Erase ModuleLinker.Symbol

/-! ## Values -/

/-- Digits have a value if they stand for an integer of 64 bits. -/
theorem digitsValue?_of_isInteger {digits : String} (isInteger : IsInteger digits) :
    digitsValue? digits = some (decimal digits : Int) := by
  obtain ⟨digit, fits⟩ := isInteger
  rw [isDecimal, Bool.and_eq_true, Bool.not_eq_true'] at digit
  unfold digitsValue?
  dsimp only
  rw [digit.1, digit.2, if_neg (by simp)]
  exact if_pos fits

/-- A name has no value. -/
theorem digitsValue?_of_isName {x : String} (name : isName x.toList = true) : digitsValue? x = none := by
  unfold digitsValue?
  refine if_pos ?_
  cases chars : x.toList with
  | nil => rfl
  | cons c cs =>
    rw [chars, isName, Bool.and_eq_true, Bool.or_eq_true, beq_iff_eq] at name
    have noDigit : c.isDigit = false := by
      rw [Bool.eq_false_iff]
      intro digit
      rcases name.1 with starts | rfl
      · exact Bool.false_ne_true ((Text.isNameStart_of_isDigit digit).symm.trans starts)
      · cases digit
    rw [List.all_cons, noDigit]
    rfl

/-- An integer that is written is none greater than the greatest one. -/
theorem Initializer.IsProper.le_maxInteger {i : Initializer} (proper : i.IsProper) :
    ∀ n ∈ i.integer?, n ≤ maxInteger := by
  cases i with
  | integer digits =>
    rintro n ⟨⟩
    exact proper.2
  | negative gap digits =>
    rintro n ⟨⟩
    have positive : (0 : Int) ≤ decimal digits := Int.natCast_nonneg _
    have zero : (0 : Int) ≤ maxInteger := by decide
    omega
  | text | reference => rintro n ⟨⟩

/-- What is known of a member is no greater than the greatest integer. -/
theorem WrittenMember.Continues.known_le {m : WrittenMember} (proper : m.IsProper)
    {before : List WrittenMember} (continues : m.Continues before)
    (bounded : ∀ n ∈ known before, n ≤ maxInteger) : ∀ n ∈ known (m :: before), n ≤ maxInteger := by
  rw [known]
  cases value : m.value with
  | some v => exact (proper.value v value).2.2.le_maxInteger
  | none =>
    dsimp only
    split
    · rintro n ⟨⟩
      decide
    · intro n found
      obtain ⟨n', found', rfl⟩ := Option.map_eq_some_iff.mp found
      have less : n' ≠ maxInteger := fun same => continues.counts value (same ▸ found')
      have le := bounded n' found'
      omega

/-- What has been noted of an enum behind some members. -/
def noted (i : Nat) (statements : List String) (before : List WrittenMember) : EnumState :=
  ⟨i, statements, (before.map WrittenMember.key).reverse,
    before.head?.map fun m => ⟨m.quotedKey, known before⟩⟩

/-- A member without a value counts on from the one before it. -/
theorem nextValue_eq {m : WrittenMember} (none : m.value = none) {before : List WrittenMember}
    (continues : m.Continues before) (bounded : ∀ n ∈ known before, n ≤ maxInteger) (name : String) :
    nextValue name (before.head?.map fun m => ⟨m.quotedKey, known before⟩) =
      .ok (m.code name before, known (m :: before)) := by
  have counts := continues.counts none
  cases before with
  | nil => simp [nextValue, WrittenMember.code, known, none]
  | cons previous before =>
    have code : m.code name (previous :: before) =
        (known (previous :: before)).elim (name ++ "[" ++ previous.quotedKey ++ "] + 1") fun n =>
          toString (n + 1) := by rw [WrittenMember.code, none]
    have next : known (m :: previous :: before) = (known (previous :: before)).map (· + 1) := by
      rw [known, none]
      rfl
    rw [code, next, List.head?_cons, Option.map_some]
    cases value : known (previous :: before) with
    | none => rfl
    | some n =>
      have less : n ≠ maxInteger := fun same => counts (same ▸ value)
      have le := bounded n value
      exact if_pos (by omega)

namespace Erase.Program

variable {p : Program}

/-! ## The text at a position -/

/-- Whether a program is read from a text in which symbols with blanks in front of them stand from a
position on. -/
def Spelled (p : Program) (i : Nat) (pieces : List Spaced) : Prop :=
  ∃ front back last, p.tokens.toList = tokensOf 0 (front ++ (pieces ++ back)) ∧
    p.source = spell (front ++ (pieces ++ back)) last ∧ front.length = i

namespace Spelled

variable {i : Nat}

theorem left {pieces more : List Spaced} (spelled : p.Spelled i (pieces ++ more)) : p.Spelled i pieces := by
  obtain ⟨front, back, last, tokens, source, place⟩ := spelled
  rw [List.append_assoc] at tokens source
  exact ⟨front, more ++ back, last, tokens, source, place⟩

theorem right {pieces more : List Spaced} (spelled : p.Spelled i (pieces ++ more)) {j : Nat}
    (place' : i + pieces.length = j) : p.Spelled j more := by
  obtain ⟨front, back, last, tokens, source, place⟩ := spelled
  rw [List.append_assoc, ← List.append_assoc front] at tokens source
  exact ⟨front ++ pieces, back, last, tokens, source, by rw [List.length_append, place, place']⟩

theorem tail {piece : Spaced} {pieces : List Spaced} (spelled : p.Spelled i (piece :: pieces)) :
    p.Spelled (i + 1) pieces :=
  @right p i [piece] pieces spelled (i + 1) rfl

theorem hasAll {pieces : List Spaced} (spelled : p.Spelled i pieces) :
    p.HasAll i (pieces.map Spaced.symbol) := by
  obtain ⟨front, back, last, tokens, -, place⟩ := spelled
  rw [tokensOf_append, tokensOf_append] at tokens
  have has := hasAll_of_tokens tokens
  rwa [length_tokensOf, map_symbol_tokensOf, place] at has

theorem has {piece : Spaced} {pieces : List Spaced} (spelled : p.Spelled i (piece :: pieces)) :
    p.Has i piece.symbol := spelled.hasAll.1

/-- The text from the start of a symbol to the end of another one. -/
theorem slice_eq {piece : Spaced} {pieces : List Spaced} (spelled : p.Spelled i (piece :: pieces)) :
    p.slice (p.offset i) (p.stop (i + pieces.length)) =
      String.ofList (piece.symbol.text.toList ++ spell pieces []) := by
  obtain ⟨front, back, last, tokens, source, place⟩ := spelled
  set pos := 0 + (spell front []).length with pos_eq
  have whole : p.tokens.toList = tokensOf 0 front ++ (tokensOf pos (piece :: pieces) ++
      tokensOf (pos + (spell (piece :: pieces) []).length) back) := by
    rw [tokens, tokensOf_append, tokensOf_append]
  have stop := stop_of_tokens (List.cons_ne_nil piece pieces) whole
  have offset : p.offset i = pos + piece.gap.length := by
    have found : p.tokens[i]? = (tokensOf pos (piece :: pieces))[0]? := by
      rw [← Array.getElem?_toList, whole, ← place]
      simp [tokensOf, length_tokensOf]
    rw [Program.offset, found]
    rfl
  rw [length_tokensOf, place, List.length_cons, ← Nat.add_assoc, Nat.add_sub_cancel] at stop
  have text : p.source = (spell front [] ++ piece.gap) ++ ((piece.symbol.text.toList ++ spell pieces []) ++
      spell back last) := by
    rw [source, spell_append, spell_eq_append front, List.cons_append, spell, spell_append,
      spell_eq_append pieces]
    simp only [List.append_assoc]
  have first : (spell front [] ++ piece.gap).length = pos + piece.gap.length := by
    rw [List.length_append, pos_eq, Nat.zero_add]
  have size : pos + (spell (piece :: pieces) []).length - (pos + piece.gap.length) =
      (piece.symbol.text.toList ++ spell pieces []).length := by
    rw [spell, List.length_append]
    omega
  rw [Program.slice, stop, offset, size, text, ← first, List.drop_left, List.take_left]

end Spelled

theorem Has.stop_eq {i : Nat} {s : Symbol} (has : p.Has i s) (other : Nat) :
    ((p.tokens[i]?).map (·.stop)).getD other = p.stop i := by
  obtain ⟨t, found, -⟩ := has
  rw [stop, found]
  rfl

theorem slice_self (n : Nat) : p.slice n n = "" := by
  rw [slice, Nat.sub_self, List.take_zero, String.ofList_nil]

/-! ## Values -/

/-- The search for the end of a value stops at the comma behind it, or at the limit. -/
theorem valueEnd_of_plain {ss : List Symbol} (plain : ∀ s ∈ ss, s ≠ mark "," ∧ s.token.isOpener = false)
    {i j close : Nat} (has : p.HasAll i ss) (place : i + ss.length = j) (le : j ≤ close)
    (ends : j = close ∨ p.isPunct j "," = true) : p.valueEnd close i = j := by
  induction ss generalizing i with
  | nil =>
    obtain rfl : i = j := place
    rw [valueEnd]
    split
    case isTrue less =>
      rcases ends with rfl | comma
      · exact absurd less (Nat.lt_irrefl i)
      · rw [if_pos comma]
    case isFalse => rfl
  | cons s ss ih =>
    rw [List.forall_mem_cons] at plain
    rw [List.length_cons] at place
    have noComma := has.1.isPunct_of_ne plain.1.1
    have noOpener : p.is i (·.isOpener) = false := (has.1.is_eq fun _ => rfl).trans plain.1.2
    rw [valueEnd, if_pos (by omega), if_neg (by rw [noComma]; exact Bool.false_ne_true),
      if_neg (by rw [noOpener]; exact Bool.false_ne_true)]
    exact ih plain.2 has.2 (by omega)

/-- There are no commas and no brackets in a value. -/
theorem plain_initializer {i : Initializer} (gap : List Char) :
    ∀ s ∈ (i.pieces gap).map Spaced.symbol, s ≠ mark "," ∧ s.token.isOpener = false := by
  have own (kind : TokenKind) (text : String) (other : kind ≠ .punct) :
      (⟨kind, text⟩ : Symbol) ≠ mark "," ∧ (⟨kind, text⟩ : Symbol).token.isOpener = false := by
    refine ⟨fun same => other (congrArg Symbol.kind same), ?_⟩
    simp [Token.isOpener, token, other]
  cases i with
  | integer digits | text literal | reference name =>
    exact List.forall_mem_singleton.mpr (own _ _ (by decide))
  | negative gap' digits =>
    have minus : mark "-" ≠ mark "," ∧ (mark "-").token.isOpener = false := by decide
    exact List.forall_mem_cons.mpr ⟨minus, List.forall_mem_singleton.mpr (own _ _ (by decide))⟩

/-- A value that is not the name of a member is copied as it is written. -/
theorem memberCode_eq {i : Initializer} {gap : List Char} {k : Nat} (spelled : p.Spelled k (i.pieces gap))
    {declared : List String} (earlier : ∀ x ∈ i.reference?, x ∈ declared) (name : String) :
    p.memberCode name declared k (p.offset k) k (i.pieces gap).length = i.code name := by
  cases i with
  | reference x =>
    have has : p.Has k (word x) := spelled.has
    have isMember : (p.isName k && declared.contains (p.text k) && !(decide (k < k) && p.afterDot k)) =
        true := by simp [has.isName_eq, has.text_eq, earlier x rfl]
    change p.memberCode name declared k (p.offset k) k 1 = _
    rw [memberCode, if_pos isMember, memberCode, Nat.add_sub_cancel, has.stop_eq, has.stop_eq, slice_self,
      slice_self, has.text_eq]
    simp [Initializer.code]
  | integer digits =>
    have has : p.Has k ⟨.number, digits⟩ := spelled.has
    have noName : p.isName k = false := has.isName_eq
    change p.memberCode name declared k (p.offset k) k 1 = _
    rw [memberCode, if_neg (by simp [noName]), memberCode, Nat.add_sub_cancel, has.stop_eq]
    refine spelled.slice_eq.trans ?_
    simp [spell, Initializer.code]
  | text literal =>
    have has : p.Has k ⟨.string, literal⟩ := spelled.has
    have noName : p.isName k = false := has.isName_eq
    change p.memberCode name declared k (p.offset k) k 1 = _
    rw [memberCode, if_neg (by simp [noName]), memberCode, Nat.add_sub_cancel, has.stop_eq]
    refine spelled.slice_eq.trans ?_
    simp [spell, Initializer.code]
  | negative gap' digits =>
    obtain ⟨has, has', -⟩ : p.HasAll k [mark "-", ⟨.number, digits⟩] := spelled.hasAll
    have noName : p.isName k = false := has.isName_eq
    have noName' : p.isName (k + 1) = false := has'.isName_eq
    change p.memberCode name declared k (p.offset k) k 2 = _
    rw [memberCode, if_neg (by simp [noName]), memberCode, if_neg (by simp [noName']), memberCode,
      Nat.add_sub_cancel, has'.stop_eq]
    refine spelled.slice_eq.trans ?_
    rw [String.ofList_append]
    simp [spell, Initializer.code, mark, String.append_assoc]

/-- The integer that a value is, is found. -/
theorem integer?_eq {i : Initializer} (proper : i.IsProper) (noText : ∀ literal, i ≠ .text literal)
    {gap : List Char} {k : Nat} (has : p.HasAll k ((i.pieces gap).map Spaced.symbol)) :
    p.integer? k (k + (i.pieces gap).length) = i.integer? := by
  cases i with
  | text literal => exact absurd rfl (noText literal)
  | integer digits =>
    change p.integer? k (k + 1) = _
    rw [integer?, if_pos rfl, has.1.text_eq]
    exact digitsValue?_of_isInteger proper
  | reference x =>
    change p.integer? k (k + 1) = _
    rw [integer?, if_pos rfl, has.1.text_eq]
    exact digitsValue?_of_isName proper
  | negative gap' digits =>
    have isMinus : p.isPunct k "-" = true := has.1.isPunct_eq "-"
    have value : digitsValue? (p.text (k + 1)) = some (decimal digits : Int) := by
      rw [has.2.1.text_eq]
      exact digitsValue?_of_isInteger proper.2
    change p.integer? k (k + 2) = _
    rw [integer?, if_neg (by omega), if_pos ⟨rfl, isMinus⟩, value]
    rfl

/-! ## Members -/

theorem valueStatement_eq (name key value : String) :
    valueStatement name key value = assignment name (assignment name key value) key ++ ";" := by
  simp [valueStatement, assignment, String.append_assoc]

theorem memberKey?_of_word {i : Nat} {x : String} (has : p.Has i (word x)) :
    p.memberKey? i = some ("\"" ++ x ++ "\"") := by
  rw [memberKey?, has.kind?_eq, has.text_eq]
  rfl

section Members

variable {m : WrittenMember} {before : List WrittenMember} (continues : m.Continues before)
  {i j close : Nat} (spelled : p.Spelled i m.pieces) (place : i + m.pieces.length = j) (name : String)
  (statements : List String)
include continues spelled place

/-- A member without a value adds the statement for what it counts. -/
theorem enumMember_of_none (none : m.value = none) (bounded : ∀ n ∈ known before, n ≤ maxInteger)
    (noEquals : p.isPunct j "=" = false) : p.enumMember name close (noted i statements before) =
      .ok (noted (if p.isPunct j "," then j + 1 else j) (statements ++ [m.statement name before])
        (m :: before)) := by
  have isKey : p.Has i (word m.key) := spelled.has
  have isName : p.isName i = true := isKey.isName_eq
  have text : p.text i = m.key := isKey.text_eq
  have length : m.pieces.length = 1 := by
    rw [WrittenMember.pieces, none]
    rfl
  obtain rfl : i + 1 = j := length ▸ place
  rw [noted, enumMember]
  dsimp only
  rw [memberKey?_of_word isKey, isName, text, if_pos rfl]
  dsimp only
  rw [if_neg (by rw [noEquals]; exact Bool.false_ne_true), nextValue_eq none continues bounded]
  simp [bind, Except.bind, noted, WrittenMember.statement, WrittenMember.isText, none, valueStatement_eq,
    WrittenMember.quotedKey]

/-- A member with a value adds the statement for it. -/
theorem enumMember_of_some (proper : m.IsProper) {v : WrittenValue} (some : m.value = some v) (le : j ≤ close)
    (ends : j = close ∨ p.isPunct j "," = true) : p.enumMember name close (noted i statements before) =
      .ok (noted (if p.isPunct j "," then j + 1 else j) (statements ++ [m.statement name before])
        (m :: before)) := by
  obtain ⟨gap, key, value, commaGap⟩ := m
  obtain rfl : value = Option.some v := some
  obtain ⟨-, -, own⟩ := proper.value v rfl
  have isKey : p.Has i (word key) := spelled.has
  have isName : p.isName i = true := isKey.isName_eq
  have text : p.text i = key := isKey.text_eq
  have equals : p.isPunct (i + 1) "=" = true := spelled.hasAll.2.1.isPunct_eq "="
  have inner : p.Spelled (i + 1 + 1) (v.initializer.pieces v.gap) :=
    spelled.tail.tail
  have place' : i + 1 + 1 + (v.initializer.pieces v.gap).length = j := by
    rw [← place]
    simp [WrittenMember.pieces, WrittenValue.pieces]
    omega
  have positive : 0 < (v.initializer.pieces v.gap).length := by
    cases v.initializer <;> exact Nat.succ_pos _
  have last : p.valueEnd close (i + 1 + 1) = j :=
    valueEnd_of_plain (plain_initializer v.gap) inner.hasAll (by rw [List.length_map, place']) le ends
  have earlier (x : String) (names : x ∈ v.initializer.reference?) :
      x ∈ (before.map WrittenMember.key).reverse := by
    obtain ⟨m', mem, key⟩ := continues.earlier v rfl x names
    exact List.mem_reverse.mpr (List.mem_map.mpr ⟨m', mem, key⟩)
  have code := memberCode_eq inner earlier name
  have count : j - (i + 1 + 1) = (v.initializer.pieces v.gap).length := by omega
  rw [noted, enumMember]
  dsimp only
  rw [memberKey?_of_word isKey, isName, text, if_pos rfl]
  dsimp only
  rw [if_pos equals, last, if_neg (by omega), count, code]
  obtain ⟨equalsGap, gap', initializer⟩ := v
  cases initializer with
  | text literal =>
    have kind : p.kind? (i + 1 + 1) = Option.some TokenKind.string := inner.has.kind?_eq
    rw [if_pos ⟨place'.symm, kind⟩]
    simp [noted, textStatement, WrittenMember.statement, WrittenMember.isText, WrittenMember.code, known,
      Initializer.integer?, WrittenMember.quotedKey, assignment]
  | integer | negative | reference =>
    have value := integer?_eq own (fun _ same => by cases same) inner.hasAll
    have noText : ¬(j = i + 1 + 1 + 1 ∧ p.kind? (i + 1 + 1) = Option.some TokenKind.string) := by
      rw [inner.has.kind?_eq]
      exact fun both => by cases both.2
    rw [place'] at value
    rw [if_neg noText, value, valueStatement_eq]
    simp [noted, WrittenMember.statement, WrittenMember.isText, WrittenMember.code, known,
      WrittenMember.quotedKey]

/-- A member adds its statement, and what is noted of it is what the next one counts on from. -/
theorem enumMember_eq (proper : m.IsProper) (bounded : ∀ n ∈ known before, n ≤ maxInteger) (le : j ≤ close)
    (ends : j = close ∨ p.isPunct j "," = true) (noEquals : p.isPunct j "=" = false) :
    p.enumMember name close (noted i statements before) =
      .ok (noted (if p.isPunct j "," then j + 1 else j) (statements ++ [m.statement name before])
        (m :: before)) := by
  cases value : m.value with
  | none =>
    exact enumMember_of_none continues spelled place name statements value bounded noEquals
  | some v => exact enumMember_of_some continues spelled place name statements proper value le ends

end Members

/-- The members are gone through from where the first one ends. -/
theorem enumMembers_next {name : String} {close i next : Nat} {statements statements' : List String}
    {before before' : List WrittenMember} (inside : i < close) (less : i < next)
    (step : p.enumMember name close (noted i statements before) = .ok (noted next statements' before')) :
    p.enumMembers name close (noted i statements before) =
      p.enumMembers name close (noted next statements' before') := by
  have past : max next (i + 1) = next := Nat.max_eq_left less
  rw [enumMembers, step]
  refine (if_pos inside).trans ?_
  dsimp only [noted]
  rw [past]

theorem length_memberPieces_pos (trailing : Bool) (closerGap : List Char) (members : List WrittenMember) :
    0 < (memberPieces trailing closerGap members).length := by
  cases members <;> exact Nat.succ_pos _

/-- The next member starts behind the comma; only the last one has to have none. -/
theorem comma_behind {m : WrittenMember} {members : List WrittenMember} {trailing : Bool}
    {closerGap : List Char} {j close : Nat} (spelled : p.Spelled j
      (m.comma (trailing || !members.isEmpty) ++ memberPieces trailing closerGap members))
    (place : j + ((m.comma (trailing || !members.isEmpty)).length +
      (memberPieces trailing closerGap members).length) = close + 1) :
    (j = close ∨ p.isPunct j "," = true) ∧ p.isPunct j "=" = false ∧
      p.Spelled (if p.isPunct j "," then j + 1 else j) (memberPieces trailing closerGap members) ∧
      (if p.isPunct j "," then j + 1 else j) + (memberPieces trailing closerGap members).length =
        close + 1 := by
  cases has : trailing || !members.isEmpty with
  | true =>
    rw [has] at spelled place
    have comma : p.isPunct j "," = true := spelled.has.isPunct_eq ","
    rw [comma, if_pos rfl, Nat.add_assoc]
    exact ⟨.inr rfl, spelled.has.isPunct_eq "=", spelled.tail, place⟩
  | false =>
    rw [has] at spelled place
    rw [Bool.or_eq_false_iff, Bool.not_eq_false', List.isEmpty_iff] at has
    obtain ⟨rfl, rfl⟩ := has
    have noComma : p.isPunct j "," = false := spelled.has.isPunct_eq ","
    rw [noComma, if_neg Bool.false_ne_true]
    exact ⟨.inl (Nat.succ.inj place), spelled.has.isPunct_eq "=", spelled, place⟩

/-- The members add their statements one after the other. -/
theorem enumMembers_eq {trailing : Bool} {closerGap : List Char} {members : List WrittenMember}
    (proper : ∀ m ∈ members, m.IsProper) {before : List WrittenMember}
    (continues : AllContinue before members) (bounded : ∀ n ∈ known before, n ≤ maxInteger) {i close : Nat}
    (spelled : p.Spelled i (memberPieces trailing closerGap members))
    (place : i + (memberPieces trailing closerGap members).length = close + 1) (name : String)
    (statements : List String) : p.enumMembers name close (noted i statements before) =
      .ok (noted close (statements ++ memberStatements name before members) (members.reverse ++ before)) := by
  induction members generalizing i before statements with
  | nil =>
    obtain rfl : i = close := Nat.succ.inj place
    rw [enumMembers, memberStatements, List.append_nil]
    exact if_neg (Nat.lt_irrefl i)
  | cons m members ih =>
    rw [List.forall_mem_cons] at proper
    obtain ⟨own, continues⟩ := continues
    have positive : 0 < m.pieces.length := Nat.succ_pos _
    have rest_pos := length_memberPieces_pos trailing closerGap members
    rw [memberPieces] at spelled place
    rw [List.length_append, ← Nat.add_assoc, List.length_append] at place
    obtain ⟨ends, noEquals, further, place'⟩ := comma_behind (spelled.right rfl) place
    have step := enumMember_eq own spelled.left rfl name statements proper.1 bounded (by omega) ends noEquals
    rw [enumMembers_next (by omega) (by split <;> omega) step,
      ih proper.2 continues (own.known_le proper.1 bounded) further place', List.append_assoc,
      memberStatements, List.reverse_cons, List.append_assoc]
    rfl

/-! ## Enums -/

/-- Behind the members stands the brace that closes the enum, and there are no brackets in between. -/
theorem exists_memberPieces (trailing : Bool) (closerGap : List Char) (members : List WrittenMember) :
    ∃ inner, (memberPieces trailing closerGap members).map Spaced.symbol = inner ++ [mark closeBrace] ∧
      ∀ s ∈ inner, s.isPlain = true := by
  induction members with
  | nil => exact ⟨[], rfl, by simp⟩
  | cons m members ih =>
    obtain ⟨inner, same, plain⟩ := ih
    refine ⟨m.pieces.map Spaced.symbol ++ ((m.comma (trailing || !members.isEmpty)).map Spaced.symbol ++ inner),
      ?_, ?_⟩
    · rw [memberPieces, List.map_append, List.map_append, same, List.append_assoc, List.append_assoc]
    · rw [List.forall_mem_append, List.forall_mem_append]
      refine ⟨?_, ?_, plain⟩
      · obtain ⟨gap, key, value, commaGap⟩ := m
        cases value with
        | none => simp [WrittenMember.pieces, Symbol.isPlain, word]
        | some v =>
          obtain ⟨equalsGap, gap', initializer⟩ := v
          cases initializer <;>
            simp [WrittenMember.pieces, WrittenValue.pieces, Initializer.pieces, Symbol.isPlain, word, mark,
              openBrace, closeBrace]
      · intro s mem
        unfold WrittenMember.comma at mem
        split at mem
        · obtain rfl : s = mark "," := by simpa using mem
          decide
        · cases mem

/-- The brace behind the members is the partner of the one in front of them. -/
theorem close_memberPieces (matched : matchBrackets p.tokens = .ok p.partners) {n close : Nat}
    {gap closerGap : List Char} {trailing : Bool} {members : List WrittenMember}
    (opened : p.Spelled n (⟨gap, mark openBrace⟩ :: memberPieces trailing closerGap members))
    (place : n + 1 + (memberPieces trailing closerGap members).length = close + 1) :
    p.close n = close ∧ p.Has close (mark closeBrace) := by
  obtain ⟨inner, same, plain⟩ := exists_memberPieces trailing closerGap members
  have length := congrArg List.length same
  rw [List.length_map, List.length_append, List.length_singleton] at length
  have body := opened.hasAll
  rw [List.map_cons, same] at body
  have found : n + 1 + inner.length = close := by omega
  refine ⟨?_, ?_⟩
  · rw [← found]
    exact @HasAll.close_eq p n openBrace inner matched (by decide) (nested_of_isPlain plain) body
  · have last := (hasAll_append.mp body.2).2.1
    rwa [found] at last

/-- The name of an enum stands behind its keyword, with the word in front of it or without. -/
theorem keyword_eq {e : WrittenEnum} {gap : List Char} (spelled : p.Spelled 0 (e.pieces gap)) :
    (if p.isWord 0 "const" then 0 + 1 else 0) + 1 = (e.keyword gap).length := by
  rw [WrittenEnum.pieces, WrittenEnum.keyword] at spelled
  rw [WrittenEnum.keyword]
  cases const : e.constGap <;>
    · rw [const] at spelled
      rw [spelled.has.isWord_eq]
      rfl

/-- An enum is replaced by its code, from its first word to its closing brace. -/
theorem enumeration_eq (matched : matchBrackets p.tokens = .ok p.partners) {e : WrittenEnum}
    (proper : e.IsProper) {gap : List Char} (spelled : p.Spelled 0 (e.pieces gap)) {close : Nat}
    (place : (e.pieces gap).length = close + 1) :
    p.enumeration 0 ⟨0, []⟩ = .ok ⟨close + 1, [⟨p.offset 0, p.stop close, some e.code⟩]⟩ := by
  have keyword := keyword_eq spelled
  have named := @Spelled.right p 0 (e.keyword gap) _ spelled _ (Nat.zero_add _)
  have place' : (e.keyword gap).length + 1 + 1 + (memberPieces e.trailing e.closerGap e.members).length =
      close + 1 := by
    rw [← place, WrittenEnum.pieces, List.length_append]
    simp only [List.length_cons]
    omega
  unfold enumeration
  dsimp only
  generalize (if p.isWord 0 "const" then 0 + 1 else 0) = k at keyword ⊢
  rw [← keyword] at named place'
  have opened := named.tail
  obtain ⟨closes, closer⟩ := close_memberPieces matched opened place'
  have isName : p.isName (k + 1) = true := named.has.isName_eq
  have text : p.text (k + 1) = e.name := named.has.text_eq
  have isBrace : p.isPunct (k + 2) openBrace = true := opened.has.isPunct_eq openBrace
  have written : p.enumMembers e.name close ⟨k + 2 + 1, [], [], none⟩ =
      .ok (noted close ([] ++ memberStatements e.name [] e.members) (e.members.reverse ++ [])) :=
    enumMembers_eq proper.members proper.continues (by rintro n ⟨⟩) opened.tail place' e.name []
  rw [isName, isBrace, Bool.true_and, if_pos rfl, text, closes, written, closer.stop_eq]
  rfl

/-- The step at an enum replaces it. -/
theorem step_enum {e : WrittenEnum} {gap : List Char} (spelled : p.Spelled 0 (e.pieces gap)) (w : Walker)
    (limit : Nat) (edits : Edits) : p.step w limit ⟨0, edits⟩ = p.enumeration 0 ⟨0, edits⟩ := by
  have begins : p.Begins 0 := .inl rfl
  rw [WrittenEnum.pieces, WrittenEnum.keyword] at spelled
  cases const : e.constGap with
  | none =>
    rw [const] at spelled
    have keyword : p.Has 0 (word "enum") := spelled.has
    have name : p.Has 1 (word e.name) := spelled.tail.has
    have opener : p.Has 2 (mark openBrace) := spelled.tail.tail.has
    have isName : p.isName 1 = true := name.isName_eq
    have isBrace : p.isPunct 2 openBrace = true := opener.isPunct_eq openBrace
    have same : p.typeStatement w 0 0 1 ⟨0, edits⟩ = p.enumeration 0 ⟨0, edits⟩ := by
      rw [typeStatement]
      dsimp only
      rw [keyword.text_eq, isName, isBrace]
      rfl
    rw [step_eq_stepWord keyword, stepWord]
    dsimp only
    rw [begins.afterDot_eq, keyword.text_eq, begins.startsStatement_eq]
    exact same
  | some gap' =>
    rw [const] at spelled
    have first : p.Has 0 (word "const") := spelled.has
    have isEnum : p.isWord 1 "enum" = true := spelled.tail.has.isWord_eq "enum"
    rw [step_eq_stepWord first, stepWord]
    dsimp only
    rw [begins.afterDot_eq, first.text_eq, isEnum]
    rfl

end Erase.Program

/-! ## Texts -/

/-- The brackets of an enum have partners. -/
theorem WrittenEnum.nested (e : WrittenEnum) (gap : List Char) :
    Nested ((e.pieces gap).map Spaced.symbol) := by
  obtain ⟨inner, same, plain⟩ := Program.exists_memberPieces e.trailing e.closerGap e.members
  have braces : Nested (mark openBrace :: (inner ++ [mark closeBrace])) :=
    @Nested.bracket openBrace inner (by decide) (nested_of_isPlain plain)
  have named : Nested (word e.name :: mark openBrace :: (inner ++ [mark closeBrace])) := .cons rfl braces
  rw [pieces, List.map_append, List.map_cons, List.map_cons, same]
  refine Nested.append ?_ named
  rw [keyword]
  cases e.constGap with
  | none => exact .plain rfl
  | some gap' => exact .cons rfl (.plain rfl)

/-- Replacing the middle of a text leaves the code behind what stands in front of it, and a line feed for
each one in the middle. -/
theorem applyTo_replace (front middle last : List Char) (code : String) :
    Edits.applyTo [⟨front.length, (front ++ middle).length, some code⟩] (front ++ (middle ++ last)) =
      front ++ (code.toList ++ List.replicate (middle.count '\n') '\n' ++ last) := by
  simp [Edits.applyTo, Edits.inOrder, Edits.applyFrom, Edit.apply]

/-- A text that is an enum is walked through in one step. -/
theorem Erase.Program.walk_enum {p : Program} {hole : Hole → Except Failure Edits}
    (matched : matchBrackets p.tokens = .ok p.partners) {e : WrittenEnum} (proper : e.IsProper)
    {front last : List Char} (source : p.source = spell (e.pieces front) last)
    (tokens : p.tokens.toList = tokensOf 0 (e.pieces front)) :
    p.walk hole p.tokens.size nowhere ⟨0, []⟩ =
      .ok ⟨p.tokens.size, [⟨front.length, (front ++ e.text).length, some e.code⟩]⟩ := by
  have spelled : p.Spelled 0 (e.pieces front) := ⟨[], [], last, by simpa using tokens, by simpa using source, rfl⟩
  have some : e.pieces front ≠ [] := by simp [WrittenEnum.pieces]
  have size : p.tokens.size = (e.pieces front).length := by
    rw [← Array.length_toList, tokens, length_tokensOf]
  have positive := List.length_pos_iff.mpr some
  have place : (e.pieces front).length = p.tokens.size - 1 + 1 := by omega
  have start : p.offset 0 = front.length := by
    have found : p.tokens[0]? = (tokensOf 0 (e.pieces front))[0]? := by
      rw [← Array.getElem?_toList, tokens]
    rw [offset, found, WrittenEnum.pieces, WrittenEnum.keyword]
    cases e.constGap <;> simp [tokensOf]
  have stop : p.stop (p.tokens.size - 1) = (front ++ e.text).length := by
    have whole : p.tokens.toList = [] ++ (tokensOf 0 (e.pieces front) ++ []) := by simpa using tokens
    have text := e.spell_pieces front []
    have stop := stop_of_tokens some whole
    rw [List.append_nil] at text
    rw [text, List.length_nil, Nat.zero_add, Nat.zero_add, ← size] at stop
    exact stop
  have step := enumeration_eq matched proper spelled place
  rw [start, stop, Nat.sub_add_cancel (by omega)] at step
  exact walk_of_last (by omega) ((step_enum spelled _ _ _).trans step)

/-- Erasing an enum leaves a variable and a function that fills it in, and the line feeds of the enum. -/
theorem erase_enum_lines {e : WrittenEnum} (proper : e.IsProper) {front last : List Char}
    (blank : isGap front = true) (blank' : isGap last = true) :
    erase (front ++ (e.text ++ last)) =
      .ok (front ++ (e.code.toList ++ List.replicate (e.text.count '\n') '\n' ++ last)) := by
  rw [← applyTo_replace, ← e.spell_pieces]
  exact erase_of_walk (e.isReadable_pieces proper blank last) blank' (e.nested front)
    fun p hole source read tokens matched => Program.walk_enum matched proper source tokens

/-- Erasing an enum on one line leaves a variable and a function that fills it in, with the value of each
member. -/
theorem erase_enum {e : WrittenEnum} (proper : e.IsProper) (line : '\n' ∉ e.text) {front last : List Char}
    (blank : isGap front = true) (blank' : isGap last = true) :
    erase (front ++ (e.text ++ last)) = .ok (front ++ (e.code.toList ++ last)) := by
  rw [erase_enum_lines proper blank blank', List.count_eq_zero.mpr line, List.replicate_zero,
    List.append_nil]

/-- An enum with members of every kind. -/
def manifoldEnum : WrittenEnum where
  constGap := some [' ']
  nameGap := [' ']
  name := "Level"
  openerGap := [' ']
  members := [
    ⟨[' '], "Low", none, []⟩,
    ⟨[' '], "Mid", some ⟨[' '], [' '], .negative [' '] "05"⟩, []⟩,
    ⟨[' '], "Next", none, []⟩,
    ⟨[' '], "Name", some ⟨[' '], [' '], .text "'n'"⟩, []⟩,
    ⟨[' '], "After", none, []⟩,
    ⟨[' '], "Same", some ⟨[], [], .reference "Low"⟩, [' ']⟩,
    ⟨[' '], "Top", some ⟨[' '], [' '], .integer "9223372036854775806"⟩, []⟩,
    ⟨[' '], "Last", none, []⟩]
  trailing := true
  closerGap := [' ']

/-- An enum with members of every kind counts on from integers up to the greatest one, from strings by an
expression, and names an earlier member as a property. -/
theorem erase_manifoldEnum :
    erase ("const enum Level \x7b Low, Mid = - 05, Next, Name = 'n', After, Same=Low , ".toList ++
        "Top = 9223372036854775806, Last, \x7d".toList) =
      .ok ("var Level; (function (Level) \x7b Level[Level[\"Low\"] = 0] = \"Low\"; " ++
        "Level[Level[\"Mid\"] = - 05] = \"Mid\"; Level[Level[\"Next\"] = -4] = \"Next\"; " ++
        "Level[\"Name\"] = 'n'; Level[Level[\"After\"] = Level[\"Name\"] + 1] = \"After\"; " ++
        "Level[Level[\"Same\"] = Level.Low] = \"Same\"; " ++
        "Level[Level[\"Top\"] = 9223372036854775806] = \"Top\"; " ++
        "Level[Level[\"Last\"] = 9223372036854775807] = \"Last\"; " ++
        "\x7d)(Level || (Level = \x7b\x7d));").toList := by
  have proper : manifoldEnum.IsProper :=
    ⟨by decide, by decide, by decide +kernel, rfl, by decide, by decide +kernel, by decide +kernel, rfl⟩
  have done := @erase_enum manifoldEnum proper (by decide +kernel) [] [] rfl rfl
  have text : manifoldEnum.text =
      "const enum Level \x7b Low, Mid = - 05, Next, Name = 'n', After, Same=Low , ".toList ++
        "Top = 9223372036854775806, Last, \x7d".toList := by decide +kernel
  rw [List.append_nil, List.append_nil, List.nil_append, List.nil_append, text] at done
  rw [done]
  exact congrArg (fun code : String => Except.ok code.toList) (by decide +kernel)

end ModuleLinker
