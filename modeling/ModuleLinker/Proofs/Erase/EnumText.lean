import ModuleLinker.Proofs.Erase.Readable
import ModuleLinker.Erase.Enumeration

/-!
# Enums as they are written

An enum whose members have no value, an integer, a string or the name of an earlier member
(`WrittenEnum`), with the blanks between its symbols. Its symbols are read back from its text
(`WrittenEnum.isReadable_pieces`). What a member stands for is a function of the members before it
(`known`, `WrittenMember.code`), and so are the statements that fill in the enum (`WrittenEnum.code`).
-/

set_option autoImplicit false

namespace ModuleLinker

open Lexeme Text Erase ModuleLinker.Symbol

/-! ## Shapes -/

/-- A value that is given to a member. -/
inductive Initializer where
  /-- An integer of decimal digits. -/
  | integer (digits : String)
  /-- An integer of decimal digits behind a minus sign and blanks. -/
  | negative (gap : List Char) (digits : String)
  /-- A string. -/
  | text (literal : String)
  /-- The name of a member. -/
  | reference (name : String)
  deriving DecidableEq

/-- A value with the equals sign in front of it. -/
structure WrittenValue where
  /-- The blanks in front of the equals sign. -/
  equalsGap : List Char
  /-- The blanks behind it. -/
  gap : List Char
  /-- The value. -/
  initializer : Initializer
  deriving DecidableEq

/-- A member of an enum. -/
structure WrittenMember where
  /-- The blanks in front of the key. -/
  gap : List Char
  /-- The key. -/
  key : String
  /-- The value. -/
  value : Option WrittenValue
  /-- The blanks in front of the comma, where one stands behind the member. -/
  commaGap : List Char
  deriving DecidableEq

/-- An enum. -/
structure WrittenEnum where
  /-- The blanks behind the word `const`, where it stands in front. -/
  constGap : Option (List Char)
  /-- The blanks in front of the name. -/
  nameGap : List Char
  /-- The name. -/
  name : String
  /-- The blanks in front of the opening brace. -/
  openerGap : List Char
  /-- The members. -/
  members : List WrittenMember
  /-- Whether a comma stands behind the last member. -/
  trailing : Bool
  /-- The blanks in front of the closing brace. -/
  closerGap : List Char

/-- The symbols of a value. -/
def Initializer.pieces (gap : List Char) : Initializer → List Spaced
  | integer digits => [⟨gap, ⟨.number, digits⟩⟩]
  | negative gap' digits => [⟨gap, mark "-"⟩, ⟨gap', ⟨.number, digits⟩⟩]
  | text literal => [⟨gap, ⟨.string, literal⟩⟩]
  | reference name => [⟨gap, word name⟩]

/-- The symbols of a value with its equals sign. -/
def WrittenValue.pieces (v : WrittenValue) : List Spaced :=
  ⟨v.equalsGap, mark "="⟩ :: v.initializer.pieces v.gap

/-- The symbols of a member. -/
def WrittenMember.pieces (m : WrittenMember) : List Spaced :=
  ⟨m.gap, word m.key⟩ :: m.value.elim [] WrittenValue.pieces

/-- The comma behind a member, where it has one. -/
def WrittenMember.comma (m : WrittenMember) (has : Bool) : List Spaced :=
  if has then [⟨m.commaGap, mark ","⟩] else []

/-- The symbols of members and of the brace behind them. -/
def memberPieces (trailing : Bool) (closerGap : List Char) : List WrittenMember → List Spaced
  | [] => [⟨closerGap, mark closeBrace⟩]
  | m :: ms =>
    m.pieces ++ (m.comma (trailing || !ms.isEmpty) ++ memberPieces trailing closerGap ms)

/-- The keyword of an enum behind blanks, with the word `const` in front where it stands there. -/
def WrittenEnum.keyword (e : WrittenEnum) (gap : List Char) : List Spaced :=
  e.constGap.elim [⟨gap, word "enum"⟩] fun gap' => [⟨gap, word "const"⟩, ⟨gap', word "enum"⟩]

/-- The symbols of an enum behind blanks. -/
def WrittenEnum.pieces (e : WrittenEnum) (gap : List Char) : List Spaced :=
  e.keyword gap ++ (⟨e.nameGap, word e.name⟩ :: ⟨e.openerGap, mark openBrace⟩ ::
    memberPieces e.trailing e.closerGap e.members)

/-- The text of an enum. -/
def WrittenEnum.text (e : WrittenEnum) : List Char := spell (e.pieces []) []

/-- An enum stands with its text behind blanks. -/
theorem WrittenEnum.spell_pieces (e : WrittenEnum) (gap last : List Char) :
    spell (e.pieces gap) last = gap ++ (e.text ++ last) := by
  rw [text, ← spell_eq_append, pieces, pieces, keyword, keyword]
  cases e.constGap <;> rfl

/-! ## Values -/

/-- The integer that digits stand for. -/
def decimal (digits : String) : Nat := Nat.ofDigitChars 10 digits.toList 0

/-- The integer that a value is. -/
def Initializer.integer? : Initializer → Option Int
  | integer digits => some (decimal digits)
  | negative _ digits => some (-(decimal digits))
  | text _ => none
  | reference _ => none

/-- The member that a value names. -/
def Initializer.reference? : Initializer → Option String
  | integer _ => none
  | negative _ _ => none
  | text _ => none
  | reference name => some name

/-- The code of a value: a string or an integer as it is written, a member as a property of the enum. -/
def Initializer.code (name : String) : Initializer → String
  | integer digits => digits
  | negative gap digits => "-" ++ String.ofList gap ++ digits
  | text literal => literal
  | reference member => name ++ "." ++ member

/-- What is known of the last one of some members, which are given from the last one to the first. -/
def known : List WrittenMember → Option Int
  | [] => none
  | m :: before =>
    match m.value with
    | some v => v.initializer.integer?
    | none => if before = [] then some 0 else (known before).map (· + 1)

namespace WrittenMember

variable (m : WrittenMember)

/-- The key as a string. -/
def quotedKey : String := "\"" ++ m.key ++ "\""

/-- The code of what a member stands for behind the members before it. -/
def code (name : String) (before : List WrittenMember) : String :=
  match m.value with
  | some v => v.initializer.code name
  | none =>
    match before with
    | [] => "0"
    | previous :: _ =>
      (known before).elim (name ++ "[" ++ previous.quotedKey ++ "] + 1") fun n => toString (n + 1)

/-- Whether a string is given to a member. -/
def isText : Bool :=
  match m.value with
  | some ⟨_, _, .text _⟩ => true
  | _ => false

end WrittenMember

/-- The code that assigns a property. -/
def assignment (name key value : String) : String := name ++ "[" ++ key ++ "] = " ++ value

/-- The statement that fills in a member: its value, and, where that is no string, its key by its value. -/
def WrittenMember.statement (m : WrittenMember) (name : String) (before : List WrittenMember) : String :=
  let value := assignment name m.quotedKey (m.code name before)
  if m.isText then value ++ ";" else assignment name value m.quotedKey ++ ";"

/-- The statements that fill in members behind others. -/
def memberStatements (name : String) : List WrittenMember → List WrittenMember → List String
  | _, [] => []
  | before, m :: ms => m.statement name before :: memberStatements name (m :: before) ms

/-- What becomes of an enum, with the word `const` or without, and with a comma at the end or without. -/
def WrittenEnum.code (e : WrittenEnum) : String :=
  "var " ++ e.name ++ "; (function (" ++ e.name ++ ") \x7b " ++
    " ".intercalate (memberStatements e.name [] e.members) ++
    " \x7d)(" ++ e.name ++ " || (" ++ e.name ++ " = \x7b\x7d));"

/-! ## Well-formedness -/

/-- Whether digits stand for an integer of 64 bits. -/
def IsInteger (digits : String) : Prop := isDecimal digits.toList = true ∧ decimal digits ≤ maxInteger

instance (digits : String) : Decidable (IsInteger digits) := inferInstanceAs (Decidable (_ ∧ _))

/-- Whether a value is written as it should be. -/
def Initializer.IsProper : Initializer → Prop
  | integer digits => IsInteger digits
  | negative gap digits => isGap gap = true ∧ IsInteger digits
  | text literal => isString literal.toList = true
  | reference name => isName name.toList = true

instance : (i : Initializer) → Decidable i.IsProper
  | .integer digits => inferInstanceAs (Decidable (IsInteger digits))
  | .negative _ _ => inferInstanceAs (Decidable (_ ∧ _))
  | .text _ => inferInstanceAs (Decidable (_ = _))
  | .reference _ => inferInstanceAs (Decidable (_ = _))

/-- Whether a member is written as it should be. -/
structure WrittenMember.IsProper (m : WrittenMember) : Prop where
  /-- There are blanks in front of the key. -/
  gap : isGap m.gap = true
  /-- The key is a name. -/
  key : isName m.key.toList = true
  /-- The value is, with blanks around its equals sign. -/
  value : ∀ v ∈ m.value, isGap v.equalsGap = true ∧ isGap v.gap = true ∧ v.initializer.IsProper
  /-- There are blanks in front of the comma. -/
  commaGap : isGap m.commaGap = true

instance (m : WrittenMember) : Decidable m.IsProper :=
  decidable_of_iff (isGap m.gap = true ∧ isName m.key.toList = true ∧
      (∀ v ∈ m.value, isGap v.equalsGap = true ∧ isGap v.gap = true ∧ v.initializer.IsProper) ∧
      isGap m.commaGap = true)
    ⟨fun h => ⟨h.1, h.2.1, h.2.2.1, h.2.2.2⟩, fun h => ⟨h.gap, h.key, h.value, h.commaGap⟩⟩

/-- Whether a member stands as it should behind others, which are given from the last one to the first:
the member that its value names is one of them, and it does not count on from the greatest integer. -/
structure WrittenMember.Continues (m : WrittenMember) (before : List WrittenMember) : Prop where
  /-- Its value names one of the members before it. -/
  earlier : ∀ v ∈ m.value, ∀ name ∈ v.initializer.reference?, ∃ m' ∈ before, m'.key = name
  /-- It does not count on from the greatest integer. -/
  counts : m.value = none → known before ≠ some maxInteger

instance (m : WrittenMember) (before : List WrittenMember) : Decidable (m.Continues before) :=
  decidable_of_iff ((∀ v ∈ m.value, ∀ name ∈ v.initializer.reference?, ∃ m' ∈ before, m'.key = name) ∧
      (m.value = none → known before ≠ some maxInteger))
    ⟨fun h => ⟨h.1, h.2⟩, fun h => ⟨h.earlier, h.counts⟩⟩

/-- Whether each of some members stands as it should behind those before it. -/
def AllContinue : List WrittenMember → List WrittenMember → Prop
  | _, [] => True
  | before, m :: ms => m.Continues before ∧ AllContinue (m :: before) ms

instance : (before members : List WrittenMember) → Decidable (AllContinue before members)
  | _, [] => .isTrue trivial
  | before, m :: ms =>
    have := instDecidableAllContinue (m :: before) ms
    inferInstanceAs (Decidable (_ ∧ _))

/-- Whether an enum is written as it should be. -/
structure WrittenEnum.IsProper (e : WrittenEnum) : Prop where
  /-- There are blanks behind the word in front of the keyword. -/
  constGap : ∀ gap ∈ e.constGap, isGap gap = true ∧ gap ≠ []
  /-- There are blanks behind the keyword. -/
  nameGap : isGap e.nameGap = true ∧ e.nameGap ≠ []
  /-- The name is one. -/
  name : isName e.name.toList = true
  /-- There are blanks in front of the opening brace. -/
  openerGap : isGap e.openerGap = true
  /-- There is a member. -/
  some : e.members ≠ []
  /-- The members are. -/
  members : ∀ m ∈ e.members, m.IsProper
  /-- Each stands as it should behind the members before it. -/
  continues : AllContinue [] e.members
  /-- There are blanks in front of the closing brace. -/
  closerGap : isGap e.closerGap = true

/-! ## Reading enums back -/

/-- Whether a character ends names and numbers. -/
def isEdge (c : Char) : Bool :=
  !(isNamePart c || c == '\\') && !(c.isAlphanum || c == '_' || c == '.' || c == '+' || c == '-')

/-- Blanks end names and numbers, and make no longer punctuators of signs. -/
theorem isEdge_of_isBlank {c : Char} (blank : (isBlank c || c == '\ufeff') = true) :
    isEdge c = true ∧ ∀ sign ∈ ["=", "-"], runsInto sign c = false := by
  let points := List.range' 0x9 5 ++ List.range' 0x2000 11 ++
    [0x20, 0x85, 0xA0, 0x1680, 0x2028, 0x2029, 0x202F, 0x205F, 0x3000, 0xFEFF]
  have mem : c.toNat ∈ points := by
    simp only [isBlank, Bool.or_eq_true, Bool.and_eq_true, decide_eq_true_eq, beq_iff_eq] at blank
    simp only [points, List.mem_append, List.mem_range'_1, List.mem_cons, List.not_mem_nil, or_false]
    rcases blank with blank | rfl
    · omega
    · decide
  have all : ∀ n ∈ points, isEdge (Char.ofNat n) = true ∧
      ∀ sign ∈ ["=", "-"], runsInto sign (Char.ofNat n) = false := by decide +kernel
  rw [← Char.ofNat_toNat c]
  exact all _ mem

namespace Symbol

theorem isReadBefore_word {x : String} {rest : List Char} (name : isName x.toList = true)
    (ends : ∀ c ∈ rest.head?, isEdge c = true) : (word x).isReadBefore rest = true := by
  change (isName x.toList && !rest.head?.any fun c => isNamePart c || c == '\\') = true
  rw [name, Bool.true_and, Bool.not_eq_true', Option.any_eq_false]
  intro c first
  have edge := ends c first
  rw [isEdge, Bool.and_eq_true, Bool.not_eq_true'] at edge
  exact edge.1

/-- Digits are a number. -/
theorem isNumeral_of_isDecimal {cs : List Char} (digits : isDecimal cs = true) :
    Script.isNumeral cs = true := by
  cases cs with
  | nil => cases digits
  | cons c cs =>
    rw [isDecimal, Bool.and_eq_true, List.all_eq_true, List.forall_mem_cons] at digits
    obtain ⟨-, digit, digits⟩ := digits
    have length := @numberLength_append cs [] digits rfl
      (c = '0' && (cs.head? == some 'x' || cs.head? == some 'X')) c digit 0
    rw [List.append_nil, Nat.zero_add] at length
    rw [Script.isNumeral, length, digit, Bool.true_or, Bool.true_and, beq_self_eq_true]

theorem isReadBefore_number {digits : String} {rest : List Char} (isDecimal : isDecimal digits.toList = true)
    (ends : ∀ c ∈ rest.head?, isEdge c = true) : isReadBefore ⟨.number, digits⟩ rest = true := by
  change (Script.isNumeral digits.toList && !rest.head?.any fun c =>
    c.isAlphanum || c == '_' || c == '.' || c == '+' || c == '-') = true
  rw [isNumeral_of_isDecimal isDecimal, Bool.true_and, Bool.not_eq_true', Option.any_eq_false]
  intro c first
  have edge := ends c first
  rw [isEdge, Bool.and_eq_true, Bool.not_eq_true', Bool.not_eq_true'] at edge
  exact edge.2

/-- A punctuator of an enum is read back where what follows makes no longer one of it. -/
theorem isReadBefore_mark {text : String} (mem : text ∈ [openBrace, closeBrace, ",", "=", "-"])
    {rest : List Char} (ends : ∀ c ∈ rest.head?, runsInto text c = false) :
    (mark text).isReadBefore rest = true := by
  have known : (operators.contains text && text != "?." && text.toList.head? != some '/') = true := by
    simp only [List.mem_cons, List.not_mem_nil, or_false] at mem
    rcases mem with rfl | rfl | rfl | rfl | rfl <;> decide +kernel
  change (operators.contains text && text != "?." && text.toList.head? != some '/' &&
    !rest.head?.any (runsInto text)) = true
  rw [known, Bool.true_and, Bool.not_eq_true', Option.any_eq_false]
  exact ends

/-- Nothing makes longer punctuators of braces and commas. -/
theorem runsInto_eq_false {text : String} (mem : text ∈ [openBrace, closeBrace, ","]) (c : Char) :
    runsInto text c = false := by
  simp only [List.mem_cons, List.not_mem_nil, or_false] at mem
  rcases mem with rfl | rfl | rfl <;> simp [runsInto, operators, openBrace, closeBrace, List.isPrefixOf]

/-- What makes longer punctuators of signs starts no name, no number and no string. -/
theorem runsInto_of_start {sign : String} (mem : sign ∈ ["=", "-"]) {c : Char}
    (starts : isNameStart c = true ∨ c ∈ ['\\', '"', '\x27'] ∨ c.isDigit = true) :
    runsInto sign c = false := by
  rw [Bool.eq_false_iff]
  intro runs
  have among : c ∈ ['=', '>', '-'] := by
    simp only [List.mem_cons, List.not_mem_nil, or_false] at mem ⊢
    rcases mem with rfl | rfl <;>
      simp [runsInto, operators, openBrace, closeBrace, List.isPrefixOf] at runs <;> tauto
  have none : isNameStart '=' = false ∧ isNameStart '>' = false ∧ isNameStart '-' = false :=
    ⟨by decide +kernel, by decide +kernel, by decide +kernel⟩
  simp only [List.mem_cons, List.not_mem_nil, or_false] at among
  rcases among with rfl | rfl | rfl <;> simp [none] at starts

end Symbol

/-- What a text starts with behind blanks that all have a property. -/
theorem head_of_isGap {property : Char → Bool}
    (blanks : ∀ c, (isBlank c || c == '\ufeff') = true → property c = true) {gap cs : List Char}
    (blank : isGap gap = true) (own : gap = [] → ∀ c ∈ cs.head?, property c = true) :
    ∀ c ∈ (gap ++ cs).head?, property c = true := by
  cases gap with
  | nil => exact own rfl
  | cons b gap =>
    rw [isGap, List.all_cons, Bool.and_eq_true] at blank
    rintro c ⟨⟩
    exact blanks b blank.1

theorem head_of_piece {property : Char → Bool}
    (blanks : ∀ c, (isBlank c || c == '\ufeff') = true → property c = true) {piece : Spaced}
    (blank : isGap piece.gap = true) {c : Char} {cs : List Char} (chars : piece.symbol.text.toList = c :: cs)
    (own : property c = true) (pieces : List Spaced) (rest : List Char) :
    ∀ c ∈ (spell (piece :: pieces) rest).head?, property c = true := by
  rw [spell, chars]
  refine head_of_isGap blanks blank fun _ => ?_
  rintro c' ⟨⟩
  exact own

/-- Whether a text starts with a character that ends names and numbers. -/
def StartsApart (cs : List Char) : Prop := ∀ c ∈ cs.head?, isEdge c = true

theorem startsApart_of_gap {gap : List Char} (blank : isGap gap = true) (some : gap ≠ []) (symbol : Symbol)
    (pieces : List Spaced) (rest : List Char) : StartsApart (spell (⟨gap, symbol⟩ :: pieces) rest) :=
  head_of_isGap (fun _ blank => (isEdge_of_isBlank blank).1) blank fun none => absurd none some

/-- A punctuator ends what stands in front of it. -/
theorem startsApart_of_mark {gap : List Char} (blank : isGap gap = true) {text : String}
    (mem : text ∈ [openBrace, closeBrace, ",", "="]) (pieces : List Spaced) (rest : List Char) :
    StartsApart (spell (⟨gap, mark text⟩ :: pieces) rest) := by
  have chars : ∃ c, text.toList = [c] ∧ isEdge c = true := by
    simp only [List.mem_cons, List.not_mem_nil, or_false] at mem
    rcases mem with rfl | rfl | rfl | rfl <;> exact ⟨_, rfl, by decide +kernel⟩
  obtain ⟨c, chars, edge⟩ := chars
  exact @head_of_piece isEdge (fun _ blank => (isEdge_of_isBlank blank).1) ⟨gap, mark text⟩ blank c [] chars
    edge pieces rest

/-- A sign is read back in front of what starts a name, a number or a string. -/
theorem isReadBefore_sign {sign : String} (mem : sign ∈ ["=", "-"]) {piece : Spaced}
    (blank : isGap piece.gap = true) {c : Char} {cs : List Char} (chars : piece.symbol.text.toList = c :: cs)
    (ends : runsInto sign c = false) (pieces : List Spaced) (rest : List Char) :
    (mark sign).isReadBefore (spell (piece :: pieces) rest) = true := by
  have blanks (c : Char) (blank : (isBlank c || c == '\ufeff') = true) : (!runsInto sign c) = true := by
    rw [(isEdge_of_isBlank blank).2 sign mem, Bool.not_false]
  have own : (!runsInto sign c) = true := by rw [ends, Bool.not_false]
  have head := @head_of_piece (fun c => !runsInto sign c) blanks piece blank c cs chars own pieces rest
  exact isReadBefore_mark (List.mem_append_right [openBrace, closeBrace, ","] mem) fun c first =>
    Bool.not_eq_true' _ ▸ head c first

theorem isReadable_cons {gap : List Char} {symbol : Symbol} {pieces : List Spaced} {rest : List Char}
    (blank : isGap gap = true) (reads : symbol.isReadBefore (spell pieces rest) = true)
    (readable : isReadable pieces rest = true) : isReadable (⟨gap, symbol⟩ :: pieces) rest = true := by
  rw [isReadable, blank, reads, readable]
  rfl

/-- A value is read back in front of a comma or a brace. -/
theorem isReadable_initializer {i : Initializer} (proper : i.IsProper) {gap : List Char}
    (blank : isGap gap = true) {pieces : List Spaced} {rest : List Char}
    (ends : StartsApart (spell pieces rest)) (readable : isReadable pieces rest = true) :
    isReadable (i.pieces gap ++ pieces) rest = true ∧
      (mark "=").isReadBefore (spell (i.pieces gap ++ pieces) rest) = true := by
  have number {digits : String} (isInteger : IsInteger digits) {gap : List Char} (blank : isGap gap = true)
      {sign : String} (mem : sign ∈ ["=", "-"]) :
      isReadable (⟨gap, ⟨.number, digits⟩⟩ :: pieces) rest = true ∧
        (mark sign).isReadBefore (spell (⟨gap, ⟨.number, digits⟩⟩ :: pieces) rest) = true := by
    obtain ⟨digit, -⟩ := isInteger
    refine ⟨isReadable_cons blank (isReadBefore_number digit ends) readable, ?_⟩
    cases chars : digits.toList with
    | nil =>
      rw [chars] at digit
      cases digit
    | cons c cs =>
      rw [chars, isDecimal, Bool.and_eq_true, List.all_cons, Bool.and_eq_true] at digit
      exact isReadBefore_sign mem blank chars (runsInto_of_start mem (.inr (.inr digit.2.1))) ..
  cases i with
  | integer digits => exact number proper blank List.mem_cons_self
  | negative gap' digits =>
    obtain ⟨blank', isInteger⟩ := proper
    obtain ⟨readable', minus⟩ := number isInteger blank' (List.mem_cons_of_mem _ List.mem_cons_self)
    have noSign : runsInto "=" '-' = false := by decide +kernel
    have chars : "-".toList = ['-'] := by decide
    exact ⟨isReadable_cons blank minus readable',
      @isReadBefore_sign "=" List.mem_cons_self ⟨gap, mark "-"⟩ blank '-' [] chars noSign _ rest⟩
  | text literal =>
    have string : isString literal.toList = true := proper
    refine ⟨@isReadable_cons gap ⟨.string, literal⟩ pieces rest blank string readable, ?_⟩
    cases chars : literal.toList with
    | nil =>
      rw [chars] at string
      cases string
    | cons c cs =>
      rw [chars, isString, Bool.and_eq_true, Bool.or_eq_true, beq_iff_eq, beq_iff_eq] at string
      refine isReadBefore_sign List.mem_cons_self blank chars
        (runsInto_of_start List.mem_cons_self (.inr (.inl ?_))) ..
      rcases string.1 with rfl | rfl <;> decide
  | reference name =>
    have named : isName name.toList = true := proper
    refine ⟨isReadable_cons blank (isReadBefore_word named ends) readable, ?_⟩
    cases chars : name.toList with
    | nil =>
      rw [chars] at named
      cases named
    | cons c cs =>
      rw [chars, isName, Bool.and_eq_true, Bool.or_eq_true, beq_iff_eq] at named
      refine isReadBefore_sign List.mem_cons_self blank chars (runsInto_of_start List.mem_cons_self ?_) ..
      rcases named.1 with starts | rfl
      · exact .inl starts
      · exact .inr (.inl (by decide))

/-- A member is read back in front of a comma or a brace. -/
theorem isReadable_member {m : WrittenMember} (proper : m.IsProper) {pieces : List Spaced}
    {rest : List Char} (ends : StartsApart (spell pieces rest)) (readable : isReadable pieces rest = true) :
    isReadable (m.pieces ++ pieces) rest = true := by
  obtain ⟨gap, key, value, commaGap⟩ := m
  cases value with
  | none => exact isReadable_cons proper.gap (isReadBefore_word proper.key ends) readable
  | some v =>
    obtain ⟨blank, blank', own⟩ := proper.value v rfl
    obtain ⟨readable', equals⟩ := isReadable_initializer own blank' ends readable
    exact isReadable_cons proper.gap
      (isReadBefore_word proper.key (startsApart_of_mark blank (by decide) _ _))
      (isReadable_cons blank equals readable')

/-- Braces and commas are read back in front of everything. -/
theorem isReadable_mark {gap : List Char} (blank : isGap gap = true) {text : String}
    (mem : text ∈ [openBrace, closeBrace, ","]) {pieces : List Spaced} {rest : List Char}
    (readable : isReadable pieces rest = true) : isReadable (⟨gap, mark text⟩ :: pieces) rest = true := by
  have mem' : text ∈ [openBrace, closeBrace, ",", "=", "-"] := List.mem_append_left ["=", "-"] mem
  exact isReadable_cons blank (isReadBefore_mark mem' fun c _ => runsInto_eq_false mem c) readable

/-- Members and the brace behind them are read back. -/
theorem isReadable_memberPieces {closerGap : List Char} (blank : isGap closerGap = true) (trailing : Bool)
    {members : List WrittenMember} (proper : ∀ m ∈ members, m.IsProper) (rest : List Char) :
    isReadable (memberPieces trailing closerGap members) rest = true := by
  have closer : isReadable [⟨closerGap, mark closeBrace⟩] rest = true :=
    isReadable_mark blank (by decide) rfl
  induction members with
  | nil => exact closer
  | cons m members ih =>
    rw [List.forall_mem_cons] at proper
    have readable := ih proper.2
    have comma (readable : isReadable (memberPieces trailing closerGap members) rest = true) :
        isReadable (m.pieces ++ (⟨m.commaGap, mark ","⟩ :: memberPieces trailing closerGap members)) rest =
          true :=
      isReadable_member proper.1 (startsApart_of_mark proper.1.commaGap (by decide) _ _)
        (isReadable_mark proper.1.commaGap (by decide) readable)
    cases has : trailing || !members.isEmpty with
    | true =>
      rw [memberPieces, has]
      exact comma readable
    | false =>
      rw [Bool.or_eq_false_iff, Bool.not_eq_false', List.isEmpty_iff] at has
      obtain ⟨rfl, rfl⟩ := has
      exact isReadable_member proper.1 (startsApart_of_mark blank (by decide) _ _) closer

/-- An enum is read back. -/
theorem WrittenEnum.isReadable_pieces {e : WrittenEnum} (proper : e.IsProper) {gap : List Char}
    (blank : isGap gap = true) (rest : List Char) : isReadable (e.pieces gap) rest = true := by
  have members := isReadable_memberPieces proper.closerGap e.trailing proper.members rest
  have opener : openBrace ∈ [openBrace, closeBrace, ","] := List.mem_cons_self
  have body := isReadable_cons proper.nameGap.1
    (isReadBefore_word proper.name (startsApart_of_mark proper.openerGap (List.mem_append_left ["="] opener) _ _))
    (isReadable_mark proper.openerGap opener members)
  have enum (gap : List Char) (blank : isGap gap = true) := @isReadable_cons gap (word "enum") _ rest blank
    (isReadBefore_word (by decide +kernel) (startsApart_of_gap proper.nameGap.1 proper.nameGap.2 _ _ _)) body
  rw [pieces, WrittenEnum.keyword]
  cases const : e.constGap with
  | none => exact enum gap blank
  | some gap' =>
    obtain ⟨blank', some⟩ := proper.constGap gap' const
    exact @isReadable_cons gap (word "const") _ rest blank
      (isReadBefore_word (by decide +kernel) (startsApart_of_gap blank' some _ _ _)) (enum gap' blank')

end ModuleLinker
