import Mathlib
import ModuleLinker.Proofs.Erase.TypeText

/-!
# Types of the whole grammar

The symbols of a type: names and type arguments, literals, brackets of all kinds, indexed types, unions
and intersections, `keyof`, `readonly` and `typeof`, functions, constructors and conditional types
(`IsTypeAt`). Where a program shows these symbols on one line, the search for the end of a type stops
right behind them, if what stands there does not go on with the type (`typeStop?_of_isTypeAt`).

The search decides by one or two tokens what it has in front of it. Two kinds of types are told apart for
that: behind one that can stand in front of `extends`, the search is where it would be behind a single
operand (`TypeLevel.union`); any other one ends with a whole type (`TypeLevel.whole`).
-/

set_option autoImplicit false

namespace ModuleLinker

open Erase ModuleLinker.Symbol

/-! ## The grammar -/

/-- Where a type may stand. -/
inductive TypeLevel where
  /-- On both sides of `extends`: no function type and no conditional type outside brackets. -/
  | union
  /-- Wherever a type is expected. -/
  | whole
  deriving DecidableEq

/-- The words that no type starts with as a name. -/
def typeKeywords : List String := [
  "keyof", "unique", "readonly", "infer", "abstract", "new", "asserts", "typeof", "import", "is",
  "extends"]

/-- The signs of unions and intersections. -/
def unionSigns : List String := ["|", "&"]

/-- The symbols of a qualified name. -/
abbrev qualified (first : String) (segments : List String) : List Symbol :=
  word first :: segments.flatMap fun name => [mark ".", word name]

/-- Whether symbols start with the sign of a union or an intersection. -/
def leads (ss : List Symbol) : Bool := ss.head?.any fun s => s.token.isPunct "|" || s.token.isPunct "&"

/-- Whether symbols make up a type. What stands in braces, in square brackets or between the parentheses
of parameters may be anything in which every bracket has its partner. -/
inductive IsTypeAt : TypeLevel → List Symbol → Prop
  /-- A name, which may be qualified. -/
  | name {first : String} {segments : List String} : first ∉ typeKeywords →
      IsTypeAt .union (qualified first segments)
  /-- A name with type arguments. -/
  | generic {first : String} {segments : List String} {arguments : List (List Symbol)} :
      first ∉ typeKeywords → (∀ ss ∈ arguments, IsTypeAt .whole ss) →
      IsTypeAt .union (qualified first segments ++ mark "<" :: (separated arguments ++ [mark ">"]))
  /-- A string that is a type. -/
  | string (text : String) : IsTypeAt .union [⟨.string, text⟩]
  /-- A number that is a type. -/
  | number (text : String) : IsTypeAt .union [⟨.number, text⟩]
  /-- A number below zero that is a type. -/
  | negative (text : String) : IsTypeAt .union [mark "-", ⟨.number, text⟩]
  /-- An object type. -/
  | object {ss : List Symbol} : Nested ss →
      IsTypeAt .union (mark openBrace :: (ss ++ [mark closeBrace]))
  /-- A tuple type. -/
  | tuple {ss : List Symbol} : Nested ss → IsTypeAt .union (mark "[" :: (ss ++ [mark "]"]))
  /-- A type in parentheses. -/
  | parenthesized {ss : List Symbol} : IsTypeAt .whole ss →
      IsTypeAt .union (mark "(" :: (ss ++ [mark ")"]))
  /-- An array type or an indexed type; behind a function type or a conditional type an index belongs to
  the type that it ends with. -/
  | indexed {ss index : List Symbol} : IsTypeAt .union ss → Nested index →
      IsTypeAt .union (ss ++ mark "[" :: (index ++ [mark "]"]))
  /-- A union or an intersection. -/
  | union {sign : String} {ss ts : List Symbol} : sign ∈ unionSigns → IsTypeAt .union ss →
      IsTypeAt .union ts → leads ts = false → IsTypeAt .union (ss ++ mark sign :: ts)
  /-- A union or an intersection with a sign in front of it. -/
  | leading {sign : String} {ss : List Symbol} : sign ∈ unionSigns → IsTypeAt .union ss →
      leads ss = false → IsTypeAt .union (mark sign :: ss)
  /-- The keys of a type, or a type that is read only. -/
  | modified {modifier : String} {level : TypeLevel} {ss : List Symbol} :
      modifier = "keyof" ∨ modifier = "readonly" → IsTypeAt level ss →
      IsTypeAt level (word modifier :: ss)
  /-- The type of a value. -/
  | query (first : String) (segments : List String) :
      IsTypeAt .union (word "typeof" :: qualified first segments)
  /-- A function type. -/
  | function {parameters ss : List Symbol} : Nested parameters → IsTypeAt .whole ss →
      IsTypeAt .whole (mark "(" :: (parameters ++ mark ")" :: mark "=>" :: ss))
  /-- A constructor type. -/
  | constructor {parameters ss : List Symbol} : Nested parameters → IsTypeAt .whole ss →
      IsTypeAt .whole (word "new" :: mark "(" :: (parameters ++ mark ")" :: mark "=>" :: ss))
  /-- A conditional type. -/
  | conditional {checked bound yes no : List Symbol} : IsTypeAt .union checked →
      IsTypeAt .union bound → IsTypeAt .whole yes → IsTypeAt .whole no →
      IsTypeAt .whole (checked ++ word "extends" :: (bound ++ mark "?" :: (yes ++ mark ":" :: no)))
  /-- A type of the other level. -/
  | whole {ss : List Symbol} : IsTypeAt .union ss → IsTypeAt .whole ss

namespace IsTypeAt

/-! ## Brackets and type arguments -/

theorem isPlain_sign {sign : String} (known : sign ∈ unionSigns) : (mark sign).isPlain = true := by
  simp only [unionSigns, List.mem_cons, List.not_mem_nil, or_false] at known
  rcases known with rfl | rfl <;> rfl

theorem isArgument_sign {sign : String} (known : sign ∈ unionSigns) : isArgument (mark sign) = true := by
  simp only [unionSigns, List.mem_cons, List.not_mem_nil, or_false] at known
  rcases known with rfl | rfl <;> decide

theorem nested_function {parameters ss : List Symbol} (inside : Nested parameters) (nested : Nested ss) :
    Nested (mark "(" :: (parameters ++ mark ")" :: mark "=>" :: ss)) := by
  have parts := (@Nested.bracket "(" _ (by decide) inside).append
    (Nested.cons (s := mark "=>") rfl nested)
  rwa [List.cons_append, List.append_assoc] at parts

theorem isPassed_function {parameters ss : List Symbol} (inside : Nested parameters)
    (passed : IsPassed ss) : IsPassed (mark "(" :: (parameters ++ mark ")" :: mark "=>" :: ss)) := by
  have parts := (@IsPassed.bracket "(" _ (by decide) inside).append
    ((IsPassed.plain (s := mark "=>") (by decide)).append passed)
  rwa [List.cons_append, List.append_assoc] at parts

/-- Every bracket of a type has its partner in it. -/
theorem nested {level : TypeLevel} {ss : List Symbol} (isType : IsTypeAt level ss) : Nested ss := by
  induction isType with
  | name => exact nested_qualified _ _
  | query => exact .cons rfl (nested_qualified _ _)
  | generic _ _ ih =>
    exact (nested_qualified _ _).append (.cons rfl ((nested_separated ih).append (.cons rfl .nil)))
  | string | number => exact .plain rfl
  | negative => exact .cons rfl (.plain rfl)
  | object inside | tuple inside => exact .bracket (by decide) inside
  | parenthesized _ inside => exact .bracket (by decide) inside
  | indexed _ index ih => exact ih.append (.bracket (by decide) index)
  | union known _ _ _ ih ih' => exact ih.append (.cons (isPlain_sign known) ih')
  | leading known _ _ ih => exact .cons (isPlain_sign known) ih
  | modified _ _ ih => exact .cons rfl ih
  | function inside _ ih => exact nested_function inside ih
  | constructor inside _ ih => exact .cons rfl (nested_function inside ih)
  | conditional _ _ _ _ ih ih' yes no =>
    exact ih.append (.cons rfl (ih'.append (.cons rfl (yes.append (.cons rfl no)))))
  | whole _ ih => exact ih

/-- The search for the end of type arguments goes through a type. -/
theorem isPassed {level : TypeLevel} {ss : List Symbol} (isType : IsTypeAt level ss) : IsPassed ss := by
  have plain {s : Symbol} {ss : List Symbol} (argument : isArgument s = true) (passed : IsPassed ss) :
      IsPassed (s :: ss) := (IsPassed.plain argument).append passed
  induction isType with
  | name => exact isPassed_qualified _ _
  | query => exact plain rfl (isPassed_qualified _ _)
  | generic _ _ ih => exact (isPassed_qualified _ _).append (isPassed_separated ih).angle
  | string | number => exact plain rfl .nil
  | negative => exact plain (by decide) (plain rfl .nil)
  | object inside | tuple inside => exact .bracket (by decide) inside
  | parenthesized isType => exact .bracket (by decide) isType.nested
  | indexed _ index ih => exact ih.append (.bracket (by decide) index)
  | union known _ _ _ ih ih' => exact ih.append (plain (isArgument_sign known) ih')
  | leading known _ _ ih => exact plain (isArgument_sign known) ih
  | modified _ _ ih => exact plain rfl ih
  | function inside _ ih => exact isPassed_function inside ih
  | constructor inside _ ih => exact plain rfl (isPassed_function inside ih)
  | conditional _ _ _ _ ih ih' yes no =>
    exact ih.append (plain rfl (ih'.append (plain (by decide) (yes.append (plain (by decide) no)))))
  | whole _ ih => exact ih

end IsTypeAt

/-! ## How a type starts -/

/-- Whether a symbol starts a type, the signs of unions and intersections apart. -/
def Symbol.startsType (s : Symbol) : Bool :=
  s.kind != .punct || s.token.isOpener || s.text == "<" || s.text == "-"

theorem eq_sign_of_isPunct {s : Symbol} (isSign : (s.token.isPunct "|" || s.token.isPunct "&") = true) :
    ∃ sign ∈ unionSigns, s = mark sign := by
  obtain ⟨kind, text⟩ := s
  simp only [Symbol.token, Token.isPunct, Bool.or_eq_true, Bool.and_eq_true, beq_iff_eq] at isSign
  rcases isSign with ⟨rfl, rfl⟩ | ⟨rfl, rfl⟩
  · exact ⟨"|", by decide, rfl⟩
  · exact ⟨"&", by decide, rfl⟩

/-- A type starts with a sign or with a symbol that starts a type. -/
theorem IsTypeAt.exists_cons {level : TypeLevel} {ss : List Symbol} (isType : IsTypeAt level ss) :
    ∃ s rest, ss = s :: rest ∧ (s.startsType = true ∨ ∃ sign ∈ unionSigns, s = mark sign) := by
  induction isType with
  | name | generic | query | string | number | negative | object | tuple | parenthesized | modified
  | function | constructor => exact ⟨_, _, rfl, .inl rfl⟩
  | leading known => exact ⟨_, _, rfl, .inr ⟨_, known, rfl⟩⟩
  | indexed _ _ ih | union _ _ _ _ ih | conditional _ _ _ _ ih =>
    obtain ⟨s, rest, rfl, starts⟩ := ih
    exact ⟨s, _, rfl, starts⟩
  | whole _ ih => exact ih

namespace Erase.Program

variable {p : Program}

theorem Shows.startsType_eq {i : Nat} {s : Symbol} (shows : p.Shows i s) :
    p.startsType i = s.startsType :=
  shows.is_eq fun _ => rfl

/-- Whether the sign of a union or an intersection stands at a position. -/
def signAt (p : Program) (i : Nat) : Bool := p.isPunct i "|" || p.isPunct i "&"

theorem Shows.signAt_eq {i : Nat} {s : Symbol} (shows : p.Shows i s) :
    p.signAt i = (s.token.isPunct "|" || s.token.isPunct "&") := by
  rw [signAt, shows.isPunct_eq, shows.isPunct_eq]

theorem Shows.signAt_sign {i : Nat} {sign : String} (shows : p.Shows i (mark sign))
    (known : sign ∈ unionSigns) : p.signAt i = true := by
  rw [shows.signAt_eq]
  simp only [unionSigns, List.mem_cons, List.not_mem_nil, or_false] at known
  rcases known with rfl | rfl <;> rfl

theorem unionStop?_of_not_sign {i : Nat} (other : p.signAt i = false) :
    p.unionStop? i = (p.operandStop? i).bind p.operandsStop? := by
  rw [unionStop?_eq, ← signAt, other]
  rfl

theorem unionStop?_of_sign {i : Nat} (sign : p.signAt i = true) :
    p.unionStop? i = (p.operandStop? (i + 1)).bind p.operandsStop? := by
  rw [unionStop?_eq, ← signAt, if_pos sign]

theorem operandsStop?_of_sign {k : Nat} (sign : p.signAt k = true) :
    p.operandsStop? k = (p.operandStop? (k + 1)).bind p.operandsStop? := by
  rw [operandsStop?_eq, ← signAt, if_pos sign]

theorem operandsStop?_of_not_sign {k : Nat} (other : p.signAt k = false) :
    p.operandsStop? k = some k := by
  rw [operandsStop?_eq, ← signAt, other]
  rfl

theorem indexesStop_of_not_bracket {k : Nat} (other : p.isPunct k "[" = false) : p.indexesStop k = k := by
  rw [indexesStop_eq, other]
  exact if_neg fun index => Bool.false_ne_true index.1

/-- Whether symbols that do not start with a sign stand at a position. -/
theorem Reads.signAt_eq {i : Nat} {level : TypeLevel} {ss : List Symbol} (reads : p.Reads i ss)
    (isType : IsTypeAt level ss) (plain : leads ss = false) : p.signAt i = false := by
  obtain ⟨s, rest, rfl, -⟩ := isType.exists_cons
  rw [reads.1.signAt_eq]
  exact plain

/-! ## Single operands -/

/-- Whether what stands at a position does not go on with the operand before it, unless as an index. -/
def endsUnit (p : Program) (k : Nat) : Bool :=
  !p.isPunct k "." && !p.isPunct k "=>" && !p.isPunct k "<" && !p.isWord k "is"

/-- Whether what stands at a position does not go on with the type before it. -/
def endsWhole (p : Program) (k : Nat) : Bool :=
  p.endsUnit k && !p.isWord k "extends" && !p.signAt k && !p.isPunct k "["

theorem Shows.endsUnit_of_mark {k : Nat} {text : String} (shows : p.Shows k (mark text))
    (other : text ∉ [".", "=>", "<"]) : p.endsUnit k = true := by
  simp only [List.mem_cons, List.not_mem_nil, or_false, not_or] at other
  simp [endsUnit, shows.isPunct_eq, shows.isWord_eq, other]

theorem Shows.endsUnit_of_extends {k : Nat} (shows : p.Shows k (word "extends")) :
    p.endsUnit k = true := by
  simp [endsUnit, shows.isPunct_eq, shows.isWord_eq]

theorem Shows.endsWhole_of_mark {k : Nat} {text : String} (shows : p.Shows k (mark text))
    (other : text ∉ [".", "=>", "<", "|", "&", "["]) : p.endsWhole k = true := by
  simp only [List.mem_cons, List.not_mem_nil, or_false, not_or] at other
  simp [endsWhole, endsUnit, shows.isPunct_eq, shows.isWord_eq, shows.signAt_eq, other]

theorem Shows.endsWhole_of_word {k : Nat} {x : String} (shows : p.Shows k (word x))
    (other : x ∉ ["is", "extends"]) : p.endsWhole k = true := by
  simp only [List.mem_cons, List.not_mem_nil, or_false, not_or] at other
  simp [endsWhole, endsUnit, shows.isPunct_eq, shows.isWord_eq, shows.signAt_eq, other]

/-- A type predicate does not go on with an operand that ends. -/
theorem isWord_is_of_endsUnit {k : Nat} (ends : p.endsUnit k = true) : p.isWord k "is" = false := by
  simp only [endsUnit, Bool.and_eq_true, Bool.not_eq_true'] at ends
  exact ends.2

/-- A word that is no keyword of types starts the name of one. -/
theorem operandStop?_of_free {i : Nat} {first : String} (shows : p.Shows i (word first))
    (free : first ∉ typeKeywords) : p.operandStop? i = p.namedTypeStop? i := by
  simp only [typeKeywords, List.mem_cons, List.not_mem_nil, or_false, not_or] at free
  rw [operandStop?_eq]
  simp [shows.isOneOf_eq, shows.isWord_eq, shows.isPunct_eq, shows.isName_eq, typeModifiers, free]

/-- A type operand that starts with a qualified name ends behind its type arguments. -/
theorem operandStop?_of_qualified {i j k : Nat} {first : String} {segments : List String}
    (free : first ∉ typeKeywords) (reads : p.Reads i (qualified first segments))
    (place : i + 1 + 2 * segments.length = j) (noDot : p.isPunct j "." = false)
    (arguments : p.argumentsStop? true j = some k) (ends : p.endsUnit k = true) :
    p.operandStop? i = some (p.indexesStop k) := by
  have entity : p.entityStop? i = some j := by
    rw [← place] at noDot ⊢
    rw [entityStop?, reads.1.isName_eq, qualifiersStop_of_reads reads.2 noDot]
    rfl
  rw [operandStop?_of_free reads.1 free, namedTypeStop?_eq, entity, Option.bind_some, arguments,
    Option.bind_some, isWord_is_of_endsUnit ends]
  simp only [typeKeywords, List.mem_cons, List.not_mem_nil, or_false, not_or] at free
  simp [reads.1.isWord_eq, free]

/-- The type of a value ends behind the name of the value. -/
theorem operandStop?_of_query {i k : Nat} {first : String} {segments : List String}
    (reads : p.Reads i (word "typeof" :: qualified first segments))
    (place : i + 2 + 2 * segments.length = k) (ends : p.endsUnit k = true) :
    p.operandStop? i = some (p.indexesStop k) := by
  obtain ⟨query, name, rest⟩ := reads
  simp only [endsUnit, Bool.and_eq_true, Bool.not_eq_true'] at ends
  obtain ⟨⟨⟨noDot, -⟩, noAngle⟩, -⟩ := ends
  have entity : p.entityStop? (i + 1) = some k := by
    rw [← place] at noDot ⊢
    rw [entityStop?, name.isName_eq, qualifiersStop_of_reads rest noDot]
    rfl
  have arguments : p.argumentsStop? false k = some k := by
    rw [argumentsStop?, noAngle]
    rfl
  rw [operandStop?_eq]
  simp [query.isOneOf_eq, query.isWord_eq, query.isPunct_eq, query.isName_eq, typeModifiers,
    namedTypeStop?_eq, entity, arguments]

/-- In front of a sign a modifier is a name. -/
theorem operandStop?_of_modifier {i : Nat} {modifier sign : String}
    (known : modifier = "keyof" ∨ modifier = "readonly") (shows : p.Shows i (word modifier))
    (known' : sign ∈ unionSigns) (next : p.Shows (i + 1) (mark sign)) :
    p.operandStop? i = some (i + 1) := by
  have other : sign ∉ [".", "<", "["] ∧ (mark sign).startsType = false := by
    simp only [unionSigns, List.mem_cons, List.not_mem_nil, or_false] at known'
    rcases known' with rfl | rfl <;> decide
  obtain ⟨other, stops⟩ := other
  simp only [List.mem_cons, List.not_mem_nil, or_false, not_or] at other
  have entity : p.entityStop? i = some (i + 1) := by
    rw [entityStop?, shows.isName_eq, qualifiersStop_eq, next.isPunct_eq]
    simp [other]
  have arguments : p.argumentsStop? true (i + 1) = some (i + 1) := by
    rw [argumentsStop?, next.isPunct_eq]
    simp [other]
  have index : p.indexesStop (i + 1) = i + 1 :=
    indexesStop_of_not_bracket (by rw [next.isPunct_eq]; simp [other])
  rw [operandStop?_eq]
  rcases known with rfl | rfl <;>
    simp [shows.isWord_eq, shows.isPunct_eq, shows.isName_eq, next.startsType_eq, stops,
      namedTypeStop?_eq, entity, arguments, next.isWord_eq, index]

/-- What stands behind a modifier is looked at as if the modifier was not there. -/
theorem unionStop?_of_modifier {i : Nat} {modifier : String} {level : TypeLevel} {ss : List Symbol}
    (known : modifier = "keyof" ∨ modifier = "readonly") (shows : p.Shows i (word modifier))
    (isType : IsTypeAt level ss) (reads : p.Reads (i + 1) ss) : p.unionStop? i = p.unionStop? (i + 1) := by
  have modifies : p.isOneOf i typeModifiers = true := by
    rw [shows.isOneOf_eq]
    rcases known with rfl | rfl <;> rfl
  rw [unionStop?_of_not_sign shows.signAt_eq]
  obtain ⟨s, rest, rfl, starts⟩ := isType.exists_cons
  by_cases sign : ∃ sign ∈ unionSigns, s = mark sign
  · obtain ⟨sign, known', rfl⟩ := sign
    rw [operandStop?_of_modifier known shows known' reads.1, Option.bind_some,
      operandsStop?_of_sign (reads.1.signAt_sign known'), unionStop?_of_sign (reads.1.signAt_sign known')]
  · have starts : p.startsType (i + 1) = true := reads.1.startsType_eq.trans (starts.resolve_right sign)
    have noSign : p.signAt (i + 1) = false := by
      rw [reads.1.signAt_eq, Bool.eq_false_iff]
      exact fun isSign => sign (eq_sign_of_isPunct isSign)
    rw [unionStop?_of_not_sign noSign, operandStop?_eq, if_pos ⟨modifies, starts⟩]

/-! ## Whole types -/

/-- Whether the search for the end of a type from one position on leads to another, which lies behind a
type of some level. -/
def Reaches (p : Program) (i k : Nat) : TypeLevel → Prop
  | .union => p.endsUnit k = true → p.unionStop? i = p.operandsStop? (p.indexesStop k)
  | .whole => p.endsWhole k = true → p.typeStop? i = some k

/-- The union at a position that no sign stands at starts with the operand there. -/
theorem reaches_union {i k : Nat} (noSign : p.signAt i = false)
    (operand : p.endsUnit k = true → p.operandStop? i = some (p.indexesStop k)) : p.Reaches i k .union := by
  intro ends
  rw [unionStop?_of_not_sign noSign, operand ends]
  rfl

/-- The operand that opens with a bracket ends behind it. -/
theorem reaches_bracket (matched : matchBrackets p.tokens = .ok p.partners) {opener : String}
    (among : opener ∈ openers) {ss : List Symbol} (inside : Nested ss) {i k : Nat}
    (reads : p.Reads i (mark opener :: (ss ++ [mark (closerOf opener)])))
    (place : i + (mark opener :: (ss ++ [mark (closerOf opener)])).length = k) : p.Reaches i k .union := by
  have close : p.close i + 1 = k := (reads.close_succ matched among inside).trans place
  refine reaches_union ?_ fun ends => ?_
  · rw [reads.1.signAt_eq]
    simp only [openers, List.mem_cons, List.not_mem_nil, or_false] at among
    rcases among with rfl | rfl | rfl <;> decide
  · simp only [endsUnit, Bool.and_eq_true, Bool.not_eq_true'] at ends
    have noArrow : p.isPunct (p.close i + 1) "=>" = false := by rw [close, ends.1.1.2]
    rw [← close]
    simp only [openers, List.mem_cons, List.not_mem_nil, or_false] at among
    rcases among with rfl | among
    · exact operandStop?_of_parenthesis reads.1 noArrow
    · exact operandStop?_of_bracket among reads.1

/-- A function type ends where its result does. -/
theorem operandStop?_of_function (matched : matchBrackets p.tokens = .ok p.partners)
    {parameters ss : List Symbol} (inside : Nested parameters) {i j : Nat}
    (reads : p.Reads i (mark "(" :: (parameters ++ mark ")" :: mark "=>" :: ss)))
    (result : i + parameters.length + 3 = j) :
    p.operandStop? i = p.typeStop? j ∧ p.functionTypeStop? i = p.typeStop? j ∧ p.Reads j ss := by
  have parts : mark "(" :: (parameters ++ mark ")" :: mark "=>" :: ss) =
      (mark "(" :: (parameters ++ [mark (closerOf "(")])) ++ mark "=>" :: ss := by simp [closerOf]
  rw [parts] at reads
  obtain ⟨bracket, arrow, rest⟩ := reads_append.mp reads
  have close := bracket.close_eq matched (by decide) inside
  have last : p.close i + 2 = j := by omega
  rw [← bracket.close_succ matched (by decide) inside] at arrow rest
  refine ⟨?_, ?_, last ▸ rest⟩
  · rw [operandStop?_eq]
    simp [bracket.1.isOneOf_eq, bracket.1.isWord_eq, bracket.1.isPunct_eq, arrow.isPunct_eq, last]
  · rw [functionTypeStop?_eq, signatureStop?_eq]
    simp [bracket.1.isPunct_eq, arrow.isPunct_eq, last]

/-- A constructor type ends where its result does. -/
theorem operandStop?_of_constructor {i : Nat} (shows : p.Shows i (word "new"))
    (opens : p.Shows (i + 1) (mark "(")) : p.operandStop? i = p.functionTypeStop? (i + 1) := by
  rw [operandStop?_eq]
  simp [shows.isOneOf_eq, shows.isWord_eq, opens.isPunct_eq, typeModifiers]

/-- Nothing goes on with a type where it ends. -/
theorem operandsStop?_of_endsWhole {k : Nat} (ends : p.endsWhole k = true) :
    p.operandsStop? (p.indexesStop k) = some k := by
  simp only [endsWhole, Bool.and_eq_true, Bool.not_eq_true'] at ends
  rw [indexesStop_of_not_bracket ends.2, operandsStop?_of_not_sign ends.1.2]

/-- A type that is not gone on with ends with the union that it starts with. -/
theorem typeStop?_of_union {i k : Nat} (ends : p.endsWhole k = true)
    (union : p.unionStop? i = some k) : p.typeStop? i = some k := by
  simp only [endsWhole, Bool.and_eq_true, Bool.not_eq_true'] at ends
  rw [typeStop?_eq, union, Option.bind_some]
  refine if_neg fun conditional => ?_
  rw [conditional.1] at ends
  cases ends.1.1.2

/-- A type that goes on to the end of another one ends there. -/
theorem reaches_result {i j k : Nat} (noSign : p.signAt i = false) (same : p.operandStop? i = p.typeStop? j)
    (result : p.Reaches j k .whole) : p.Reaches i k .whole := by
  intro ends
  have operands := operandsStop?_of_endsWhole ends
  simp only [endsWhole, Bool.and_eq_true, Bool.not_eq_true'] at ends
  rw [indexesStop_of_not_bracket ends.2] at operands
  refine typeStop?_of_union (by simp [endsWhole, ends]) ?_
  rw [unionStop?_of_not_sign noSign, same, result (by simp [endsWhole, ends]), Option.bind_some, operands]

/-- A conditional type ends where the second of its results does. -/
theorem reaches_conditional {i a b c d : Nat} (checked : p.Reaches i a .union)
    (extends_ : p.Shows a (word "extends")) (bound : p.Reaches (a + 1) b .union)
    (question : p.Shows b (mark "?")) (yes : p.Reaches (b + 1) c .whole) (colon : p.Shows c (mark ":"))
    (no : p.Reaches (c + 1) d .whole) : p.Reaches i d .whole := by
  intro ends
  have stays {k : Nat} {s : Symbol} (shows : p.Shows k s)
      (other : s.token.isPunct "[" = false ∧ (s.token.isPunct "|" || s.token.isPunct "&") = false) :
      p.operandsStop? (p.indexesStop k) = some k := by
    rw [indexesStop_of_not_bracket (shows.isPunct_eq _ ▸ other.1),
      operandsStop?_of_not_sign (shows.signAt_eq ▸ other.2)]
  have first : p.unionStop? i = some a :=
    (checked extends_.endsUnit_of_extends).trans (stays extends_ ⟨rfl, rfl⟩)
  have second : p.unionStop? (a + 1) = some b :=
    (bound (question.endsUnit_of_mark (by decide))).trans (stays question ⟨rfl, rfl⟩)
  have third : p.typeStop? (b + 1) = some c := yes (colon.endsWhole_of_mark (by decide))
  rw [typeStop?_eq, first, Option.bind_some, extends_.isWord_eq, extends_.newlineBefore_eq, second,
    Option.elim_some, question.isPunct_eq, third, Option.bind_some, colon.isPunct_eq]
  exact no ends

/-- The search for the end of a type leads behind it. -/
theorem reaches_of_isTypeAt (matched : matchBrackets p.tokens = .ok p.partners) {level : TypeLevel}
    {ss : List Symbol} (isType : IsTypeAt level ss) {i k : Nat} (reads : p.Reads i ss)
    (place : i + ss.length = k) : p.Reaches i k level := by
  induction isType generalizing i k with
  | @name first segments free =>
    rw [length_qualified, ← Nat.add_assoc] at place
    refine reaches_union reads.1.signAt_eq fun ends => ?_
    have ends' := ends
    simp only [endsUnit, Bool.and_eq_true, Bool.not_eq_true'] at ends'
    obtain ⟨⟨⟨noDot, -⟩, noAngle⟩, -⟩ := ends'
    have arguments : p.argumentsStop? true k = some k := by
      rw [argumentsStop?, noAngle]
      rfl
    exact operandStop?_of_qualified free reads place noDot arguments ends
  | @generic first segments arguments free all _ =>
    obtain ⟨name, opener, rest⟩ := reads_append.mp reads
    obtain ⟨inside, closer, -⟩ := reads_append.mp rest
    rw [length_qualified, ← Nat.add_assoc] at opener inside closer
    have last : i + 1 + 2 * segments.length + 1 + (separated arguments).length + 1 = k := by
      rw [← place, List.length_append, length_qualified]
      simp only [List.length_cons, List.length_append, List.length_nil]
      omega
    have stop : p.argumentsStop? true (i + 1 + 2 * segments.length) = some k := by
      have passed := isPassed_separated (fun ss mem => (all ss mem).isPassed) p matched 0 _ inside
      rw [argumentsStop?, opener.isPunct_eq, opener.newlineBefore_eq, passed, closer.angleStop?_closer,
        ← last]
      rfl
    refine reaches_union name.1.signAt_eq fun ends => ?_
    exact operandStop?_of_qualified free name rfl (opener.isPunct_eq ".") stop ends
  | string text =>
    refine reaches_union reads.1.signAt_eq fun _ => ?_
    rw [← place]
    exact operandStop?_of_literal reads.1 (.inl rfl)
  | number text =>
    refine reaches_union reads.1.signAt_eq fun _ => ?_
    rw [← place]
    exact operandStop?_of_literal reads.1 (.inr rfl)
  | negative text =>
    refine reaches_union reads.1.signAt_eq fun _ => ?_
    rw [← place]
    exact operandStop?_of_negative reads.1 reads.2.1 rfl
  | object inside => exact reaches_bracket matched (by decide) inside reads place
  | tuple inside => exact reaches_bracket matched (by decide) inside reads place
  | parenthesized isType => exact reaches_bracket matched (by decide) isType.nested reads place
  | @indexed ss index isType inside ih =>
    intro ends
    obtain ⟨front, reads⟩ := reads_append.mp reads
    have close : p.close (i + ss.length) + 1 = k := by
      rw [← place, List.length_append, ← Nat.add_assoc]
      exact reads.close_succ matched (by decide) inside
    rw [ih front rfl (reads.1.endsUnit_of_mark (by decide)), indexesStop_eq, reads.1.isPunct_eq,
      reads.1.newlineBefore_eq, if_pos (by decide), close]
  | @union sign ss ts known isType isType' follows ih ih' =>
    intro ends
    obtain ⟨front, reads⟩ := reads_append.mp reads
    have place : i + ss.length + 1 + ts.length = k := by
      rw [← place, List.length_append, List.length_cons]
      omega
    have isSign := reads.1.signAt_sign known
    have ends' : p.endsUnit (i + ss.length) = true := by
      simp only [unionSigns, List.mem_cons, List.not_mem_nil, or_false] at known
      rcases known with rfl | rfl <;> exact reads.1.endsUnit_of_mark (by decide)
    have stays : p.indexesStop (i + ss.length) = i + ss.length := by
      refine indexesStop_of_not_bracket (reads.1.isPunct_eq "[" |>.trans ?_)
      simp only [unionSigns, List.mem_cons, List.not_mem_nil, or_false] at known
      rcases known with rfl | rfl <;> rfl
    rw [ih front rfl ends', stays, operandsStop?_of_sign isSign,
      ← unionStop?_of_not_sign (reads.2.signAt_eq isType' follows)]
    exact ih' reads.2 place ends
  | @leading sign ss known isType follows ih =>
    intro ends
    have isSign := reads.1.signAt_sign known
    have noSign := reads.2.signAt_eq isType follows
    rw [unionStop?_of_sign isSign, ← unionStop?_of_not_sign noSign]
    refine ih reads.2 ?_ ends
    rw [← place, List.length_cons]
    omega
  | @modified modifier level ss known isType ih =>
    have same := unionStop?_of_modifier known reads.1 isType reads.2
    have further := ih (k := k) reads.2 (by rw [← place, List.length_cons]; omega)
    cases level with
    | union => exact fun ends => same.trans (further ends)
    | whole =>
      intro ends
      rw [typeStop?_eq, same, ← typeStop?_eq]
      exact further ends
  | @query first segments =>
    refine reaches_union reads.1.signAt_eq fun ends => operandStop?_of_query reads ?_ ends
    rw [← place, List.length_cons, length_qualified]
    omega
  | @function parameters ss inside _ ih =>
    obtain ⟨same, -, result⟩ := operandStop?_of_function matched inside reads rfl
    refine reaches_result reads.1.signAt_eq same (ih result ?_)
    rw [← place]
    simp only [List.length_cons, List.length_append]
    omega
  | @constructor parameters ss inside _ ih =>
    obtain ⟨-, same, result⟩ := operandStop?_of_function matched inside reads.2 rfl
    have starts := operandStop?_of_constructor reads.1 reads.2.1
    refine reaches_result reads.1.signAt_eq (starts.trans same) (ih result ?_)
    rw [← place]
    simp only [List.length_cons, List.length_append]
    omega
  | @conditional checked bound yes no _ _ _ _ ih ih' yesIh noIh =>
    obtain ⟨first, extends_, reads⟩ := reads_append.mp reads
    obtain ⟨second, question, reads⟩ := reads_append.mp reads
    obtain ⟨third, colon, fourth⟩ := reads_append.mp reads
    refine reaches_conditional (ih first rfl) extends_ (ih' second rfl) question (yesIh third rfl) colon
      (noIh fourth ?_)
    rw [← place]
    simp only [List.length_cons, List.length_append]
    omega
  | whole _ ih =>
    intro ends
    have unit : p.endsUnit k = true := by
      simp only [endsWhole, Bool.and_eq_true] at ends
      exact ends.1.1.1
    exact typeStop?_of_union ends ((ih reads place unit).trans (operandsStop?_of_endsWhole ends))

/-- A type ends behind its symbols where nothing goes on with it. -/
theorem typeStop?_of_isTypeAt (matched : matchBrackets p.tokens = .ok p.partners) {ss : List Symbol}
    (isType : IsTypeAt .whole ss) {i : Nat} (reads : p.Reads i ss)
    (ends : p.endsWhole (i + ss.length) = true) : p.typeStop? i = some (i + ss.length) :=
  reaches_of_isTypeAt matched isType reads rfl ends

end Erase.Program

end ModuleLinker
