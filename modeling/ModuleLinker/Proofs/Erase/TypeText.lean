import Mathlib
import ModuleLinker.Proofs.Erase.Program
import ModuleLinker.Proofs.Erase.TypeEnd
import ModuleLinker.Proofs.Source.Brackets

/-!
# Types as they are written

The symbols of a type that is built from names, type arguments, arrays, tuples, unions, object types
and literals (`IsType`). Where a program shows these symbols on one line, the search for the end of a
type stops right behind them, if what stands there does not go on with the type (`typeStop?_of_isType`).
-/

set_option autoImplicit false

namespace ModuleLinker

namespace Symbol

@[simp] theorem kind_word (name : String) : (word name).kind = .ident := rfl

@[simp] theorem text_word (name : String) : (word name).text = name := rfl

@[simp] theorem kind_mark (mark' : String) : (mark mark').kind = .punct := rfl

@[simp] theorem isPunct_token_word (name text : String) : (word name).token.isPunct text = false := rfl

@[simp] theorem isWord_token_word (name text : String) :
    (word name).token.isWord text = (name == text) :=
  rfl

@[simp] theorem isPunct_token_mark (mark' text : String) :
    (mark mark').token.isPunct text = (mark' == text) :=
  rfl

@[simp] theorem isWord_token_mark (mark' text : String) : (mark mark').token.isWord text = false := rfl

end Symbol

namespace Erase

/-! ## Symbols of a program -/

namespace Program

/-- Whether a symbol stands at a position. -/
def Has (p : Program) (i : Nat) (s : Symbol) : Prop := ∃ t, p.tokens[i]? = some t ∧ t.symbol = s

/-- Whether symbols stand from a position on. -/
def HasAll (p : Program) : Nat → List Symbol → Prop
  | _, [] => True
  | i, s :: ss => p.Has i s ∧ HasAll p (i + 1) ss

/-- Whether a symbol stands at a position, on the line of the token before it. -/
def Shows (p : Program) (i : Nat) (s : Symbol) : Prop :=
  ∃ t, p.tokens[i]? = some t ∧ t.symbol = s ∧ t.newlineBefore = false

/-- Whether symbols stand from a position on, on one line. -/
def Reads (p : Program) : Nat → List Symbol → Prop
  | _, [] => True
  | i, s :: ss => p.Shows i s ∧ Reads p (i + 1) ss

variable {p : Program}

theorem hasAll_append {i : Nat} {ss ts : List Symbol} :
    p.HasAll i (ss ++ ts) ↔ p.HasAll i ss ∧ p.HasAll (i + ss.length) ts := by
  induction ss generalizing i with
  | nil => simp [HasAll]
  | cons s ss ih =>
    have place : i + (ss.length + 1) = i + 1 + ss.length := by omega
    rw [List.cons_append, HasAll, HasAll, ih, List.length_cons, place, and_assoc]

theorem reads_append {i : Nat} {ss ts : List Symbol} :
    p.Reads i (ss ++ ts) ↔ p.Reads i ss ∧ p.Reads (i + ss.length) ts := by
  induction ss generalizing i with
  | nil => simp [Reads]
  | cons s ss ih =>
    have place : i + (ss.length + 1) = i + 1 + ss.length := by omega
    rw [List.cons_append, Reads, Reads, ih, List.length_cons, place, and_assoc]

namespace Has

variable {i : Nat} {s : Symbol} (has : p.Has i s)
include has

theorem kind?_eq : p.kind? i = some s.kind := by
  obtain ⟨t, found, rfl⟩ := has
  rw [kind?, found]
  rfl

theorem text_eq : p.text i = s.text := by
  obtain ⟨t, found, rfl⟩ := has
  rw [text, found]
  rfl

theorem is_eq {property : Token → Bool} (same : ∀ t : Token, property t = property t.symbol.token) :
    p.is i property = property s.token := by
  obtain ⟨t, found, rfl⟩ := has
  rw [is, found]
  exact same t

theorem isPunct_eq (text : String) : p.isPunct i text = s.token.isPunct text :=
  has.is_eq fun _ => rfl

theorem isWord_eq (text : String) : p.isWord i text = s.token.isWord text :=
  has.is_eq fun _ => rfl

theorem isName_eq : p.isName i = (s.kind == .ident) :=
  has.is_eq fun _ => rfl

theorem isOneOf_eq (words : List String) :
    p.isOneOf i words = (s.kind == .ident && words.contains s.text) :=
  has.is_eq fun _ => rfl

end Has

theorem Shows.has {i : Nat} {s : Symbol} (shows : p.Shows i s) : p.Has i s := by
  obtain ⟨t, found, same, -⟩ := shows
  exact ⟨t, found, same⟩

theorem Reads.hasAll {i : Nat} {ss : List Symbol} (reads : p.Reads i ss) : p.HasAll i ss := by
  induction ss generalizing i with
  | nil => trivial
  | cons s ss ih => exact ⟨reads.1.has, ih reads.2⟩

namespace Shows

variable {i : Nat} {s : Symbol} (shows : p.Shows i s)
include shows

theorem kind?_eq : p.kind? i = some s.kind := shows.has.kind?_eq

theorem text_eq : p.text i = s.text := shows.has.text_eq

theorem newlineBefore_eq : p.newlineBefore i = false := by
  obtain ⟨t, found, -, line⟩ := shows
  rw [newlineBefore, found]
  exact line

theorem is_eq {property : Token → Bool} (same : ∀ t : Token, property t = property t.symbol.token) :
    p.is i property = property s.token := shows.has.is_eq same

theorem isPunct_eq (text : String) : p.isPunct i text = s.token.isPunct text :=
  shows.has.isPunct_eq text

theorem isWord_eq (text : String) : p.isWord i text = s.token.isWord text :=
  shows.has.isWord_eq text

theorem isName_eq : p.isName i = (s.kind == .ident) := shows.has.isName_eq

theorem isOneOf_eq (words : List String) :
    p.isOneOf i words = (s.kind == .ident && words.contains s.text) := shows.has.isOneOf_eq words

end Shows

/-- The tokens of symbols that stand in a program, between those before and those behind them. -/
theorem HasAll.split {i : Nat} {ss : List Symbol} (has : p.HasAll i ss) (inside : i ≤ p.tokens.size) :
    ∃ front middle back, p.tokens.toList = front ++ (middle ++ back) ∧ front.length = i ∧
      middle.map Token.symbol = ss := by
  induction ss generalizing i with
  | nil =>
    refine ⟨p.tokens.toList.take i, [], p.tokens.toList.drop i, ?_, ?_, rfl⟩
    · rw [List.nil_append, List.take_append_drop]
    · simpa using inside
  | cons s ss ih =>
    obtain ⟨⟨t, found, rfl⟩, rest⟩ := has
    obtain ⟨less, same⟩ := Array.getElem?_eq_some_iff.mp found
    obtain ⟨front, middle, back, whole, length, symbols⟩ := ih rest less
    obtain ⟨front', last, rfl⟩ : ∃ front' last, front = front' ++ [last] := by
      cases front using List.reverseRecOn with
      | nil => simp at length
      | append_singleton front' last => exact ⟨front', last, rfl⟩
    have length' : front'.length = i := by simpa using length
    have isLast : last = t := by
      rw [← same, ← Array.getElem_toList, ← Option.some_inj, ← List.getElem?_eq_getElem]
      rw [whole, ← length']
      simp
    refine ⟨front', t :: middle, back, ?_, length', ?_⟩
    · rw [whole, isLast]
      simp
    · rw [List.map_cons, symbols]

/-- An opening bracket has its partner behind what stands in the bracket. -/
theorem HasAll.partner_eq {i : Nat} {opener : String} {ss : List Symbol}
    (matched : matchBrackets p.tokens = .ok p.partners) (among : opener ∈ openers) (nested : Nested ss)
    (has : p.HasAll i (.mark opener :: (ss ++ [.mark (closerOf opener)]))) :
    p.partners[i]? = some (some (i + 1 + ss.length)) := by
  obtain ⟨t, found, -⟩ := has.1
  obtain ⟨less, -⟩ := Array.getElem?_eq_some_iff.mp found
  obtain ⟨front, middle, back, whole, rfl, symbols⟩ := has.split less.le
  obtain ⟨o, rest, rfl, opens, symbols⟩ := List.map_eq_cons_iff.mp symbols
  obtain ⟨inner, tail, rfl, rfl, ends⟩ := List.map_eq_append_iff.mp symbols
  obtain ⟨c, tail', rfl, closes, none⟩ := List.map_eq_cons_iff.mp ends
  obtain rfl := List.map_eq_nil_iff.mp none
  rw [List.length_map]
  exact partner_of_nested matched among whole opens closes nested

theorem HasAll.close_eq {i : Nat} {opener : String} {ss : List Symbol}
    (matched : matchBrackets p.tokens = .ok p.partners) (among : opener ∈ openers) (nested : Nested ss)
    (has : p.HasAll i (.mark opener :: (ss ++ [.mark (closerOf opener)]))) :
    p.close i = i + 1 + ss.length := by
  rw [close, has.partner_eq matched among nested]
  exact Nat.max_eq_left (by omega)

theorem Reads.close_eq {i : Nat} {opener : String} {ss : List Symbol}
    (matched : matchBrackets p.tokens = .ok p.partners) (among : opener ∈ openers) (nested : Nested ss)
    (reads : p.Reads i (.mark opener :: (ss ++ [.mark (closerOf opener)]))) :
    p.close i = i + 1 + ss.length := reads.hasAll.close_eq matched among nested

/-- A bracket ends behind the partner of its opener. -/
theorem HasAll.close_succ {i : Nat} {opener : String} {ss : List Symbol}
    (matched : matchBrackets p.tokens = .ok p.partners) (among : opener ∈ openers) (nested : Nested ss)
    (has : p.HasAll i (.mark opener :: (ss ++ [.mark (closerOf opener)]))) :
    p.close i + 1 = i + (.mark opener :: (ss ++ [.mark (closerOf opener)])).length := by
  rw [has.close_eq matched among nested]
  simp only [List.length_cons, List.length_append, List.length_nil]
  omega

theorem Reads.close_succ {i : Nat} {opener : String} {ss : List Symbol}
    (matched : matchBrackets p.tokens = .ok p.partners) (among : opener ∈ openers) (nested : Nested ss)
    (reads : p.Reads i (.mark opener :: (ss ++ [.mark (closerOf opener)]))) :
    p.close i + 1 = i + (.mark opener :: (ss ++ [.mark (closerOf opener)])).length :=
  reads.hasAll.close_succ matched among nested

/-- What is read in a bracket stands up to the partner of its opener. -/
theorem Reads.inside {i : Nat} {opener : String} {ss : List Symbol}
    (matched : matchBrackets p.tokens = .ok p.partners) (among : opener ∈ openers) (nested : Nested ss)
    (reads : p.Reads i (.mark opener :: (ss ++ [.mark (closerOf opener)]))) :
    p.Reads (i + 1) ss ∧ i + 1 + ss.length = p.close i ∧
      p.Shows (p.close i) (.mark (closerOf opener)) := by
  obtain ⟨inside, closer, -⟩ := reads_append.mp reads.2
  have close := reads.close_eq matched among nested
  exact ⟨inside, close.symm, close ▸ closer⟩

end Program

/-! ## The grammar -/

/-- The words that a type does not start with as a name, since they go on with the type behind them. -/
def typeOperators : List String := [
  "keyof", "unique", "readonly", "infer", "typeof", "import", "new"]

/-- Symbol lists with commas between them. -/
def separated : List (List Symbol) → List Symbol
  | [] => []
  | [ss] => ss
  | ss :: rest => ss ++ .mark "," :: separated rest

/-- Whether symbols make up a type of names, type arguments, arrays, tuples, unions, object types and
literals. What stands in the brackets of a tuple or of an object type may be anything in which every
bracket has its partner. -/
inductive IsType : List Symbol → Prop
  /-- A name, which may be qualified. -/
  | name {first : String} {segments : List String} : first ∉ typeOperators →
      IsType (.word first :: segments.flatMap fun name => [.mark ".", .word name])
  /-- A name with type arguments. -/
  | generic {first : String} {segments : List String} {arguments : List (List Symbol)} :
      first ∉ typeOperators → arguments ≠ [] → (∀ ss ∈ arguments, IsType ss) →
      IsType ((.word first :: segments.flatMap fun name => [.mark ".", .word name]) ++
        .mark "<" :: (separated arguments ++ [.mark ">"]))
  /-- An array type. -/
  | array {ss : List Symbol} : IsType ss → IsType (ss ++ [.mark "[", .mark "]"])
  /-- A tuple type. -/
  | tuple {ss : List Symbol} : Nested ss → IsType (.mark "[" :: (ss ++ [.mark "]"]))
  /-- A type in parentheses. -/
  | parenthesized {ss : List Symbol} : IsType ss → IsType (.mark "(" :: (ss ++ [.mark ")"]))
  /-- A union type. -/
  | union {ss ts : List Symbol} : IsType ss → IsType ts → IsType (ss ++ .mark "|" :: ts)
  /-- An object type. -/
  | object {ss : List Symbol} : Nested ss → IsType (.mark openBrace :: (ss ++ [.mark closeBrace]))
  /-- A string that is a type. -/
  | string (text : String) : IsType [⟨.string, text⟩]
  /-- A number that is a type. -/
  | number (text : String) : IsType [⟨.number, text⟩]
  /-- A number below zero that is a type. -/
  | negative (text : String) : IsType [.mark "-", ⟨.number, text⟩]

/-! ## Brackets -/

theorem nested_of_isPlain {ss : List Symbol} (plain : ∀ s ∈ ss, s.isPlain = true) : Nested ss := by
  induction ss with
  | nil => exact .nil
  | cons s ss ih =>
    rw [List.forall_mem_cons] at plain
    exact .cons plain.1 (ih plain.2)

theorem nested_separated {arguments : List (List Symbol)} (nested : ∀ ss ∈ arguments, Nested ss) :
    Nested (separated arguments) := by
  fun_induction separated arguments with
  | case1 => exact .nil
  | case2 ss => exact nested ss List.mem_cons_self
  | case3 ss rest _ ih =>
    rw [List.forall_mem_cons] at nested
    exact nested.1.append (.cons (by decide) (ih nested.2))

/-- The symbols of a qualified name are no brackets. -/
theorem nested_qualified (first : String) (segments : List String) :
    Nested (.word first :: segments.flatMap fun name => [.mark ".", .word name]) := by
  refine nested_of_isPlain fun s mem => ?_
  simp only [List.mem_cons, List.mem_flatMap, List.not_mem_nil, or_false] at mem
  obtain rfl | ⟨name, -, rfl | rfl⟩ := mem <;> rfl

theorem IsType.nested {ss : List Symbol} (isType : IsType ss) : Nested ss := by
  induction isType with
  | name => exact nested_qualified ..
  | generic _ _ _ ih =>
    exact (nested_qualified _ _).append
      (.cons (by decide) ((nested_separated ih).append (.cons (by decide) .nil)))
  | array _ ih => exact ih.append (.bracket (by decide) .nil)
  | tuple inside => exact .bracket (by decide) inside
  | parenthesized _ ih => exact .bracket (by decide) ih
  | union _ _ ih ih' => exact ih.append (.cons (by decide) ih')
  | object inside => exact .bracket (by decide) inside
  | string => exact .plain rfl
  | number => exact .plain rfl
  | negative => exact .cons (by decide) (.plain rfl)

/-! ## Type arguments -/

theorem Program.Shows.angleStop?_opener {p : Program} {i : Nat} (shows : p.Shows i (.mark "<"))
    (depth : Nat) : p.angleStop? depth i = p.angleStop? (depth + 1) (i + 1) := by
  obtain ⟨⟨kind, start, text, newline, holes⟩, found, same, -⟩ := shows
  cases same
  rw [Program.angleStop?_eq, found]
  rfl

theorem Program.Shows.angleStop?_closer {p : Program} {i : Nat} (shows : p.Shows i (.mark ">"))
    (depth : Nat) : p.angleStop? depth i =
      if depth = 0 then some (i + 1) else p.angleStop? (depth - 1) (i + 1) := by
  obtain ⟨⟨kind, start, text, newline, holes⟩, found, same, -⟩ := shows
  cases same
  rw [Program.angleStop?_eq, found]
  rfl

/-- Whether the search for the end of type arguments is on behind symbols where it is before them. -/
def IsPassed (ss : List Symbol) : Prop :=
  ∀ p : Program, matchBrackets p.tokens = .ok p.partners → ∀ depth i, p.Reads i ss →
    p.angleStop? depth i = p.angleStop? depth (i + ss.length)

/-- Whether a symbol can stand in type arguments and is no bracket. -/
def isArgument (s : Symbol) : Bool :=
  s.kind != .regex && (s.kind != .punct || Program.typeArgumentPuncts.contains s.text)

namespace IsPassed

theorem nil : IsPassed [] := fun _ _ _ _ _ => rfl

theorem append {ss ts : List Symbol} (first : IsPassed ss) (second : IsPassed ts) :
    IsPassed (ss ++ ts) := by
  intro p matched depth i reads
  obtain ⟨reads, reads'⟩ := Program.reads_append.mp reads
  rw [first p matched depth i reads, second p matched depth _ reads', List.length_append,
    Nat.add_assoc]

theorem plain {s : Symbol} (argument : isArgument s = true) : IsPassed [s] := by
  intro p matched depth i reads
  obtain ⟨t, found, rfl, -⟩ := reads.1
  obtain ⟨kind, start, text, newline, holes⟩ := t
  rw [Program.angleStop?_eq, found, Option.bind_some]
  cases kind
  case punct =>
    have among : text ∈ Program.typeArgumentPuncts := by simpa [isArgument, Token.symbol] using argument
    simp only [Program.typeArgumentPuncts, List.mem_cons, List.not_mem_nil, or_false] at among
    rcases among with rfl | rfl | rfl | rfl | rfl | rfl | rfl | rfl | rfl | rfl <;> rfl
  case regex => cases argument
  all_goals rfl

theorem bracket {opener : String} {ss : List Symbol} (among : opener ∈ openers) (nested : Nested ss) :
    IsPassed (.mark opener :: (ss ++ [.mark (closerOf opener)])) := by
  intro p matched depth i reads
  have place := reads.close_succ matched among nested
  obtain ⟨t, found, same, -⟩ := reads.1
  obtain ⟨opens, text⟩ := Token.isOpener_of_mark among same
  have noAngle : t.isPunct "<" = false ∧ t.isPunct ">" = false := by
    rw [Token.isPunct, Token.isPunct, text]
    simp only [openers, List.mem_cons, List.not_mem_nil, or_false] at among
    rcases among with rfl | rfl | rfl <;> simp [openBrace]
  rw [Program.angleStop?_eq, found, Option.bind_some, noAngle.1, noAngle.2, opens, place]
  rfl

theorem angle {ss : List Symbol} (passed : IsPassed ss) :
    IsPassed (.mark "<" :: (ss ++ [.mark ">"])) := by
  intro p matched depth i reads
  obtain ⟨inside, last⟩ := Program.reads_append.mp reads.2
  have place : i + 1 + ss.length + 1 = i + (.mark "<" :: (ss ++ [Symbol.mark ">"])).length := by
    simp only [List.length_cons, List.length_append, List.length_nil]
    omega
  rw [reads.1.angleStop?_opener, passed p matched _ _ inside, last.1.angleStop?_closer,
    if_neg (Nat.succ_ne_zero depth), Nat.add_sub_cancel, place]

end IsPassed

theorem isPassed_of_isArgument {ss : List Symbol} (arguments : ∀ s ∈ ss, isArgument s = true) :
    IsPassed ss := by
  induction ss with
  | nil => exact .nil
  | cons s ss ih =>
    rw [List.forall_mem_cons] at arguments
    exact (IsPassed.plain arguments.1).append (ih arguments.2)

theorem isPassed_separated {arguments : List (List Symbol)} (passed : ∀ ss ∈ arguments, IsPassed ss) :
    IsPassed (separated arguments) := by
  fun_induction separated arguments with
  | case1 => exact .nil
  | case2 ss => exact passed ss List.mem_cons_self
  | case3 ss rest _ ih =>
    rw [List.forall_mem_cons] at passed
    exact passed.1.append ((IsPassed.plain (by decide)).append (ih passed.2))

/-- The search for the end of type arguments goes through a qualified name. -/
theorem isPassed_qualified (first : String) (segments : List String) :
    IsPassed (.word first :: segments.flatMap fun name => [.mark ".", .word name]) := by
  refine isPassed_of_isArgument fun s mem => ?_
  simp only [List.mem_cons, List.mem_flatMap, List.not_mem_nil, or_false] at mem
  obtain rfl | ⟨name, -, rfl | rfl⟩ := mem <;> rfl

theorem IsType.isPassed {ss : List Symbol} (isType : IsType ss) : IsPassed ss := by
  induction isType with
  | name => exact isPassed_qualified _ _
  | generic _ _ _ ih =>
    exact (isPassed_qualified _ _).append (isPassed_separated ih).angle
  | array _ ih => exact ih.append (IsPassed.bracket (by decide) .nil)
  | tuple inside => exact .bracket (by decide) inside
  | parenthesized isType => exact .bracket (by decide) isType.nested
  | union _ _ ih ih' => exact ih.append ((IsPassed.plain (by decide)).append ih')
  | object inside => exact .bracket (by decide) inside
  | string => exact .plain rfl
  | number => exact .plain rfl
  | negative => exact (IsPassed.plain (by decide)).append (.plain rfl)

/-- A type does not start with the sign of a union. -/
theorem IsType.exists_cons {ss : List Symbol} (isType : IsType ss) :
    ∃ s rest, ss = s :: rest ∧ s.token.isPunct "|" = false ∧ s.token.isPunct "&" = false := by
  induction isType with
  | name | generic | tuple | parenthesized | object | string | number | negative =>
    exact ⟨_, _, rfl, rfl, rfl⟩
  | array _ ih =>
    obtain ⟨s, rest, rfl, plain⟩ := ih
    exact ⟨s, _, rfl, plain⟩
  | union _ _ ih =>
    obtain ⟨s, rest, rfl, plain⟩ := ih
    exact ⟨s, _, rfl, plain⟩

/-! ## The end of a type -/

namespace Program

/-- Whether what stands at a position does not go on with the type operand before it, unless with the
brackets of an array type. -/
def endsOperand (p : Program) (k : Nat) : Bool :=
  !p.isPunct k "." && !p.isPunct k "=>" && !p.isWord k "new" &&
    (p.newlineBefore k || !(p.isPunct k "<" || p.isName k))

/-- Whether what stands at a position does not go on with the type before it. -/
def endsType (p : Program) (k : Nat) : Bool :=
  p.endsOperand k && !p.isPunct k "|" && !p.isPunct k "&" && (p.newlineBefore k || !p.isPunct k "[")

variable {p : Program}

theorem Shows.endsOperand_of_mark {k : Nat} {text : String} (shows : p.Shows k (.mark text))
    (other : text ∉ [".", "=>", "<"]) : p.endsOperand k = true := by
  simp only [List.mem_cons, List.not_mem_nil, or_false, not_or] at other
  simp [endsOperand, shows.isPunct_eq, shows.isWord_eq, shows.isName_eq, Symbol.mark, Symbol.token,
    Token.isPunct, Token.isWord, other]

/-- The further segments of a qualified name end where they are not gone on with. -/
theorem qualifiersStop_of_reads {i : Nat} {segments : List String}
    (reads : p.Reads i (segments.flatMap fun name => [.mark ".", .word name]))
    (ends : p.isPunct (i + 2 * segments.length) "." = false) :
    p.qualifiersStop i = i + 2 * segments.length := by
  induction segments generalizing i with
  | nil =>
    rw [qualifiersStop_eq]
    simp at ends
    simp [ends]
  | cons name segments ih =>
    obtain ⟨dot, word, rest⟩ := reads
    have place : i + 2 * (name :: segments).length = i + 2 + 2 * segments.length := by
      rw [List.length_cons]
      omega
    rw [place] at ends ⊢
    rw [qualifiersStop_eq, dot.isPunct_eq, word.isName_eq, if_pos ⟨by decide, rfl⟩, ih rest ends]

theorem operandStop?_of_name {i : Nat} {first : String} (shows : p.Shows i (.word first))
    (other : first ∉ typeOperators) (noNew : p.isWord (i + 1) "new" = false)
    (noName : (p.isName (i + 1) && !p.newlineBefore (i + 1)) = false) :
    p.operandStop? i = p.namedTypeStop? i := by
  simp only [typeOperators, List.mem_cons, List.not_mem_nil, or_false, not_or] at other
  rw [operandStop?_eq]
  simp only [shows.isOneOf_eq, shows.isWord_eq, shows.isPunct_eq, shows.isName_eq,
    Symbol.isPunct_token_word, Symbol.isWord_token_word, Symbol.kind_word, Symbol.text_word]
  simp only [other, noNew, typeModifiers, List.contains_cons, List.contains_nil,
    beq_eq_false_iff_ne.mpr, ne_eq, not_false_eq_true, Bool.and_false, Bool.false_eq_true, false_and,
    if_false, Bool.false_and, Bool.or_self, beq_self_eq_true, if_true]
  refine if_neg fun asserts => ?_
  rw [asserts.2.1, asserts.2.2] at noName
  cases noName

/-- A type operand that starts with a qualified name ends behind its type arguments. -/
theorem operandStop?_of_reads {i j k : Nat} {first : String} {segments : List String}
    (other : first ∉ typeOperators)
    (reads : p.Reads i (.word first :: segments.flatMap fun name => [.mark ".", .word name]))
    (place : i + 1 + 2 * segments.length = j) (noDot : p.isPunct j "." = false)
    (noNew : p.isWord j "new" = false) (noName : (p.isName j && !p.newlineBefore j) = false)
    (arguments : p.argumentsStop? true j = some k)
    (noName' : (p.isName k && !p.newlineBefore k) = false) :
    p.operandStop? i = some (p.indexesStop k) := by
  obtain ⟨word, rest⟩ := reads
  have next : p.isWord (i + 1) "new" = false ∧ (p.isName (i + 1) && !p.newlineBefore (i + 1)) = false := by
    cases segments with
    | nil =>
      rw [List.length_nil, Nat.mul_zero, Nat.add_zero] at place
      rw [place]
      exact ⟨noNew, noName⟩
    | cons name segments =>
      rw [rest.1.isWord_eq, rest.1.isName_eq]
      exact ⟨rfl, rfl⟩
  have entity : p.entityStop? i = some j := by
    rw [← place] at noDot ⊢
    rw [entityStop?, word.isName_eq, qualifiersStop_of_reads rest noDot]
    rfl
  rw [operandStop?_of_name word other next.1 next.2, namedTypeStop?_eq, word.isWord_eq,
    word.isWord_eq, entity, Option.bind_some, arguments, Option.bind_some]
  simp only [typeOperators, List.mem_cons, List.not_mem_nil, or_false, not_or] at other
  simp only [Symbol.isWord_token_word, beq_eq_false_iff_ne.mpr other.2.2.2.2.1,
    beq_eq_false_iff_ne.mpr other.2.2.2.2.2.1, Bool.false_and, Bool.false_eq_true, if_false]
  refine if_neg fun is => ?_
  rw [isName_of_isWord is.1, is.2] at noName'
  cases noName'

theorem operandStop?_of_parenthesis {i : Nat} (shows : p.Shows i (.mark "("))
    (noArrow : p.isPunct (p.close i + 1) "=>" = false) :
    p.operandStop? i = some (p.indexesStop (p.close i + 1)) := by
  rw [operandStop?_eq]
  simp [shows.isOneOf_eq, shows.isWord_eq, shows.isPunct_eq, noArrow]

theorem operandStop?_of_bracket {i : Nat} {opener : String} (among : opener = "[" ∨ opener = openBrace)
    (shows : p.Shows i (.mark opener)) :
    p.operandStop? i = some (p.indexesStop (p.close i + 1)) := by
  rw [operandStop?_eq]
  rcases among with rfl | rfl <;>
    simp [shows.isOneOf_eq, shows.isWord_eq, shows.isPunct_eq, openBrace]

theorem operandStop?_of_literal {i : Nat} {s : Symbol} (shows : p.Shows i s)
    (isLiteral : s.kind = .string ∨ s.kind = .number) :
    p.operandStop? i = some (p.indexesStop (i + 1)) := by
  have literal : p.is i (fun t => t.kind == .string || t.kind == .template || t.kind == .number) =
      (s.kind == .string || s.kind == .template || s.kind == .number) := shows.is_eq fun _ => rfl
  rw [operandStop?_eq]
  rcases isLiteral with isLiteral | isLiteral <;>
    simp [shows.isOneOf_eq, shows.isWord_eq, shows.isPunct_eq, shows.isName_eq, literal, isLiteral,
      Symbol.token, Token.isPunct, Token.isWord]

theorem operandStop?_of_negative {i : Nat} {s : Symbol} (shows : p.Shows i (.mark "-"))
    (next : p.Shows (i + 1) s) (isNumber : s.kind = .number) :
    p.operandStop? i = some (p.indexesStop (i + 2)) := by
  rw [operandStop?_eq]
  simp [shows.isOneOf_eq, shows.isWord_eq, shows.isPunct_eq, next.kind?_eq, isNumber,
    openBrace]

theorem length_qualified (first : String) (segments : List String) :
    (Symbol.word first :: segments.flatMap fun name => [.mark ".", .word name]).length =
      1 + 2 * segments.length := by
  rw [List.length_cons, Nat.add_comm, List.length_flatMap]
  simp [Nat.mul_comm]

theorem unionStop?_eq_bind {i : Nat} {ss : List Symbol} (isType : IsType ss) (reads : p.Reads i ss) :
    p.unionStop? i = (p.operandStop? i).bind p.operandsStop? := by
  obtain ⟨s, rest, rfl, noBar, noAnd⟩ := isType.exists_cons
  rw [unionStop?_eq, reads.1.isPunct_eq, reads.1.isPunct_eq, noBar, noAnd]
  rfl

/-- The search for the end of a union is on behind a type where it is before it. -/
theorem unionStop?_of_isType {ss : List Symbol} (isType : IsType ss)
    (matched : matchBrackets p.tokens = .ok p.partners) {i : Nat} (reads : p.Reads i ss)
    (ends : p.endsOperand (i + ss.length) = true) :
    p.unionStop? i = p.operandsStop? (p.indexesStop (i + ss.length)) := by
  induction isType generalizing i with
  | @name first segments other =>
    rw [length_qualified, ← Nat.add_assoc] at ends ⊢
    rw [unionStop?_eq_bind (.name other) reads]
    simp only [endsOperand, Bool.and_eq_true, Bool.or_eq_true, Bool.not_eq_true',
      Bool.or_eq_false_iff] at ends
    obtain ⟨⟨⟨noDot, noArrow⟩, noNew⟩, ends⟩ := ends
    have noName : (p.isName (i + 1 + 2 * segments.length) &&
        !p.newlineBefore (i + 1 + 2 * segments.length)) = false := by
      rcases ends with line | ⟨-, other⟩ <;> simp [*]
    have arguments : p.argumentsStop? true (i + 1 + 2 * segments.length) =
        some (i + 1 + 2 * segments.length) := by
      rcases ends with line | ⟨other, -⟩ <;> simp [argumentsStop?, *]
    rw [operandStop?_of_reads other reads rfl noDot noNew noName arguments noName]
    rfl
  | @generic first segments arguments other some all _ =>
    rw [unionStop?_eq_bind (.generic other some all) reads]
    obtain ⟨qualified, opener, inside⟩ := reads_append.mp reads
    obtain ⟨inside, closer, -⟩ := reads_append.mp inside
    rw [List.length_append, length_qualified] at ends ⊢
    rw [length_qualified, ← Nat.add_assoc] at opener inside closer
    have place : i + (1 + 2 * segments.length +
        (Symbol.mark "<" :: (separated arguments ++ [.mark ">"])).length) =
        i + 1 + 2 * segments.length + 1 + (separated arguments).length + 1 := by
      simp only [List.length_cons, List.length_append, List.length_nil]
      omega
    rw [place] at ends ⊢
    simp only [endsOperand, Bool.and_eq_true, Bool.or_eq_true, Bool.not_eq_true',
      Bool.or_eq_false_iff] at ends
    have stop : p.argumentsStop? true (i + 1 + 2 * segments.length) =
        .some (i + 1 + 2 * segments.length + 1 + (separated arguments).length + 1) := by
      have passed := isPassed_separated (fun ss mem => (all ss mem).isPassed) p matched 0 _ inside
      rw [argumentsStop?, opener.isPunct_eq, opener.newlineBefore_eq, passed, closer.angleStop?_closer]
      rfl
    rw [operandStop?_of_reads other qualified rfl (opener.isPunct_eq ".") (opener.isWord_eq "new") ?_
      stop ?_]
    · rfl
    · rw [opener.isName_eq]
      rfl
    · rcases ends.2 with line | ⟨-, other⟩ <;> simp [*]
  | @array ss isType ih =>
    obtain ⟨inside, opener, reads'⟩ := reads_append.mp reads
    have close := Reads.close_eq matched (by decide) .nil ⟨opener, reads'⟩
    have place : p.close (i + ss.length) + 1 = i + (ss ++ [Symbol.mark "[", .mark "]"]).length := by
      rw [close]
      simp [Nat.add_assoc]
    rw [ih inside (opener.endsOperand_of_mark (by decide)), indexesStop_eq, opener.isPunct_eq,
      opener.newlineBefore_eq, if_pos (by decide), place]
  | @tuple ss inside =>
    have place := reads.close_succ matched (by decide) inside
    rw [unionStop?_eq_bind (.tuple inside) reads, operandStop?_of_bracket (.inl rfl) reads.1, place]
    rfl
  | @parenthesized ss isType _ =>
    have place : p.close i + 1 = i + (Symbol.mark "(" :: (ss ++ [.mark ")"])).length :=
      reads.close_succ matched (by decide) isType.nested
    have noArrow : p.isPunct (p.close i + 1) "=>" = false := by
      rw [place]
      simp only [endsOperand, Bool.and_eq_true, Bool.not_eq_true'] at ends
      exact ends.1.1.2
    rw [unionStop?_eq_bind (.parenthesized isType) reads,
      operandStop?_of_parenthesis reads.1 noArrow, place]
    rfl
  | @union ss ts isType isType' ih ih' =>
    obtain ⟨inside, bar, rest⟩ := reads_append.mp reads
    have place : i + (ss ++ Symbol.mark "|" :: ts).length = i + ss.length + 1 + ts.length := by
      rw [List.length_append, List.length_cons]
      omega
    rw [place] at ends ⊢
    have stays : p.indexesStop (i + ss.length) = i + ss.length := by
      rw [indexesStop_eq, bar.isPunct_eq]
      exact if_neg (by simp)
    have isBar : ((Symbol.mark "|").token.isPunct "|" || p.isPunct (i + ss.length) "&") = true := rfl
    rw [ih inside (bar.endsOperand_of_mark (by decide)), stays, operandsStop?_eq, bar.isPunct_eq,
      if_pos isBar, ← unionStop?_eq_bind isType' rest, ih' rest ends]
  | @object ss inside =>
    have place := reads.close_succ matched (by decide) inside
    rw [unionStop?_eq_bind (.object inside) reads, operandStop?_of_bracket (.inr rfl) reads.1, place]
    rfl
  | string text =>
    rw [unionStop?_eq_bind (.string text) reads, operandStop?_of_literal reads.1 (.inl rfl)]
    rfl
  | number text =>
    rw [unionStop?_eq_bind (.number text) reads, operandStop?_of_literal reads.1 (.inr rfl)]
    rfl
  | negative text =>
    rw [unionStop?_eq_bind (.negative text) reads, operandStop?_of_negative reads.1 reads.2.1 rfl]
    rfl

/-- A type ends behind its symbols where nothing goes on with it. -/
theorem typeStop?_of_isType {ss : List Symbol} (isType : IsType ss)
    (matched : matchBrackets p.tokens = .ok p.partners) {i : Nat} (reads : p.Reads i ss)
    (ends : p.endsType (i + ss.length) = true) : p.typeStop? i = some (i + ss.length) := by
  simp only [endsType, Bool.and_eq_true, Bool.or_eq_true, Bool.not_eq_true'] at ends
  obtain ⟨⟨⟨ends, noBar⟩, noAnd⟩, noIndex⟩ := ends
  have indexes : p.indexesStop (i + ss.length) = i + ss.length := by
    rw [indexesStop_eq]
    refine if_neg fun index => ?_
    rcases noIndex with line | noIndex <;> simp_all
  have operands : p.operandsStop? (i + ss.length) = some (i + ss.length) := by
    rw [operandsStop?_eq, noBar, noAnd]
    rfl
  rw [typeStop?_eq, unionStop?_of_isType isType matched reads ends, indexes, operands,
    Option.bind_some]
  refine if_neg fun conditional => ?_
  have name := isName_of_isWord conditional.1
  simp_all [endsOperand]

end Program

end Erase

end ModuleLinker
