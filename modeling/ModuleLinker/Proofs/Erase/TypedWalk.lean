import Mathlib
import ModuleLinker.Proofs.Erase.TypedItems

/-!
# The walk through typed items

A walk that comes to an item of a module with types overwrites the parts of it that are types and goes
on behind its semicolon (`Program.walk_item`). So a walk through a module of such items succeeds and
has overwritten their types, item by item (`Program.walk_items`).
-/

set_option autoImplicit false

namespace ModuleLinker

open Erase ModuleLinker.Symbol

/-- An item ends in a semicolon. -/
theorem TypedItem.getLast?_symbols (item : TypedItem) : item.symbols.getLast? = some (mark ";") := by
  cases item with
  | importOnly | constant => rfl
  | importFrom typeOnly | exportFrom typeOnly =>
    cases typeOnly <;> simp [symbols, parts, fromParts, allSymbols_clause, List.getLast?_cons]
  | exportTypes | typeAlias => simp [symbols, parts, List.getLast?_cons]

namespace Erase.Program

variable {p : Program} {hole : Hole → Except Failure Edits}

/-! ## Steps of a walk -/

theorem past_eq_self {s : State} {i : Nat} (further : i < s.pos) : s.past i = s :=
  congrArg (State.mk · s.edits) (Nat.max_eq_left further)

/-- How a walk goes on inside the construct at a position. -/
def walkerAt (p : Program) (hole : Hole → Except Failure Edits) (i : Nat) : Walker :=
  ⟨fun limit stop t => p.walk hole limit stop (t.past i), hole⟩

/-- A walk takes a step and goes on from there. -/
theorem walk_eq_step {limit : Nat} {stop : Nat → Bool} {s next : State} (inside : s.pos < p.tokens.size)
    (less : s.pos < limit) (goes : stop s.pos = false)
    (step : p.step (p.walkerAt hole s.pos) limit s = .ok next) (further : s.pos < next.pos) :
    p.walk hole limit stop s = p.walk hole limit stop next := by
  have step' : p.step ⟨fun limit stop t => p.walk hole limit stop (t.past s.pos), hole⟩ limit s =
      .ok next := step
  conv_lhs => rw [walk, dif_pos inside, goes, Bool.not_false, Bool.and_true, if_pos (decide_eq_true less)]
  dsimp only
  rw [step']
  dsimp only
  rw [past_eq_self further]

theorem walk_of_stop {limit : Nat} {stop : Nat → Bool} {s : State} (stops : stop s.pos = true) :
    p.walk hole limit stop s = .ok s := by
  rw [walk, stops, Bool.not_true, Bool.and_false]
  split <;> rfl

theorem Has.lt_size {i : Nat} {s : Symbol} (has : p.Has i s) : i < p.tokens.size := by
  obtain ⟨t, found, -⟩ := has
  exact (Array.getElem?_eq_some_iff.mp found).1

theorem HasAll.lt_size {i : Nat} {ss : List Symbol} (has : p.HasAll i ss) (some : ss ≠ []) :
    i < p.tokens.size := by
  cases ss with
  | nil => exact absurd rfl some
  | cons s ss => exact has.1.lt_size

/-- The last of some symbols stands in front of the position behind them. -/
theorem HasAll.last {i : Nat} {ss : List Symbol} {s : Symbol} (has : p.HasAll i ss)
    (last : ss.getLast? = some s) : p.Has (i + ss.length - 1) s := by
  obtain ⟨front, rfl⟩ := List.getLast?_eq_some_iff.mp last
  have place : i + (front ++ [s]).length - 1 = i + front.length := by
    rw [List.length_append, List.length_singleton]
    omega
  rw [place]
  exact (hasAll_append.mp has).2.1

/-- The punctuators at which a walk does something: those that open brackets, and the one that may
assert. -/
def busyMarks : List String := ["(", "[", openBrace, "<", "!"]

/-- Whether a walk leaves a symbol alone wherever it stands: a number, a string or most punctuators. -/
def isIdle (s : Symbol) : Bool :=
  s.kind == .number || s.kind == .string || (s.kind == .punct && !busyMarks.contains s.text)

theorem step_of_isIdle {i : Nat} {s : Symbol} (has : p.Has i s) (idle : isIdle s = true) (w : Walker)
    (limit : Nat) (edits : Edits) : p.step w limit ⟨i, edits⟩ = .ok ⟨i + 1, edits⟩ := by
  obtain ⟨⟨kind, start, text, newline, holes⟩, found, rfl⟩ := has
  unfold step
  rw [found]
  cases kind
  case number | string => rfl
  case punct =>
    simp [isIdle, busyMarks, Token.symbol] at idle
    simp [Token.isPunct, idle, State.skip, State.goto]
  all_goals cases idle

/-- At a word the construct that it starts is looked at. -/
theorem step_eq_stepWord {i : Nat} {x : String} (has : p.Has i (word x)) (w : Walker) (limit : Nat)
    (edits : Edits) : p.step w limit ⟨i, edits⟩ = p.stepWord w limit ⟨i, edits⟩ := by
  obtain ⟨⟨kind, start, text, newline, holes⟩, found, same⟩ := has
  cases same
  unfold step
  rw [found]
  rfl

/-- Whether nothing or a semicolon stands in front of a position. -/
def Begins (p : Program) (i : Nat) : Prop := i = 0 ∨ p.Has (i - 1) (mark ";")

section Words

variable {i : Nat} (begins : p.Begins i)
include begins

theorem Begins.afterDot_eq : p.afterDot i = false := by
  unfold afterDot
  rcases begins with rfl | semicolon
  · rfl
  · rw [semicolon.is_eq fun _ => rfl]
    exact Bool.and_false _

theorem Begins.startsStatement_eq : p.startsStatement i = true := by
  unfold startsStatement
  rcases begins with rfl | semicolon
  · rfl
  · rw [semicolon.isPunct_eq, isPunct_token_mark, beq_self_eq_true, Bool.or_true, Bool.true_or,
      Bool.true_or, Bool.true_or]

variable (w : Walker) (limit : Nat) (edits : Edits)

theorem step_import (has : p.Has i (word "import")) :
    p.step w limit ⟨i, edits⟩ = p.importDeclaration i ⟨i, edits⟩ := by
  rw [step_eq_stepWord has, stepWord]
  dsimp only
  rw [begins.afterDot_eq, has.text_eq]
  rfl

theorem step_export (has : p.Has i (word "export")) :
    p.step w limit ⟨i, edits⟩ = p.exportDeclaration w i ⟨i, edits⟩ := by
  rw [step_eq_stepWord has, stepWord]
  dsimp only
  rw [begins.afterDot_eq, has.text_eq]
  rfl

theorem step_type (has : p.Has i (word "type")) :
    p.step w limit ⟨i, edits⟩ = p.typeStatement w i i (i + 1) ⟨i, edits⟩ := by
  rw [step_eq_stepWord has, stepWord]
  dsimp only
  rw [begins.afterDot_eq, has.text_eq, begins.startsStatement_eq]
  rfl

theorem step_const (has : p.Has i (word "const")) (noEnum : p.isWord (i + 1) "enum" = false) :
    p.step w limit ⟨i, edits⟩ = p.variableDeclaration w i limit ⟨i, edits⟩ := by
  rw [step_eq_stepWord has, stepWord]
  dsimp only
  rw [begins.afterDot_eq, has.text_eq, noEnum]
  rfl

end Words

/-! ## Constants -/

/-- The value behind an equals sign is walked through from further out. -/
theorem walkValue_of_walk {i k m limit : Nat} (before : i < m) (equals : p.Has m (mark "="))
    {edits edits' : Edits}
    (walked : p.walk hole limit (fun j => [",", ";"].any fun text => p.isPunct j text)
      ⟨m + 1, edits⟩ = .ok ⟨k, edits'⟩) :
    p.walkValue (p.walkerAt hole i) limit [",", ";"] ⟨m, edits⟩ = .ok ⟨k, edits'⟩ := by
  unfold walkValue
  dsimp only
  rw [equals.isPunct_eq]
  change p.walk hole limit _ (State.past ⟨m + 1, edits⟩ i) = _
  rw [past_eq_self (Nat.lt_succ_of_lt before), walked]

/-- A number that is the value of a variable is walked through up to the semicolon. -/
theorem walkValue_number {i k : Nat} {n : String} (before : i < k)
    (has : p.HasAll k [mark "=", ⟨.number, n⟩, mark ";"]) (edits : Edits) :
    p.walkValue (p.walkerAt hole i) p.tokens.size [",", ";"] ⟨k, edits⟩ = .ok ⟨k + 2, edits⟩ := by
  obtain ⟨equals, number, semicolon, -⟩ := has
  let stop (i : Nat) : Bool := [",", ";"].any fun text => p.isPunct i text
  have goes : stop (k + 1) = false := by
    simp only [stop, number.isPunct_eq]
    rfl
  have stops : stop (k + 2) = true := by
    simp only [stop, semicolon.isPunct_eq]
    rfl
  refine walkValue_of_walk before equals ?_
  rw [walk_eq_step number.lt_size number.lt_size goes (step_of_isIdle number rfl _ _ edits)
    (Nat.lt_succ_self _)]
  exact walk_of_stop stops

/-- A name is bound and walked through. -/
theorem walkBinding_name {i : Nat} {x : String} (name : p.Has i (word x)) (w : Walker) (edits : Edits) :
    p.bindsAt i = true ∧ p.walkBinding w ⟨i, edits⟩ = .ok ⟨i + 1, edits⟩ := by
  constructor
  · rw [bindsAt, name.isName_eq]
    rfl
  · unfold walkBinding
    dsimp only
    rw [name.isPunct_eq, name.isPunct_eq, name.isName_eq]
    rfl

/-- A marker is not erased where another punctuator stands. -/
theorem blankMarker_of_mark {i : Nat} {text marker : String} (has : p.Has i (mark text))
    (other : text ≠ marker) (edits : Edits) : p.blankMarker ⟨i, edits⟩ marker = ⟨i, edits⟩ := by
  unfold blankMarker
  dsimp only
  rw [has.isPunct_eq, isPunct_token_mark, beq_eq_false_iff_ne.mpr other]
  rfl

/-- A declaration ends where its only variable does, at a semicolon. -/
theorem variableDeclaration_of_single {i k : Nat} {w : Walker} {limit : Nat} {edits edits' : Edits}
    (binds : p.bindsAt (i + 1) = true)
    (variable_ : p.walkVariable w limit ⟨i + 1, edits⟩ = .ok ⟨k, edits'⟩) (semicolon : p.Has k (mark ";")) :
    p.variableDeclaration w i limit ⟨i, edits⟩ = .ok ⟨k, edits'⟩ := by
  unfold variableDeclaration
  rw [walkVariables_eq]
  refine (if_pos binds).trans (bind_eq_ok.mpr ⟨_, variable_, ?_⟩)
  dsimp only
  rw [semicolon.isPunct_eq]
  rfl

/-- A declaration of a name without a type ends where its value does, at a semicolon. -/
theorem variableDeclaration_of_value {i k : Nat} {x : String} (name : p.Has (i + 1) (word x))
    (equals : p.Has (i + 2) (mark "=")) {w : Walker} {limit : Nat} {edits edits' : Edits}
    (value : p.walkValue w limit [",", ";"] ⟨i + 2, edits⟩ = .ok ⟨k, edits'⟩)
    (semicolon : p.Has k (mark ";")) :
    p.variableDeclaration w i limit ⟨i, edits⟩ = .ok ⟨k, edits'⟩ := by
  obtain ⟨binds, bound⟩ := walkBinding_name name w edits
  have annotation : p.blankAnnotation ⟨i + 2, edits⟩ = .ok ⟨i + 2, edits⟩ := by
    unfold blankAnnotation
    dsimp only
    rw [equals.isPunct_eq]
    rfl
  refine variableDeclaration_of_single binds ?_ semicolon
  refine bind_eq_ok.mpr ⟨_, bound, bind_eq_ok.mpr ⟨_, ?_, value⟩⟩
  rw [blankMarker_of_mark equals (by decide), annotation]

/-- The value of a constant is walked through up to the semicolon. -/
theorem variableDeclaration_constant {i : Nat} {x n : String}
    (has : p.HasAll (i + 1) [word x, mark "=", ⟨.number, n⟩, mark ";"]) (edits : Edits) :
    p.variableDeclaration (p.walkerAt hole i) i p.tokens.size ⟨i, edits⟩ = .ok ⟨i + 4, edits⟩ := by
  obtain ⟨name, value⟩ := has
  exact variableDeclaration_of_value name value.1 (walkValue_number (Nat.lt_add_of_pos_right Nat.two_pos) value edits)
    value.2.2.1

/-! ## Items -/

/-- Whether an item stands at a position, on one line if it ends with its line. -/
structure Lies (p : Program) (i : Nat) (item : TypedItem) : Prop where
  /-- The symbols of the item stand there. -/
  symbols : p.HasAll i item.symbols
  /-- They stand on one line if they have to. -/
  line : item.endsWithLine = true → p.Reads (i + 1) item.symbols.tail

/-- A type does not go on at a semicolon. -/
theorem Shows.endsType_of_semicolon {k : Nat} (shows : p.Shows k (mark ";")) : p.endsType k = true := by
  rw [endsType, shows.endsOperand_of_mark (by decide), shows.isPunct_eq, shows.isPunct_eq,
    shows.isPunct_eq, shows.newlineBefore_eq]
  rfl

/-- An item that goes as a whole is overwritten up to its end. -/
theorem eraseParts_whole {i stop : Nat} {ss : List Symbol} (place : stop = i + ss.length) (s : State) :
    (p.eraseParts i [⟨true, ss⟩] s).goto (i + (allSymbols [⟨true, ss⟩]).length) =
      (p.blank s i stop).goto stop := by
  rw [eraseParts_cons, allSymbols_cons, allSymbols_nil, List.append_nil, ← place]
  rfl

section Items

variable (matched : matchBrackets p.tokens = .ok p.partners) {i : Nat} (begins : p.Begins i)
  {item : TypedItem} (proper : item.IsProper) (lies : p.Lies i item)
include matched begins proper lies

/-- A step at an item other than a constant overwrites its types and goes on behind its semicolon. -/
theorem step_item (other : ∀ x n, item ≠ .constant x n) (w : Walker) (limit : Nat) (edits : Edits) :
    p.step w limit ⟨i, edits⟩ =
      .ok ((p.eraseParts i item.parts ⟨i, edits⟩).goto (i + item.symbols.length)) := by
  obtain ⟨has, line⟩ := lies
  cases item with
  | importOnly r =>
    rw [step_import begins w limit edits has.1, importDeclaration_only has.2]
    rfl
  | importFrom typeOnly clause r =>
    cases typeOnly with
    | false =>
      rw [step_import begins w limit edits has.1, importDeclaration_value matched proper.names has.2,
        Nat.add_right_comm]
      rfl
    | true =>
      have has : p.HasAll i (_ ++ []) := has
      rw [List.append_nil] at has
      rw [step_import begins w limit edits has.1,
        importDeclaration_type matched proper.names has.2 ⟨i, edits⟩ rfl]
      exact congrArg Except.ok (eraseParts_whole (by simp only [List.length_cons]; omega) ⟨i, edits⟩).symm
  | exportFrom typeOnly clause r =>
    cases typeOnly with
    | false =>
      rw [step_export begins w limit edits has.1, exportDeclaration_value matched proper.names has.2,
        Nat.add_right_comm]
      rfl
    | true =>
      have has : p.HasAll i (_ ++ []) := has
      rw [List.append_nil] at has
      rw [step_export begins w limit edits has.1, exportDeclaration_type matched has.2 w ⟨i, edits⟩ rfl]
      exact congrArg Except.ok (eraseParts_whole (by simp only [List.length_cons]; omega) ⟨i, edits⟩).symm
  | exportTypes list =>
    have reads : p.Reads (i + 1) (word "type" :: (allSymbols list.parts ++ [mark ";"]) ++ []) := line rfl
    rw [List.append_nil] at reads
    obtain ⟨word, braces⟩ := reads
    obtain ⟨braces, semicolon, -⟩ := reads_append.mp braces
    rw [step_export begins w limit edits has.1,
      exportDeclaration_types matched ⟨word.has, braces.hasAll⟩ semicolon w ⟨i, edits⟩ rfl]
    refine congrArg Except.ok (eraseParts_whole ?_ ⟨i, edits⟩).symm
    simp only [List.length_cons, List.length_append, List.length_nil]
    omega
  | typeAlias name type =>
    have reads : p.Reads (i + 1) (word name :: mark "=" :: (type ++ [mark ";"]) ++ []) := line rfl
    rw [List.append_nil] at reads
    obtain ⟨name, equals, rest⟩ := reads
    obtain ⟨reads, semicolon, -⟩ := reads_append.mp rest
    have ends : p.isPunct (i + 3 + type.length) ";" = true := semicolon.isPunct_eq ";"
    rw [step_type begins w limit edits has.1,
      typeStatement_typeAlias matched (proper.type _ _ rfl) has.1 ⟨name, equals, reads⟩ rfl
        semicolon.endsType_of_semicolon w ⟨i, edits⟩ (if_pos ends).symm]
    refine congrArg Except.ok (eraseParts_whole ?_ ⟨i, edits⟩).symm
    simp only [List.length_cons, List.length_append, List.length_nil]
    omega
  | constant x n => exact absurd rfl (other x n)

/-- A walk that comes to an item overwrites its types and goes on behind its semicolon. -/
theorem walk_item (edits : Edits) :
    p.walk hole p.tokens.size nowhere ⟨i, edits⟩ = p.walk hole p.tokens.size nowhere
      ((p.eraseParts i item.parts ⟨i, edits⟩).goto (i + item.symbols.length)) := by
  by_cases isConstant : ∃ x n, item = .constant x n
  · obtain ⟨x, n, rfl⟩ := isConstant
    obtain ⟨⟨word, rest⟩, -⟩ := lies
    have noEnum : p.isWord (i + 1) "enum" = false := by
      rw [rest.1.isWord_eq, isWord_token_word, beq_eq_false_iff_ne]
      exact ne_of_isFree (proper.names x List.mem_cons_self) (by decide)
    have inside := word.lt_size
    have semicolon := rest.2.2.2.1
    rw [walk_eq_step inside inside rfl
      ((step_const begins _ _ edits word noEnum).trans (variableDeclaration_constant rest edits)) (by simp)]
    exact walk_eq_step semicolon.lt_size semicolon.lt_size rfl (step_of_isIdle semicolon rfl _ _ edits)
      (Nat.lt_succ_self _)
  · obtain ⟨front, same⟩ := List.getLast?_eq_some_iff.mp item.getLast?_symbols
    have some : i < i + item.symbols.length := by
      rw [same, List.length_append, List.length_singleton]
      omega
    have inside : i < p.tokens.size := lies.symbols.lt_size (by rw [same]; simp)
    exact walk_eq_step inside inside rfl
      (step_item matched begins proper lies (fun x n same => isConstant ⟨x, n, same⟩) _ _ edits) some

end Items

/-! ## Whole modules -/

/-- Whether items stand one after the other from a position on. -/
def LieAll (p : Program) : Nat → List TypedItem → Prop
  | _, [] => True
  | i, item :: items => p.Lies i item ∧ LieAll p (i + item.symbols.length) items

/-- A walk that comes to items overwrites the types of all of them and goes on behind the last one. -/
theorem walk_items (matched : matchBrackets p.tokens = .ok p.partners) {items : List TypedItem}
    (proper : ∀ item ∈ items, item.IsProper) {i : Nat} (begins : p.Begins i) (lie : p.LieAll i items)
    (edits : Edits) :
    p.walk hole p.tokens.size nowhere ⟨i, edits⟩ = p.walk hole p.tokens.size nowhere
      ((p.eraseParts i (items.flatMap TypedItem.parts) ⟨i, edits⟩).goto
        (i + (items.flatMap TypedItem.symbols).length)) := by
  induction items generalizing i edits with
  | nil => rfl
  | cons item items ih =>
    rw [List.forall_mem_cons] at proper
    have next : p.Begins (i + item.symbols.length) := .inr (lie.1.symbols.last item.getLast?_symbols)
    have place : i + (allSymbols item.parts).length = i + item.symbols.length := rfl
    let done := p.eraseParts i item.parts ⟨i, edits⟩
    have same : p.eraseParts (i + item.symbols.length) (items.flatMap TypedItem.parts)
        ⟨i + item.symbols.length, done.edits⟩ =
        (p.eraseParts (i + item.symbols.length) (items.flatMap TypedItem.parts) done).goto
          (i + item.symbols.length) := eraseParts_goto ..
    have rest := ih proper.2 next lie.2 done.edits
    rw [same] at rest
    rw [walk_item matched begins proper.1 lie.1, List.flatMap_cons, List.flatMap_cons, eraseParts_append,
      place, List.length_append, ← Nat.add_assoc]
    exact rest

/-- A walk through a module of items succeeds and has overwritten the types of all of them. -/
theorem walk_module (matched : matchBrackets p.tokens = .ok p.partners) {items : List TypedItem}
    (proper : ∀ item ∈ items, item.IsProper) (lie : p.LieAll 0 items)
    (size : (items.flatMap TypedItem.symbols).length = p.tokens.size) :
    p.walk hole p.tokens.size nowhere ⟨0, []⟩ =
      .ok ((p.eraseParts 0 (items.flatMap TypedItem.parts) ⟨0, []⟩).goto p.tokens.size) := by
  rw [walk_items matched proper (.inl rfl) lie, size, Nat.zero_add, walk]
  exact dif_neg (Nat.lt_irrefl _)

end Erase.Program

end ModuleLinker
