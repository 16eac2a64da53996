import ModuleLinker.Proofs.Erase.PlainTypes

/-!
# Parameter lists and result types

The parameter list of a function or a method with markers, annotations and literals as default values,
and the annotation of its result (`Signature`). Each of them is cut into the parts that are overwritten
and those that stay (`Signature.parts`). Every construct that takes parameters goes through the list by
`Program.parameters`, which overwrites just these parts wherever the list stands (`parameters_eq`).
-/

set_option autoImplicit false

namespace ModuleLinker

open Erase ModuleLinker.Symbol

/-! ## Pieces of signatures -/

/-- The symbols of a marker, where there is one. -/
def markerSymbols (marker : Option String) : List Symbol := marker.elim [] fun text => [mark text]

/-- The symbols of an annotation, where there is one. -/
def annotationSymbols (type : Option (List Symbol)) : List Symbol :=
  type.elim [] fun ss => mark ":" :: ss

/-- The symbols of a value, where there is one. -/
def valueSymbols (value : Option Symbol) : List Symbol := value.elim [] fun s => [mark "=", s]

/-- The words that are literals. -/
def literalWords : List String := ["null", "true", "false"]

/-- Whether a symbol is a literal. -/
def isLiteral (s : Symbol) : Bool :=
  s.kind == .number || s.kind == .string || (s.kind == .ident && literalWords.contains s.text)

/-- What a parameter binds. -/
inductive Binding where
  /-- The name `x`. -/
  | name (x : String)
  /-- The rest `...x`. -/
  | rest (x : String)
  /-- The pattern `{ a, b }`. -/
  | object (names : List String)
  /-- The pattern `[ a, b ]`. -/
  | array (names : List String)
  deriving DecidableEq

/-- A parameter. -/
structure Parameter where
  /-- The modifiers that make it a property. -/
  modifiers : List String
  /-- What it binds. -/
  binding : Binding
  /-- Whether a question mark stands behind it. -/
  optional : Bool
  /-- The type. -/
  type : Option (List Symbol)
  /-- The default value. -/
  value : Option Symbol
  deriving DecidableEq

/-- What stands between the commas of a parameter list. -/
inductive Formal where
  /-- The type of `this`. -/
  | this (type : List Symbol)
  /-- A parameter. -/
  | binds (parameter : Parameter)
  deriving DecidableEq

/-- The parameters and the result type of a function or a method. -/
structure Signature where
  /-- The parameters. -/
  entries : List Formal
  /-- Whether a comma stands behind the last one. -/
  trailing : Bool
  /-- The type of the result. -/
  result : Option (List Symbol)
  deriving DecidableEq

namespace Binding

/-- The names that are bound. -/
def names : Binding → List String
  | name x | rest x => [x]
  | object names | array names => names

/-- The symbols in front of what is bound. -/
def dots : Binding → List Symbol
  | rest _ => [mark "..."]
  | _ => []

/-- The symbols of the name or of the pattern. -/
def target : Binding → List Symbol
  | name x | rest x => [word x]
  | object names => mark openBrace :: (Script.parameterSymbols names ++ [mark closeBrace])
  | array names => mark "[" :: (Script.parameterSymbols names ++ [mark "]"])

/-- Whether a single name is bound. -/
def isName : Binding → Bool
  | name _ => true
  | _ => false

end Binding

/-- Whether a word can be bound: it is no keyword and none of the words that types are written with. -/
def isBindable (x : String) : Bool := !Script.takenWords.contains x && x != "this"

namespace Parameter

/-- The parts of a parameter behind what it binds. -/
def back (q : Parameter) : List Part := [
  ⟨true, markerSymbols (if q.optional then some "?" else none)⟩, ⟨true, annotationSymbols q.type⟩,
  ⟨false, valueSymbols q.value⟩]

/-- The parts of a parameter. -/
def parts (q : Parameter) : List Part :=
  q.modifiers.map (fun m => ⟨true, [word m]⟩) ++
    ⟨false, q.binding.dots ++ q.binding.target⟩ :: q.back

/-- Whether a parameter is written as it should be. -/
structure IsProper (q : Parameter) : Prop where
  /-- The modifiers are those of parameters. -/
  modifiers : ∀ m ∈ q.modifiers, m ∈ Program.parameterModifiers
  /-- Only a name can be a property. -/
  property : q.modifiers ≠ [] → q.binding.isName = true
  /-- What is bound are names. -/
  names : ∀ x ∈ q.binding.names, isBindable x = true
  /-- The type is plain. -/
  type : ∀ ss ∈ q.type, IsPlainType ss
  /-- The default value is a literal. -/
  value : ∀ s ∈ q.value, isLiteral s = true

/-- The property that a parameter declares. -/
def property? (q : Parameter) : Option String :=
  match q.modifiers, q.binding with
  | [], _ => none
  | _, .name x => some x
  | _, _ => none

end Parameter

namespace Formal

/-- The parts of an entry, with the comma behind it or without; the type of `this` goes with its
comma. -/
def parts (comma : Bool) : Formal → List Part
  | this type => [⟨true, word "this" :: mark ":" :: (type ++ markerSymbols (if comma then some "," else none))⟩]
  | binds q => q.parts ++ [⟨false, markerSymbols (if comma then some "," else none)⟩]

/-- Whether an entry is written as it should be. -/
def IsProper : Formal → Prop
  | this type => IsPlainType type
  | binds q => q.IsProper

/-- The property that an entry declares. -/
def property? : Formal → Option String
  | this _ => none
  | binds q => q.property?

theorem length_pos (e : Formal) (comma : Bool) : 0 < (allSymbols (e.parts comma)).length := by
  cases e with
  | this type => simp [parts]
  | binds q =>
    have some : 0 < q.binding.target.length := by cases q.binding <;> simp [Binding.target]
    simp only [parts, Parameter.parts, allSymbols_append, allSymbols_cons, List.length_append]
    omega

end Formal

/-- The parts of entries with commas between them. -/
def entryParts (trailing : Bool) : List Formal → List Part
  | [] => []
  | [e] => e.parts trailing
  | e :: es => e.parts true ++ entryParts trailing es

/-- The properties that entries declare. -/
def propertiesOf (es : List Formal) : List String := es.filterMap Formal.property?

namespace Signature

/-- The parts of a signature behind the parenthesis that opens its parameter list. -/
def parts (g : Signature) : List Part :=
  entryParts g.trailing g.entries ++ [⟨false, [mark ")"]⟩, ⟨true, annotationSymbols g.result⟩]

/-- Whether a signature is written as it should be. -/
structure IsProper (g : Signature) : Prop where
  /-- The entries are. -/
  entries : ∀ e ∈ g.entries, e.IsProper
  /-- The type of the result is plain. -/
  result : ∀ ss ∈ g.result, IsPlainType ss

end Signature

/-! ## Brackets -/

theorem nested_markerSymbols (marker : Option String)
    (plain : ∀ text ∈ marker, (mark text).isPlain = true) : Nested (markerSymbols marker) := by
  cases marker with
  | none => exact .nil
  | some text => exact .plain (plain text rfl)

theorem nested_annotationSymbols {type : Option (List Symbol)} (plain : ∀ ss ∈ type, IsPlainType ss) :
    Nested (annotationSymbols type) := by
  cases type with
  | none => exact .nil
  | some ss => exact .cons rfl (plain ss rfl).isType.nested

theorem isPlain_of_isLiteral {s : Symbol} (literal : isLiteral s = true) : s.isPlain = true := by
  obtain ⟨kind, text⟩ := s
  cases kind <;> simp [isLiteral, Symbol.isPlain] at literal ⊢

theorem nested_valueSymbols {value : Option Symbol} (literal : ∀ s ∈ value, isLiteral s = true) :
    Nested (valueSymbols value) := by
  cases value with
  | none => exact .nil
  | some s => exact .cons rfl (.plain (isPlain_of_isLiteral (literal s rfl)))

theorem Binding.nested (b : Binding) : Nested (b.dots ++ b.target) := by
  cases b with
  | name x => exact .plain rfl
  | rest x => exact .cons rfl (.plain rfl)
  | object names =>
    exact @Nested.bracket openBrace _ (by decide) (Script.Expr.nested_parameterSymbols names)
  | array names => exact @Nested.bracket "[" _ (by decide) (Script.Expr.nested_parameterSymbols names)

theorem nested_optional (present : Bool) {text : String} (plain : (mark text).isPlain = true) :
    Nested (markerSymbols (if present then some text else none)) := by
  cases present with
  | true => exact .plain plain
  | false => exact .nil

theorem allSymbols_words (ms : List String) :
    allSymbols (ms.map fun m => ⟨true, [word m]⟩) = ms.map word := by
  rw [allSymbols, List.flatMap_map]
  exact (List.map_eq_flatMap ..).symm

theorem nested_words (ms : List String) : Nested (ms.map word) :=
  nested_of_isPlain (List.forall_mem_map.mpr fun _ _ => rfl)

theorem Parameter.IsProper.nested {q : Parameter} (proper : q.IsProper) : Nested (allSymbols q.parts) := by
  rw [Parameter.parts, allSymbols_append, allSymbols_words]
  refine (nested_words q.modifiers).append (q.binding.nested.append ((nested_optional _ rfl).append
    ((nested_annotationSymbols proper.type).append ((nested_valueSymbols proper.value).append .nil))))

theorem Formal.nested {e : Formal} (proper : e.IsProper) (comma : Bool) :
    Nested (allSymbols (e.parts comma)) := by
  cases e with
  | this type =>
    have plain : IsPlainType type := proper
    exact (Nested.cons rfl (.cons rfl (plain.isType.nested.append (nested_optional _ rfl)))).append .nil
  | binds q =>
    have proper : q.IsProper := proper
    rw [Formal.parts, allSymbols_append]
    exact proper.nested.append ((nested_optional _ rfl).append .nil)

theorem nested_entryParts {es : List Formal} (proper : ∀ e ∈ es, e.IsProper) (trailing : Bool) :
    Nested (allSymbols (entryParts trailing es)) := by
  fun_induction entryParts trailing es with
  | case1 => exact .nil
  | case2 e => exact Formal.nested (proper e List.mem_cons_self) trailing
  | case3 e es _ ih =>
    rw [List.forall_mem_cons] at proper
    rw [allSymbols_append]
    exact (Formal.nested proper.1 true).append (ih proper.2)

/-- The brackets of a signature have partners. -/
theorem Signature.IsProper.nested {g : Signature} (proper : g.IsProper) :
    Nested (mark "(" :: allSymbols g.parts) := by
  have list := @Nested.bracket "(" _ (by decide) (nested_entryParts proper.entries g.trailing)
  simpa [Signature.parts, closerOf] using list.append (nested_annotationSymbols proper.result)

namespace Erase.Program

variable {p : Program}

/-! ## The edits of parts -/

/-- The edits that overwrite the parts that go, where the first part starts at a position. -/
def erased (p : Program) (i : Nat) (parts : List Part) (edits : Edits) : Edits :=
  (p.eraseParts i parts ⟨i, edits⟩).edits

theorem erased_nil (i : Nat) (edits : Edits) : p.erased i [] edits = edits := rfl

theorem erased_append (i : Nat) (front back : List Part) (edits : Edits) :
    p.erased i (front ++ back) edits =
      p.erased (i + (allSymbols front).length) back (p.erased i front edits) := by
  unfold erased
  rw [eraseParts_append]
  exact (congrArg State.edits
    (eraseParts_goto _ (i + (allSymbols front).length) back (p.eraseParts i front ⟨i, edits⟩))).symm

theorem erased_cons (i : Nat) (part : Part) (parts : List Part) (edits : Edits) :
    p.erased i (part :: parts) edits =
      p.erased (i + part.symbols.length) parts (p.erased i [part] edits) := by
  have split := @erased_append p i [part] parts edits
  rwa [allSymbols_cons, allSymbols_nil, List.append_nil] at split

theorem erased_cons_cons (i : Nat) (part next : Part) (parts : List Part) (edits : Edits) :
    p.erased i (part :: next :: parts) edits =
      p.erased (i + part.symbols.length) (next :: parts) (p.erased i [part] edits) :=
  erased_cons i part (next :: parts) edits

theorem erased_keep (i : Nat) (ss : List Symbol) (edits : Edits) :
    p.erased i [⟨false, ss⟩] edits = edits := rfl

theorem erased_empty (i : Nat) (edits : Edits) : p.erased i [⟨true, []⟩] edits = edits :=
  congrArg State.edits (if_neg (Nat.lt_irrefl i))

/-- Overwriting up to a position and going there leaves the edits of one part. -/
theorem blankTo_eq {i j : Nat} {ss : List Symbol} (place : i + ss.length = j) (edits : Edits) :
    p.blankTo ⟨i, edits⟩ j = ⟨j, p.erased i [⟨true, ss⟩] edits⟩ := by
  subst place
  rfl

/-! ## What stands behind a piece -/

/-- Whether one of some punctuators stands at a position. -/
def Marked (p : Program) (i : Nat) (texts : List String) : Prop := ∃ text ∈ texts, p.Has i (mark text)

namespace Marked

variable {i : Nat} {texts : List String} (marked : p.Marked i texts)
include marked

theorem isPunct_eq {text : String} (other : text ∉ texts) : p.isPunct i text = false := by
  obtain ⟨text', among, has⟩ := marked
  rw [has.isPunct_eq, isPunct_token_mark, beq_eq_false_iff_ne]
  rintro rfl
  exact other among

theorem isName_eq : p.isName i = false := by
  obtain ⟨text, -, has⟩ := marked
  exact has.isName_eq

theorem isWord_eq (text : String) : p.isWord i text = false := by
  obtain ⟨text', -, has⟩ := marked
  exact has.isWord_eq text

/-- Nothing is bound at a punctuator that opens no pattern. -/
theorem bindsAt_eq (other : openBrace ∉ texts ∧ "[" ∉ texts) : p.bindsAt i = false := by
  rw [bindsAt, marked.isName_eq, marked.isPunct_eq other.1, marked.isPunct_eq other.2]
  rfl

end Marked

theorem Marked.mono {i : Nat} {texts texts' : List String} (marked : p.Marked i texts)
    (among : texts ⊆ texts') : p.Marked i texts' := by
  obtain ⟨text, mem, has⟩ := marked
  exact ⟨text, among mem, has⟩

/-- What stands in front of a punctuator starts with its own first punctuator, or is nothing. -/
theorem Marked.before {i j : Nat} {texts : List String} (next : p.Marked j texts) {ss : List Symbol}
    {text : String} (has : p.HasAll i ss) (place : i + ss.length = j)
    (starts : ∀ s ∈ ss.head?, s = mark text) : p.Marked i (text :: texts) := by
  cases ss with
  | nil =>
    obtain rfl : i = j := place
    obtain ⟨text', among, has⟩ := next
    exact ⟨text', List.mem_cons_of_mem _ among, has⟩
  | cons s ss =>
    obtain rfl := starts s rfl
    exact ⟨text, List.mem_cons_self, has.1⟩

/-! ## Markers, annotations and values -/

/-- A marker is overwritten where it stands. -/
theorem blankMarker_eq {marker : Option String} {text : String} (own : ∀ m ∈ marker, m = text)
    {i j : Nat} {texts : List String} (has : p.HasAll i (markerSymbols marker))
    (place : i + (markerSymbols marker).length = j) (next : p.Marked j texts) (other : text ∉ texts)
    (edits : Edits) :
    p.blankMarker ⟨i, edits⟩ text = ⟨j, p.erased i [⟨true, markerSymbols marker⟩] edits⟩ := by
  unfold blankMarker
  dsimp only
  cases marker with
  | none =>
    obtain rfl : i = j := place
    rw [next.isPunct_eq other, markerSymbols, Option.elim_none, erased_empty]
    rfl
  | some m =>
    obtain rfl := own m rfl
    obtain rfl : i + 1 = j := place
    rw [has.1.isPunct_eq, isPunct_token_mark, beq_self_eq_true, if_pos rfl]
    exact @blankTo_eq p i (i + 1) [mark m] rfl edits

section Types

variable (matched : matchBrackets p.tokens = .ok p.partners)
include matched

/-- An annotation is overwritten where it stands. -/
theorem blankAnnotation_eq {type : Option (List Symbol)} (plain : ∀ ss ∈ type, IsPlainType ss)
    {i j : Nat} {texts : List String} (reads : p.Reads i (annotationSymbols type))
    (place : i + (annotationSymbols type).length = j) (next : p.Marked j texts)
    (other : ∀ text ∈ texts, text ∉ [".", "<", "[", "|", "&", ":"]) (edits : Edits) :
    p.blankAnnotation ⟨i, edits⟩ = .ok ⟨j, p.erased i [⟨true, annotationSymbols type⟩] edits⟩ := by
  cases type with
  | none =>
    obtain rfl : i = j := place
    have noColon : p.isPunct i ":" = false :=
      next.isPunct_eq fun among => other _ among (by decide)
    rw [annotationSymbols, Option.elim_none, erased_empty]
    simp [ blankAnnotation, noColon]
  | some ss =>
    obtain ⟨text, among, has⟩ := next
    have other := other text among
    simp only [List.mem_cons, List.not_mem_nil, or_false, not_or] at other
    have place' : i + 1 + ss.length = j := by
      rw [← place, annotationSymbols, Option.elim_some, List.length_cons]
      omega
    rw [blankAnnotation_of_isPlainType matched (plain ss rfl) reads place' has (by simp [other])]
    exact congrArg Except.ok (blankTo_eq place edits)

end Types

variable {hole : Hole → Except Failure Edits}

/-- A literal is left alone. -/
theorem step_of_isLiteral {i : Nat} {s : Symbol} (has : p.Has i s) (literal : isLiteral s = true)
    (w : Walker) (limit : Nat) (edits : Edits) : p.step w limit ⟨i, edits⟩ = .ok ⟨i + 1, edits⟩ := by
  obtain ⟨kind, text⟩ := s
  cases kind
  case number | string => exact step_of_isIdle has rfl w limit edits
  case ident =>
    have word : text ∈ literalWords := by simpa [isLiteral] using literal
    have free : ∀ text ∈ literalWords, text ∉ Script.takenWords := by decide
    exact step_of_free has (free text word) w limit edits
  all_goals cases literal

/-- A literal is no punctuator. -/
theorem isPunct_of_isLiteral {i : Nat} {s : Symbol} (has : p.Has i s) (literal : isLiteral s = true)
    (text : String) : p.isPunct i text = false := by
  obtain ⟨kind, text'⟩ := s
  rw [has.isPunct_eq]
  cases kind <;> first | rfl | cases literal

/-- A literal that is a value is walked through. -/
theorem walk_literal {i limit : Nat} {s : Symbol} {stop : Nat → Bool} (has : p.Has i s)
    (literal : isLiteral s = true) (less : i < limit) (goes : stop i = false)
    (ends : stop (i + 1) = true ∨ i + 1 = limit) (edits : Edits) :
    p.walk hole limit stop ⟨i, edits⟩ = .ok ⟨i + 1, edits⟩ := by
  rw [walk_eq_step has.lt_size less goes (step_of_isLiteral has literal _ _ edits) (Nat.lt_succ_self i)]
  rcases ends with stops | rfl
  · exact walk_of_stop stops
  · exact walk_of_limit edits

/-- A default value that is a literal is walked through up to the comma behind it or up to the end of
the parameter list. -/
theorem walkValue_eq {value : Option Symbol} (literal : ∀ s ∈ value, isLiteral s = true)
    {i₀ i j close : Nat} (before : i₀ < i) (has : p.HasAll i (valueSymbols value))
    (place : i + (valueSymbols value).length = j) (le : j ≤ close) (next : p.Marked j [",", ")"])
    (ends : p.isPunct j "," = true ∨ j = close) (edits : Edits) :
    p.walkValue (p.walkerAt hole i₀) close [","] ⟨i, edits⟩ = .ok ⟨j, edits⟩ := by
  unfold walkValue
  dsimp only
  cases value with
  | none =>
    obtain rfl : i = j := place
    rw [next.isPunct_eq (by decide)]
    rfl
  | some s =>
    obtain ⟨equals, own, -⟩ := has
    obtain rfl : i + 2 = j := place
    let stop (k : Nat) : Bool := [","].any fun text => p.isPunct k text
    have goes : stop (i + 1) = false := by
      simp [stop, isPunct_of_isLiteral own (literal s rfl)]
    have stops : stop (i + 2) = true ∨ i + 2 = close := by simpa [stop] using ends
    have walked : p.walk hole close stop (State.past ⟨i + 1, edits⟩ i₀) = .ok ⟨i + 2, edits⟩ := by
      rw [past_eq_self (Nat.lt_succ_of_lt before)]
      exact walk_literal own (literal s rfl) (by omega) goes stops edits
    rw [equals.isPunct_eq]
    exact walked

/-! ## Parameters -/

/-- The names in a pattern are walked through. -/
theorem walkBracket_names (matched : matchBrackets p.tokens = .ok p.partners) {opener : String}
    (among : opener = "[" ∨ opener = openBrace) {names : List String}
    (bindable : ∀ x ∈ names, isBindable x = true) {i₀ i j : Nat} (before : i₀ ≤ i)
    (reads : p.Reads i (mark opener :: (Script.parameterSymbols names ++ [mark (closerOf opener)])))
    (place : i + (Script.parameterSymbols names).length + 2 = j) (edits : Edits) :
    p.walkBracket (p.walkerAt hole i₀) ⟨i, edits⟩ = .ok ⟨j, edits⟩ := by
  have among' : opener ∈ openers := by rcases among with rfl | rfl <;> decide
  have nested := Script.Expr.nested_parameterSymbols names
  obtain ⟨inside, close, closer⟩ := reads.inside matched among' nested
  have next : p.close i + 1 = j := by omega
  have symbols : separated (Script.Expr.symbolsOfAll (names.map Script.Expr.name)) =
      Script.parameterSymbols names := by
    rw [Script.Expr.symbolsOfAll_eq_map, List.map_map, Script.parameterSymbols]
    refine congrArg separated (List.map_congr_left fun x _ => ?_)
    simp [Script.Expr.symbols]
  have each : ∀ e ∈ names.map Script.Expr.name, p.Walks hole e := by
    refine List.forall_mem_map.mpr fun x mem => walks_name ?_
    have bindable := bindable x mem
    simp only [isBindable, Bool.and_eq_true, Bool.not_eq_true', List.contains_eq_mem,
      decide_eq_false_iff_not] at bindable
    exact bindable.1
  rw [← symbols] at inside close
  have fresh : p.followsValue (i + 1) = false := by
    refine followsValue_of_mark reads.1.has ?_
    rcases among with rfl | rfl <;> decide
  have other : closerOf opener ∉ [".", ":", "=>", "<", "[", "|", "&"] := by
    rcases among with rfl | rfl <;> decide
  rw [walkBracket_of_walk before (walk_separated each inside close fresh closer other edits), next]

/-- The modifiers in front of a name are overwritten one by one. -/
theorem blankParameterModifiers_words {modifiers : List String}
    (known : ∀ m ∈ modifiers, m ∈ parameterModifiers) {i j : Nat}
    (has : p.HasAll i (modifiers.map word)) (place : i + modifiers.length = j)
    (binds : modifiers ≠ [] → p.isName j = true)
    (stops : (p.isOneOf j parameterModifiers && p.bindsAt (j + 1)) = false) (edits : Edits) :
    p.blankParameterModifiers ⟨i, edits⟩ =
      ⟨j, p.erased i (modifiers.map fun m => ⟨true, [word m]⟩) edits⟩ := by
  induction modifiers generalizing i edits with
  | nil =>
    obtain rfl : i = j := place
    rw [blankParameterModifiers, dif_neg]
    · rfl
    · rw [← Bool.and_eq_true, stops]
      exact Bool.false_ne_true
  | cons m ms ih =>
    rw [List.forall_mem_cons] at known
    have isModifier : p.isOneOf i parameterModifiers = true := by
      rw [has.1.isOneOf_eq]
      simpa using known.1
    have name : p.isName (i + 1) = true := by
      cases ms with
      | nil => exact place ▸ binds (List.cons_ne_nil _ _)
      | cons m' ms => exact has.2.1.isName_eq
    have binding : p.bindsAt (i + 1) = true := by rw [bindsAt, name, Bool.true_or, Bool.true_or]
    have place : i + 1 + ms.length = j := by
      rw [← place, List.length_cons]
      omega
    have rest := ih known.2 has.2 place (fun _ => binds (List.cons_ne_nil _ _))
      (p.erased i [⟨true, [word m]⟩] edits)
    rw [blankParameterModifiers, dif_pos ⟨isModifier, binding⟩, @blankTo_eq p i (i + 1) [word m] rfl]
    exact rest.trans (congrArg (State.mk j) (erased_cons i ⟨true, [word m]⟩ _ edits).symm)

section Bindings

variable {b : Binding} {i j : Nat} (reads : p.Reads i (b.dots ++ b.target))
include reads

/-- What a binding starts with is no modifier in front of what is bound. -/
theorem Reads.not_modifier {texts : List String} (place : i + (b.dots ++ b.target).length = j)
    (next : p.Marked j texts) (other : openBrace ∉ texts ∧ "[" ∉ texts) :
    (p.isOneOf i parameterModifiers && p.bindsAt (i + 1)) = false := by
  cases b with
  | name x =>
    obtain rfl : i + 1 = j := place
    rw [next.bindsAt_eq other, Bool.and_false]
  | rest | object | array =>
    rw [reads.1.isOneOf_eq]
    rfl

/-- The dots in front of a name are stepped over. -/
theorem skipPunct_dots (edits : Edits) : p.skipPunct ⟨i, edits⟩ "..." = ⟨i + b.dots.length, edits⟩ := by
  cases b <;> simp [skipPunct, reads.1.isPunct_eq, Binding.dots, State.skip, State.goto, openBrace]

/-- No decorator starts with what is bound. -/
theorem Reads.not_decorator : p.isPunct i "@" = false := by
  cases b <;> exact reads.1.isPunct_eq "@"

/-- The word `this` is not bound. -/
theorem Reads.not_this (bindable : ∀ x ∈ b.names, isBindable x = true) :
    p.isWord (i + b.dots.length) "this" = false := by
  have ne_this {x : String} (bindable : isBindable x = true) : x ≠ "this" := by
    rw [isBindable, Bool.and_eq_true, bne_iff_ne] at bindable
    exact bindable.2
  have target := (reads_append.mp reads).2
  cases b with
  | name x | rest x =>
    rw [target.1.isWord_eq, isWord_token_word, beq_eq_false_iff_ne]
    exact ne_this (bindable x List.mem_cons_self)
  | object | array => exact target.1.isWord_eq _

end Bindings

/-- What a parameter binds is stepped over or walked through. -/
theorem walkBinding_eq (matched : matchBrackets p.tokens = .ok p.partners) {b : Binding}
    (bindable : ∀ x ∈ b.names, isBindable x = true) {i₀ i j : Nat} (before : i₀ ≤ i)
    (reads : p.Reads i b.target) (place : i + b.target.length = j) (edits : Edits) :
    p.walkBinding (p.walkerAt hole i₀) ⟨i, edits⟩ = .ok ⟨j, edits⟩ := by
  cases b with
  | name x | rest x =>
    obtain rfl : i + 1 = j := place
    exact (walkBinding_name reads.1.has _ edits).2
  | object names | array names =>
    have place : i + (Script.parameterSymbols names).length + 2 = j := by
      rw [← place]
      simp [Binding.target]
      omega
    have walked := @walkBracket_names p hole matched _ (by simp) _ bindable _ _ _ before reads place edits
    simp [walkBinding, reads.1.isPunct_eq, walked]

/-- What stands behind a binding is gone through up to the comma behind it or to the end of the list. -/
theorem parameter_back (matched : matchBrackets p.tokens = .ok p.partners) {q : Parameter}
    (proper : q.IsProper) {i₀ i j close : Nat} (before : i₀ < i) (reads : p.Reads i (allSymbols q.back))
    (place : i + (allSymbols q.back).length = j) (le : j ≤ close) (next : p.Marked j [",", ")"])
    (ends : p.isPunct j "," = true ∨ j = close) (edits : Edits) :
    (p.blankAnnotation (p.blankMarker ⟨i, edits⟩ "?") >>= p.walkValue (p.walkerAt hole i₀) close [","]) =
        .ok ⟨j, p.erased i q.back edits⟩ ∧
      p.Marked i ["?", ":", "=", ",", ")"] := by
  obtain ⟨modifiers, binding, optional, type, value⟩ := q
  simp only [Parameter.back, allSymbols_cons, allSymbols_nil, List.append_nil, List.length_append,
    ← Nat.add_assoc] at reads place
  obtain ⟨marker, reads⟩ := reads_append.mp reads
  obtain ⟨ annotation, own⟩ := reads_append.mp reads
  have markedValue : p.Marked _ ["=", ",", ")"] :=
    next.before own.hasAll place (by cases value <;> simp [valueSymbols])
  have markedType : p.Marked _ [":", "=", ",", ")"] :=
    markedValue.before annotation.hasAll rfl (by cases type <;> simp [annotationSymbols])
  have markedMarker : p.Marked _ ["?", ":", "=", ",", ")"] :=
    markedType.before marker.hasAll rfl (by cases optional <;> simp [markerSymbols])
  refine ⟨?_, markedMarker⟩
  rw [blankMarker_eq (by cases optional <;> simp) marker.hasAll rfl markedType (by decide),
    blankAnnotation_eq matched proper.type annotation rfl markedValue (by decide)]
  refine (walkValue_eq proper.value (by omega) own.hasAll place le next ends _).trans ?_
  rw [Parameter.back, erased_cons_cons, erased_cons_cons, erased_keep]

/-- A property is the name behind modifiers. -/
theorem property?_eq {q : Parameter} (proper : q.IsProper) {i : Nat}
    (target : p.Reads (i + q.modifiers.length + q.binding.dots.length) q.binding.target) :
    (if i < i + q.modifiers.length then some (p.text (i + q.modifiers.length + q.binding.dots.length))
      else none) = q.property? := by
  obtain ⟨modifiers, binding, optional, type, value⟩ := q
  cases modifiers with
  | nil => exact if_neg (Nat.lt_irrefl i)
  | cons m ms =>
    have isName := proper.property (List.cons_ne_nil _ _)
    cases binding with
    | name x =>
      rw [if_pos (by simp), target.1.text_eq]
      rfl
    | rest | object | array => cases isName

/-- A parameter is gone through, with the comma behind it if there is one. -/
theorem parameter_binds (matched : matchBrackets p.tokens = .ok p.partners) {q : Parameter}
    (proper : q.IsProper) {i₀ i j close : Nat} (before : i₀ < i)
    (reads : p.Reads i (allSymbols q.parts)) (place : i + (allSymbols q.parts).length = j)
    (le : j ≤ close) (next : p.Marked j [",", ")"]) (ends : p.isPunct j "," = true ∨ j = close)
    (edits : Edits) : p.parameter (p.walkerAt hole i₀) close ⟨i, edits⟩ =
      .ok (⟨if p.isPunct j "," then j + 1 else j, p.erased i q.parts edits⟩, q.property?) := by
  rw [Parameter.parts, allSymbols_append, allSymbols_words, allSymbols_cons] at reads place
  obtain ⟨words, reads⟩ := reads_append.mp reads
  obtain ⟨bound, reads⟩ := reads_append.mp reads
  rw [List.length_append, List.length_append, List.length_map, ← Nat.add_assoc, ← Nat.add_assoc] at place
  rw [List.length_map] at bound reads
  have target := (reads_append.mp bound).2
  -- The places of what is bound and of what stands behind it.
  generalize atBinding : i + q.modifiers.length = a at *
  generalize atBack : a + (q.binding.dots ++ q.binding.target).length = c at *
  obtain ⟨back, marked⟩ := @parameter_back p hole matched q proper i₀ c j close (by omega) reads place le next
    ends (p.erased i (q.modifiers.map fun m => ⟨true, [word m]⟩) edits)
  obtain ⟨typed, annotated, valued⟩ := bind_eq_ok.mp back
  have noDecorator : p.isPunct i "@" = false := by
    cases same : q.modifiers with
    | nil =>
      rw [same] at atBinding
      obtain rfl : i = a := atBinding
      exact bound.not_decorator
    | cons m ms => exact (same ▸ words).1.isPunct_eq "@"
  have isName : q.modifiers ≠ [] → p.isName a = true := by
    intro some
    have isName := proper.property some
    cases same : q.binding with
    | name x => exact (same ▸ bound).1.isName_eq
    | rest | object | array =>
      rw [same] at isName
      cases isName
  have unmodified := blankParameterModifiers_words proper.modifiers words.hasAll atBinding isName
    (bound.not_modifier atBack marked (by decide)) edits
  have atTarget : a + q.binding.dots.length + q.binding.target.length = c := by
    rw [← atBack, List.length_append, Nat.add_assoc]
  have walked := @walkBinding_eq p hole matched _ proper.names i₀ _ c (by omega) target atTarget
    (p.erased i (q.modifiers.map fun m => ⟨true, [word m]⟩) edits)
  have edits_eq : p.erased i q.parts edits =
      p.erased c q.back (p.erased i (q.modifiers.map fun m => ⟨true, [word m]⟩) edits) := by
    rw [Parameter.parts, erased_append, allSymbols_words, List.length_map, atBinding, erased_cons,
      erased_keep, atBack]
  have property := property?_eq proper (i := i) (atBinding.symm ▸ target)
  rw [atBinding] at property
  unfold parameter
  dsimp only
  rw [noDecorator, unmodified, skipPunct_dots bound, bound.not_this proper.names]
  refine bind_eq_ok.mpr ⟨_, walked, bind_eq_ok.mpr ⟨_, annotated, bind_eq_ok.mpr ⟨_, valued, ?_⟩⟩⟩
  rw [edits_eq, ← property]
  rcases ends with comma | rfl
  · rw [comma]
    rfl
  · cases p.isPunct j "," <;> simp [State.skip, State.goto]

/-- Overwriting the tokens in front of the state's position leaves the edits of one part. -/
theorem blank_eq {i j : Nat} {ss : List Symbol} (place : i + ss.length = j) (edits : Edits) :
    p.blank ⟨j, edits⟩ i j = ⟨j, p.erased i [⟨true, ss⟩] edits⟩ :=
  (blank_goto ⟨i, edits⟩ j i j).trans (blankTo_eq place edits)

/-- The type of `this` goes as a whole, with the comma behind it if there is one. -/
theorem parameter_this (matched : matchBrackets p.tokens = .ok p.partners) {type : List Symbol}
    (plain : IsPlainType type) {comma : Bool} {i j close : Nat}
    (reads : p.Reads i (allSymbols ((Formal.this type).parts comma)))
    (place : i + (allSymbols ((Formal.this type).parts comma)).length = j)
    (ends : comma = false → p.Marked j [")"]) (w : Walker) (edits : Edits) :
    p.parameter w close ⟨i, edits⟩ =
      .ok (⟨j, p.erased i ((Formal.this type).parts comma) edits⟩, none) := by
  simp only [Formal.parts, allSymbols_cons, allSymbols_nil, List.append_nil] at reads place
  have whole := @blank_eq p i j _ place edits
  obtain ⟨this, colon, rest⟩ := reads
  obtain ⟨reads, own⟩ := reads_append.mp rest
  have place : i + 2 + type.length + (markerSymbols (if comma then some "," else none)).length = j := by
    rw [← place]
    simp only [List.length_cons, List.length_append]
    omega
  have next : ∃ text ∈ [",", ")"], p.Has (i + 2 + type.length) (mark text) ∧
      p.skipPunct ⟨i + 2 + type.length, edits⟩ "," = ⟨j, edits⟩ := by
    cases comma with
    | true =>
      obtain rfl : i + 2 + type.length + 1 = j := place
      have comma : p.Has (i + 2 + type.length) (mark ",") := own.1.has
      exact ⟨",", by simp, comma, by simp [skipPunct, comma.isPunct_eq, State.skip, State.goto]⟩
    | false =>
      obtain rfl : i + 2 + type.length = j := place
      obtain ⟨text, among, has⟩ := ends rfl
      obtain rfl := List.mem_singleton.mp among
      exact ⟨")", by simp, has, by simp [skipPunct, has.isPunct_eq]⟩
  obtain ⟨text, among, has, skipped⟩ := next
  have calm : ∀ text ∈ [",", ")"], text ∉ [".", "<", "[", "|", "&"] := by decide
  have ends' := typeStop?_of_isPlainType matched plain reads rfl has (calm text among)
  have expected : p.expectType (i + 2) = .ok (i + 2 + type.length) := by
    rw [expectType_eq, ends']
    rfl
  have unmodified : p.blankParameterModifiers ⟨i, edits⟩ = ⟨i, edits⟩ := by
    rw [blankParameterModifiers, dif_neg]
    rw [this.isOneOf_eq]
    exact fun both => absurd both.1 (by decide)
  have noDots : p.skipPunct ⟨i, edits⟩ "..." = ⟨i, edits⟩ := by simp [skipPunct, this.isPunct_eq]
  unfold parameter
  dsimp only
  rw [this.isPunct_eq, unmodified, noDots, this.isWord_eq, colon.isPunct_eq]
  refine bind_eq_ok.mpr ⟨_, expected, ?_⟩
  rw [State.goto]
  dsimp only
  rw [skipped, whole]
  rfl

/-- An entry of a parameter list is gone through, with the comma behind it if there is one. -/
theorem parameter_eq (matched : matchBrackets p.tokens = .ok p.partners) {e : Formal} (proper : e.IsProper)
    {comma : Bool} {i₀ i j close : Nat} (before : i₀ < i) (reads : p.Reads i (allSymbols (e.parts comma)))
    (place : i + (allSymbols (e.parts comma)).length = j) (le : j ≤ close)
    (ends : comma = false → p.Marked j [")"] ∧ j = close) (edits : Edits) :
    p.parameter (p.walkerAt hole i₀) close ⟨i, edits⟩ =
      .ok (⟨j, p.erased i (e.parts comma) edits⟩, e.property?) := by
  cases e with
  | this type => exact parameter_this matched proper reads place (fun none => (ends none).1) _ edits
  | binds q =>
    have proper : q.IsProper := proper
    simp only [Formal.parts, allSymbols_append, allSymbols_cons, allSymbols_nil, List.append_nil,
      List.length_append, ← Nat.add_assoc] at reads place
    obtain ⟨front, own⟩ := reads_append.mp reads
    have same : p.erased i ((Formal.binds q).parts comma) edits = p.erased i q.parts edits := by
      rw [Formal.parts, erased_append, erased_keep]
    rw [same]
    cases comma with
    | true =>
      have comma : p.Has (i + (allSymbols q.parts).length) (mark ",") := own.1.has
      have isComma : p.isPunct (i + (allSymbols q.parts).length) "," = true := comma.isPunct_eq ","
      have done := @parameter_binds p hole matched q proper i₀ i _ close before front rfl
        (le_trans (Nat.le_add_right ..) (place.trans_le le)) ⟨",", by simp, comma⟩ (.inl isComma) edits
      rw [isComma, if_pos rfl] at done
      rw [← place]
      exact done
    | false =>
      obtain ⟨closer, atClose⟩ := ends rfl
      have done := @parameter_binds p hole matched q proper i₀ i j close before front place le
        (closer.mono (by simp)) (.inr atClose) edits
      rw [closer.isPunct_eq (by decide)] at done
      exact done

/-- The entries of a parameter list are gone through one after the other. -/
theorem parametersTo_eq (matched : matchBrackets p.tokens = .ok p.partners) {trailing : Bool}
    {es : List Formal} (proper : ∀ e ∈ es, e.IsProper) {i₀ i close : Nat} (before : i₀ < i)
    (reads : p.Reads i (allSymbols (entryParts trailing es)))
    (place : i + (allSymbols (entryParts trailing es)).length = close) (closer : p.Has close (mark ")"))
    (properties : List String) (edits : Edits) :
    p.parametersTo (p.walkerAt hole i₀) close properties ⟨i, edits⟩ =
      .ok (⟨close, p.erased i (entryParts trailing es) edits⟩, properties ++ propertiesOf es) := by
  have ended (properties : List String) (edits : Edits) :
      p.parametersTo (p.walkerAt hole i₀) close properties ⟨close, edits⟩ = .ok (⟨close, edits⟩, properties) := by
    rw [parametersTo]
    exact if_neg (Nat.lt_irrefl close)
  have atCloser : p.Marked close [")"] := ⟨")", List.mem_singleton_self _, closer⟩
  fun_induction entryParts trailing es generalizing i properties edits with
  | case1 =>
    obtain rfl : i = close := place
    simpa [propertiesOf, erased_nil] using ended properties edits
  | case2 e =>
    have some := e.length_pos trailing
    have next := parametersTo_next (by omega) (@parameter_eq p hole matched e (proper e List.mem_cons_self)
      trailing i₀ i close close before reads place le_rfl (fun _ => ⟨atCloser, rfl⟩) edits) (by omega) properties
    rw [next, ended]
    cases own : e.property? <;> simp [propertiesOf, own]
  | case3 e es _ ih =>
    rw [List.forall_mem_cons] at proper
    rw [allSymbols_append] at reads place
    obtain ⟨front, rest⟩ := reads_append.mp reads
    rw [List.length_append, ← Nat.add_assoc] at place
    have some := e.length_pos true
    have next := parametersTo_next (by omega) (@parameter_eq p hole matched e proper.1 true i₀ i _ close before
      front rfl (by omega) (fun none => by cases none) edits) (by omega) properties
    rw [next, erased_append, ih proper.2 (by omega) rest place]
    cases own : e.property? <;> simp [propertiesOf, own]

/-- A parameter list is gone through, and the types in it are overwritten, whatever construct it is
part of. -/
theorem parameters_eq (matched : matchBrackets p.tokens = .ok p.partners) {g : Signature}
    (proper : g.IsProper) {i₀ i j : Nat} (before : i₀ ≤ i) (opens : p.Shows i (mark "("))
    (reads : p.Reads (i + 1) (allSymbols (entryParts g.trailing g.entries) ++ [mark ")"]))
    (place : i + 2 + (allSymbols (entryParts g.trailing g.entries)).length = j) (edits : Edits) :
    p.close i + 1 = j ∧ p.parameters (p.walkerAt hole i₀) ⟨i, edits⟩ =
      .ok (⟨j, p.erased (i + 1) (entryParts g.trailing g.entries) edits⟩, propertiesOf g.entries) := by
  have bracket : p.Reads i (mark "(" :: (allSymbols (entryParts g.trailing g.entries) ++
      [mark (closerOf "(")])) := ⟨opens, reads⟩
  obtain ⟨inside, close, closer⟩ :=
    bracket.inside matched (by decide) (nested_entryParts proper.entries g.trailing)
  have next : p.close i + 1 = j := by omega
  refine ⟨next, ?_⟩
  have list := @parametersTo_eq p hole matched g.trailing g.entries proper.entries i₀ (i + 1) (p.close i)
    (Nat.lt_succ_of_le before) inside close closer.has [] edits
  rw [parameters, ← next]
  exact bind_eq_ok.mpr ⟨_, list, rfl⟩

section Signatures

variable (matched : matchBrackets p.tokens = .ok p.partners) {g : Signature} (proper : g.IsProper)
  {i₀ i j : Nat} {texts : List String} (before : i₀ ≤ i) (opens : p.Shows i (mark "("))
  (reads : p.Reads (i + 1) (allSymbols g.parts)) (place : i + 1 + (allSymbols g.parts).length = j)
  (next : p.Marked j texts) (other : ∀ text ∈ texts, text ∉ [".", "<", "[", "|", "&", ":"])
include matched proper before opens reads place next other

/-- A parameter list is gone through, and then the type of the result. -/
theorem parameters_typed (edits : Edits) :
    ∃ s, p.parameters (p.walkerAt hole i₀) ⟨i, edits⟩ = .ok (s, propertiesOf g.entries) ∧
      p.blankAnnotation s = .ok ⟨j, p.erased (i + 1) g.parts edits⟩ := by
  simp only [Signature.parts, allSymbols_append, allSymbols_cons, allSymbols_nil, List.append_nil,
    List.length_append, List.length_singleton] at reads place
  obtain ⟨list, closer, annotation⟩ := reads_append.mp reads
  have inside : p.Reads (i + 1) (allSymbols (entryParts g.trailing g.entries) ++ [mark ")"]) :=
    reads_append.mpr ⟨list, closer, trivial⟩
  obtain ⟨-, done⟩ := @parameters_eq p hole matched g proper i₀ i _ before opens inside rfl edits
  have typed := blankAnnotation_eq matched proper.result annotation (by omega) next other
    (p.erased (i + 1) (entryParts g.trailing g.entries) edits)
  have atResult : i + 1 + (allSymbols (entryParts g.trailing g.entries)).length + 1 =
      i + 2 + (allSymbols (entryParts g.trailing g.entries)).length := by omega
  rw [atResult] at typed
  refine ⟨_, done, typed.trans ?_⟩
  rw [Signature.parts, erased_append, erased_cons_cons, erased_keep, List.length_singleton, atResult]

/-- The parameters and the result type of a function without properties are gone through. -/
theorem signature_eq (none : propertiesOf g.entries = []) (edits : Edits) :
    p.signature (p.walkerAt hole i₀) ⟨i, edits⟩ = .ok ⟨j, p.erased (i + 1) g.parts edits⟩ := by
  obtain ⟨s, done, typed⟩ :=
    @parameters_typed p hole matched g proper i₀ i j texts before opens reads place next other edits
  refine bind_eq_ok.mpr ⟨_, done, ?_⟩
  dsimp only
  rw [none]
  exact typed

end Signatures

end Erase.Program

end ModuleLinker
