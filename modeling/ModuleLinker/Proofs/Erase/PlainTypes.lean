import ModuleLinker.Proofs.Erase.ScriptWalk

/-!
# Types of names, type arguments, arrays and unions

Types without function types among them (`IsPlainType`). The search for the end of such a type stops
behind it at any punctuator that does not go on with it, an arrow included (`typeStop?_of_isPlainType`),
so that it is found as an annotation wherever one may stand, and as the result of an arrow function.
Type parameters are overwritten from their opening bracket to the closing one.
-/

set_option autoImplicit false

namespace ModuleLinker

open Erase ModuleLinker.Symbol

/-! ## The grammar -/

/-- Whether symbols make up a type of names, type arguments, arrays and unions. The element of an array
may stand in parentheses. -/
inductive IsPlainType : List Symbol → Prop
  /-- A name, which may be qualified. -/
  | name {first : String} {segments : List String} : first ∉ typeOperators →
      IsPlainType (qualified first segments)
  /-- A name with type arguments. -/
  | generic {first : String} {segments : List String} {arguments : List (List Symbol)} :
      first ∉ typeOperators → arguments ≠ [] → (∀ ss ∈ arguments, IsPlainType ss) →
      IsPlainType (qualified first segments ++ mark "<" :: (separated arguments ++ [mark ">"]))
  /-- An array type. -/
  | array {ss : List Symbol} : IsPlainType ss → IsPlainType (ss ++ [mark "[", mark "]"])
  /-- An array type whose elements are of a type in parentheses. -/
  | grouped {ss : List Symbol} : IsPlainType ss →
      IsPlainType ((mark "(" :: (ss ++ [mark ")"])) ++ [mark "[", mark "]"])
  /-- A union type. -/
  | union {ss ts : List Symbol} : IsPlainType ss → IsPlainType ts →
      IsPlainType (ss ++ mark "|" :: ts)

theorem IsPlainType.isType {ss : List Symbol} (plain : IsPlainType ss) : IsType ss := by
  induction plain with
  | name other => exact .name other
  | generic other some _ ih => exact .generic other some ih
  | array _ ih => exact .array ih
  | grouped _ ih => exact .array (.parenthesized ih)
  | union _ _ ih ih' => exact .union ih ih'

namespace Erase.Program

variable {p : Program} (matched : matchBrackets p.tokens = .ok p.partners)
include matched

/-- The search for the end of a union is on behind a plain type where it is before it. -/
theorem unionStop?_of_isPlainType {ss : List Symbol} (plain : IsPlainType ss) {i k : Nat} {text : String}
    (reads : p.Reads i ss) (place : i + ss.length = k) (next : p.Has k (mark text))
    (other : text ∉ [".", "<"]) : p.unionStop? i = p.operandsStop? (p.indexesStop k) := by
  have start := unionStop?_eq_bind plain.isType reads
  have noName {k : Nat} {text : String} (next : p.Has k (mark text)) :
      (p.isName k && !p.newlineBefore k) = false := by simp [next.isName_eq]
  induction plain generalizing i k text with
  | @name first segments free =>
    simp only [List.mem_cons, List.not_mem_nil, or_false, not_or] at other
    rw [length_qualified, ← Nat.add_assoc] at place
    have arguments : p.argumentsStop? true k = some k := by
      simp [argumentsStop?, next.isPunct_eq, other]
    rw [start, operandStop?_of_reads free reads place (by simp [next.isPunct_eq, other])
      (next.isWord_eq _) (noName next) arguments (noName next)]
    rfl
  | @generic first segments arguments free _ all _ =>
    obtain ⟨name, opener, rest⟩ := reads_append.mp reads
    obtain ⟨inside, closer, -⟩ := reads_append.mp rest
    rw [length_qualified, ← Nat.add_assoc] at opener inside closer
    have last : i + 1 + 2 * segments.length + 1 + (separated arguments).length + 1 = k := by
      rw [← place, List.length_append, length_qualified]
      simp only [List.length_cons, List.length_append, List.length_nil]
      omega
    have stop : p.argumentsStop? true (i + 1 + 2 * segments.length) = .some k := by
      have passed := isPassed_separated (fun ss mem => (all ss mem).isType.isPassed) p matched 0 _ inside
      rw [argumentsStop?, opener.isPunct_eq, opener.newlineBefore_eq, passed, closer.angleStop?_closer,
        ← last]
      rfl
    rw [start, operandStop?_of_reads free name rfl (opener.isPunct_eq ".") (opener.isWord_eq "new")
      (noName opener.has) stop (noName next)]
    rfl
  | @array ss plain ih =>
    obtain ⟨inside, brackets⟩ := reads_append.mp reads
    have close : p.close (i + ss.length) + 1 = k := by
      rw [← place, List.length_append, ← Nat.add_assoc]
      exact brackets.close_succ matched (by decide) .nil
    rw [ih inside rfl brackets.1.has (by decide) (unionStop?_eq_bind plain.isType inside),
      indexesStop_eq, brackets.1.isPunct_eq, brackets.1.newlineBefore_eq, if_pos (by decide), close]
  | @grouped ss plain _ =>
    obtain ⟨group, brackets⟩ := reads_append.mp reads
    have inner : p.close i + 1 = i + (mark "(" :: (ss ++ [mark ")"])).length :=
      group.close_succ matched (by decide) plain.isType.nested
    have close : p.close (p.close i + 1) + 1 = k := by
      rw [← place, List.length_append, ← Nat.add_assoc, inner]
      exact brackets.close_succ matched (by decide) .nil
    rw [← inner] at brackets
    rw [start, operandStop?_of_parenthesis group.1 (brackets.1.isPunct_eq _), Option.bind_some,
      indexesStop_eq, brackets.1.isPunct_eq, brackets.1.newlineBefore_eq, if_pos (by decide), close]
  | @union ss ts plain plain' ih ih' =>
    obtain ⟨inside, bar, rest⟩ := reads_append.mp reads
    have place : i + ss.length + 1 + ts.length = k := by
      rw [← place, List.length_append, List.length_cons]
      omega
    have start' := unionStop?_eq_bind plain'.isType rest
    rw [ih inside rfl bar.has (by decide) (unionStop?_eq_bind plain.isType inside),
      indexesStop_of_not_bracket (bar.isPunct_eq "["), operandsStop?_of_sign (bar.signAt_sign (by decide)),
      ← start', ih' rest place next other start']

/-- A plain type ends behind its symbols at a punctuator that does not go on with it. -/
theorem typeStop?_of_isPlainType {ss : List Symbol} (plain : IsPlainType ss) {i k : Nat} {text : String}
    (reads : p.Reads i ss) (place : i + ss.length = k) (next : p.Has k (mark text))
    (other : text ∉ [".", "<", "[", "|", "&"]) : p.typeStop? i = some k := by
  simp only [List.mem_cons, List.not_mem_nil, or_false, not_or] at other
  have union := unionStop?_of_isPlainType matched plain reads place next (by simp [other])
  have noSign : p.signAt k = false := by simp [signAt, next.isPunct_eq, other]
  rw [typeStop?_eq, union, indexesStop_of_not_bracket (by simp [next.isPunct_eq, other]),
    operandsStop?_of_not_sign noSign, Option.bind_some, next.isWord_eq]
  exact if_neg fun conditional => Bool.false_ne_true conditional.1

/-- An annotation is overwritten from its colon to the end of its type. -/
theorem blankAnnotation_of_isPlainType {ss : List Symbol} (plain : IsPlainType ss) {i k : Nat}
    {text : String} (reads : p.Reads i (mark ":" :: ss)) (place : i + 1 + ss.length = k)
    (next : p.Has k (mark text)) (other : text ∉ [".", "<", "[", "|", "&"]) (edits : Edits) :
    p.blankAnnotation ⟨i, edits⟩ = .ok (p.blankTo ⟨i, edits⟩ k) := by
  have type := typeStop?_of_isPlainType matched plain reads.2 place next other
  unfold blankAnnotation
  dsimp only
  rw [reads.1.isPunct_eq, expectType_eq, type]
  rfl

end Erase.Program

/-! ## Type parameters -/

/-- A type parameter. -/
structure TypeParameter where
  /-- The name. -/
  name : String
  /-- The type behind `extends`. -/
  bound : Option (List Symbol)
  /-- The type behind an equals sign. -/
  default : Option (List Symbol)
  deriving DecidableEq

namespace TypeParameter

/-- The symbols of a type parameter. -/
def symbols (t : TypeParameter) : List Symbol :=
  word t.name :: ((t.bound.elim [] fun ss => word "extends" :: ss) ++
    t.default.elim [] fun ss => mark "=" :: ss)

/-- Whether the types in a type parameter are plain. -/
structure IsProper (t : TypeParameter) : Prop where
  /-- The type behind `extends`. -/
  bound : ∀ ss ∈ t.bound, IsPlainType ss
  /-- The type behind an equals sign. -/
  default : ∀ ss ∈ t.default, IsPlainType ss

theorem IsProper.nested {t : TypeParameter} (proper : t.IsProper) : Nested t.symbols := by
  obtain ⟨name, bound, default⟩ := t
  refine .cons rfl (.append ?_ ?_)
  · cases bound with
    | none => exact .nil
    | some ss => exact .cons rfl (proper.bound ss rfl).isType.nested
  · cases default with
    | none => exact .nil
    | some ss => exact .cons rfl (proper.default ss rfl).isType.nested

theorem IsProper.isPassed {t : TypeParameter} (proper : t.IsProper) : IsPassed t.symbols := by
  obtain ⟨name, bound, default⟩ := t
  refine IsPassed.append (.plain (s := word name) rfl) (.append ?_ ?_)
  · cases bound with
    | none => exact .nil
    | some ss => exact IsPassed.append (.plain (s := word "extends") rfl) (proper.bound ss rfl).isType.isPassed
  · cases default with
    | none => exact .nil
    | some ss =>
      exact IsPassed.append (.plain (s := mark "=") (by decide)) (proper.default ss rfl).isType.isPassed

end TypeParameter

/-- The symbols of a list of type parameters; there are none where the list is empty. -/
def typeParameterSymbols : List TypeParameter → List Symbol
  | [] => []
  | ts => mark "<" :: (separated (ts.map TypeParameter.symbols) ++ [mark ">"])

theorem nested_typeParameterSymbols {ts : List TypeParameter} (proper : ∀ t ∈ ts, t.IsProper) :
    Nested (typeParameterSymbols ts) := by
  cases ts with
  | nil => exact .nil
  | cons t ts =>
    have inside := nested_separated (List.forall_mem_map.mpr fun t mem => (proper t mem).nested)
    exact .cons rfl (inside.append (.plain rfl))

/-- Type parameters are overwritten from their opening bracket to the closing one. -/
theorem Erase.Program.blankTypeParameters_eq {p : Program} (matched : matchBrackets p.tokens = .ok p.partners)
    {ts : List TypeParameter} (proper : ∀ t ∈ ts, t.IsProper) {i k : Nat}
    (reads : p.Reads i (typeParameterSymbols ts)) (place : i + (typeParameterSymbols ts).length = k)
    (other : ts = [] → p.isPunct i "<" = false) (edits : Edits) :
    p.blankTypeParameters ⟨i, edits⟩ = .ok (p.blankTo ⟨i, edits⟩ k) := by
  cases ts with
  | nil =>
    obtain rfl : i = k := place
    have stays : p.blankTo ⟨i, edits⟩ i = ⟨i, edits⟩ :=
      congrArg (State.goto · i) (if_neg (Nat.lt_irrefl i))
    rw [stays, blankTypeParameters, other rfl]
    rfl
  | cons t ts =>
    obtain ⟨opener, rest⟩ := reads
    obtain ⟨inside, closer, -⟩ := reads_append.mp rest
    have passed := isPassed_separated (List.forall_mem_map.mpr fun t mem => (proper t mem).isPassed)
      p matched 0 _ inside
    have last : i + 1 + (separated ((t :: ts).map TypeParameter.symbols)).length + 1 = k := by
      rw [← place]
      simp only [typeParameterSymbols, List.length_cons, List.length_append, List.length_nil]
      omega
    unfold blankTypeParameters
    dsimp only
    rw [opener.isPunct_eq, expectAngle_eq, passed, closer.angleStop?_closer, if_pos rfl, last]
    rfl

end ModuleLinker
