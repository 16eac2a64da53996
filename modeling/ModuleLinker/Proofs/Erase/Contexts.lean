import ModuleLinker.Proofs.Erase.Classes

/-!
# Signatures in every context

A parameter list with a result type stands behind the name of a function, in an arrow function, or behind
the name of a method of an object or of a class (`Context`). The search takes the parenthesis for one that
holds parameters in each of them, so that the same characters are overwritten everywhere
(`erase_signature`).
-/

set_option autoImplicit false

namespace ModuleLinker

open Erase ModuleLinker.Symbol

/-! ## Contexts -/

/-- What a signature is part of. -/
inductive Context where
  /-- The function `function f(P): R { }`. -/
  | function (f : String)
  /-- The arrow function `const f = (P): R => 0;`. -/
  | arrow (f : String)
  /-- The method `const o = { m(P): R { } };`. -/
  | objectMethod (o m : String)
  /-- The method `class C { m(P): R { } }`. -/
  | classMethod (c m : String)
  deriving DecidableEq

namespace Context

/-- The names. -/
def names : Context → List String
  | function f | arrow f => [f]
  | objectMethod o m => [o, m]
  | classMethod c m => [c, m]

/-- The symbols up to the parenthesis that opens the parameter list. -/
def front : Context → List Symbol
  | function f => [word "function", word f, mark "("]
  | arrow f => [word "const", word f, mark "=", mark "("]
  | objectMethod o m => [word "const", word o, mark "=", mark openBrace, word m, mark "("]
  | classMethod c m => [word "class", word c, mark openBrace, word m, mark "("]

/-- The symbols behind the result type. -/
def back : Context → List Symbol
  | function _ => [mark openBrace, mark closeBrace]
  | arrow _ => [mark "=>", ⟨.number, "0"⟩, mark ";"]
  | objectMethod .. => [mark openBrace, mark closeBrace, mark closeBrace, mark ";"]
  | classMethod .. => [mark openBrace, mark closeBrace, mark closeBrace]

/-- Whether the names are those of values and methods. -/
def IsProper (context : Context) : Prop :=
  ∀ x ∈ context.names, x ∉ Script.takenWords ++ Program.controlWords ++ ["extends", "implements"]

end Context

/-- The class with a single method that has a signature. -/
def classOf (c m : String) (g : Signature) : ClassShape :=
  ⟨[], false, some c, [], [], [.method ⟨[], word m, none⟩ [] g]⟩

/-- Whether a signature declares no properties. -/
def Signature.IsOrdinary (g : Signature) : Prop :=
  ∀ q, Formal.binds q ∈ g.entries → q.modifiers = []

theorem Signature.IsOrdinary.propertiesOf_eq {g : Signature} (ordinary : g.IsOrdinary) :
    propertiesOf g.entries = [] := by
  refine List.filterMap_eq_nil_iff.mpr fun e mem => ?_
  cases e with
  | this type => rfl
  | binds q =>
    have none := ordinary q mem
    obtain ⟨modifiers, binding, optional, type, value⟩ := q
    cases none
    rfl

/-- The symbols of a method with an empty body. -/
def methodSymbols (m : String) (g : Signature) : List Symbol :=
  word m :: mark "(" :: (allSymbols g.parts ++ [mark openBrace, mark closeBrace])

theorem nested_body : Nested [mark openBrace, mark closeBrace] :=
  @Nested.bracket openBrace [] (by decide) .nil

theorem nested_methodSymbols (m : String) {g : Signature} (proper : g.IsProper) :
    Nested (methodSymbols m g) := .cons rfl (proper.nested.append nested_body)

/-- The brackets of a signature in its context have partners. -/
theorem Context.nested (context : Context) {g : Signature} (proper : g.IsProper) :
    Nested (context.front ++ (allSymbols g.parts ++ context.back)) := by
  cases context with
  | function f => exact .cons rfl (.cons rfl (proper.nested.append nested_body))
  | arrow f =>
    exact .cons rfl (.cons rfl (.cons rfl (proper.nested.append (.cons rfl (.cons rfl (.plain rfl))))))
  | objectMethod o m =>
    have object := (@Nested.bracket openBrace _ (by decide) (nested_methodSymbols m proper)).append (.plain (s := mark ";") rfl)
    have whole : Nested (word "const" :: word o :: mark "=" :: _) := .cons rfl (.cons rfl (.cons rfl object))
    simpa [front, back, methodSymbols, closerOf, openBrace] using whole
  | classMethod c m =>
    have whole : Nested (word "class" :: word c :: _) :=
      .cons rfl (.cons rfl (@Nested.bracket openBrace _ (by decide) (nested_methodSymbols m proper)))
    simpa [front, back, methodSymbols, closerOf, openBrace] using whole

namespace Erase.Program

variable {p : Program} {hole : Hole → Except Failure Edits}

section Walks

variable (matched : matchBrackets p.tokens = .ok p.partners) {g : Signature} (proper : g.IsProper)
include matched proper

/-- What stands behind a signature is found behind its parenthesis or behind its result type. -/
theorem leadsTo_of_signature {i j : Nat} {text : String} (known : text = "=>" ∨ text = openBrace)
    (opens : p.Shows i (mark "(")) (reads : p.Reads (i + 1) (allSymbols g.parts))
    (place : i + 1 + (allSymbols g.parts).length = j) (next : p.Shows j (mark text)) {sought : String}
    (among : sought = "=>" ∨ sought = openBrace) :
    (p.isPunct (p.close i + 1) sought || p.typedBefore (p.close i) sought) = (sought == text) ∧
      p.newlineBefore (p.close i + 1) = false := by
  simp only [Signature.parts, allSymbols_append, allSymbols_cons, allSymbols_nil, List.append_nil,
    List.length_append, List.length_singleton] at reads place
  obtain ⟨list, closer, annotation⟩ := reads_append.mp reads
  have bracket : p.Reads i (mark "(" :: (allSymbols (entryParts g.trailing g.entries) ++ [mark ")"])) :=
    ⟨opens, reads_append.mpr ⟨list, closer, trivial⟩⟩
  have close := @Reads.close_eq p i "(" _ matched (by decide)
    (nested_entryParts proper.entries g.trailing) bracket
  rw [← close] at annotation
  have isPunct : p.isPunct j sought = (sought == text) := (next.isPunct_eq sought).trans (BEq.comm ..)
  have noColon : sought ≠ ":" := by rcases among with rfl | rfl <;> decide
  cases same : g.result with
  | none =>
    rw [same] at place
    obtain rfl : p.close i + 1 = j := by
      rw [close, ← place, Nat.add_assoc]
      rfl
    have untyped : p.isPunct (p.close i + 1) ":" = false :=
      (next.isPunct_eq ":").trans (by rcases known with rfl | rfl <;> rfl)
    rw [isPunct, typedBefore_of_not_colon untyped, Bool.or_false]
    exact ⟨rfl, next.newlineBefore_eq⟩
  | some ss =>
    rw [same] at annotation place
    obtain ⟨colon, type⟩ := annotation
    have typePlace : p.close i + 2 + ss.length = j := by
      rw [close, ← place]
      simp only [annotationSymbols, Option.elim_some, List.length_cons]
      omega
    have stop : p.typeStop? (p.close i + 2) = some j :=
      typeStop?_of_isPlainType matched (proper.result ss same) type typePlace next.has
        (by rcases known with rfl | rfl <;> decide)
    rw [typedBefore_eq, stop, Option.any_some, isPunct, next.newlineBefore_eq, colon.isPunct_eq,
      colon.isPunct_eq, isPunct_token_mark, isPunct_token_mark, beq_eq_false_iff_ne.mpr noColon.symm]
    exact ⟨by simp, colon.newlineBefore_eq⟩

section Parentheses

variable (ordinary : g.IsOrdinary) {i j : Nat} (opens : p.Shows i (mark "("))
  (reads : p.Reads (i + 1) (allSymbols g.parts)) (place : i + 1 + (allSymbols g.parts).length = j)
  (limit : Nat) (edits : Edits)
include ordinary opens reads place

/-- The parenthesis of an arrow function holds parameters. -/
theorem step_arrowSignature (next : p.Shows j (mark "=>")) :
    p.step (p.walkerAt hole i) limit ⟨i, edits⟩ = .ok ⟨j, p.erased (i + 1) g.parts edits⟩ := by
  have leads := (leadsTo_of_signature matched proper (.inl rfl) opens reads place next (.inl rfl)).1
  have done := @signature_eq p hole matched g proper i i j ["=>"] le_rfl opens reads place
    ⟨_, by simp, next.has⟩ (by decide) ordinary.propertiesOf_eq edits
  rw [step_of_parenthesis opens.has, stepParenthesis]
  dsimp only
  rw [leads]
  exact done

/-- The parenthesis behind the name of a method holds parameters. -/
theorem step_methodSignature (next : p.Shows j (mark openBrace)) {m : String} (some : 0 < i)
    (name : p.Has (i - 1) (word m)) (other : m ∉ controlWords) :
    p.step (p.walkerAt hole i) limit ⟨i, edits⟩ = .ok ⟨j, p.erased (i + 1) g.parts edits⟩ := by
  obtain ⟨noArrow, -⟩ := leadsTo_of_signature matched proper (.inr rfl) opens reads place next (.inl rfl)
  obtain ⟨leads, line⟩ := leadsTo_of_signature matched proper (.inr rfl) opens reads place next (.inr rfl)
  have done := @signature_eq p hole matched g proper i i j [openBrace] le_rfl opens reads place
    ⟨_, by simp, next.has⟩ (by decide) ordinary.propertiesOf_eq edits
  have named : p.endsMethodName (i - 1) = true := by
    rw [endsMethodName, name.is_eq fun _ => rfl]
    simpa [token, word] using other
  rw [step_of_parenthesis opens.has, stepParenthesis]
  dsimp only
  rw [line, Bool.not_false, Bool.and_true, leads, named, bne_iff_ne.mpr some.ne']
  exact (if_pos (by simp)).trans done

end Parentheses

end Walks

section Contexts

variable (matched : matchBrackets p.tokens = .ok p.partners) {g : Signature} (proper : g.IsProper)
  (ordinary : g.IsOrdinary)
include matched proper ordinary

/-- The signature of a function, with a name or without, is gone through up to its body. -/
theorem functionDeclaration_eq {name : Option String} {i j k : Nat}
    (front : p.HasAll (i + 1) (name.toList.map word)) (behind : i + 1 + name.toList.length = k)
    (opens : p.Shows k (mark "(")) (reads : p.Reads (k + 1) (allSymbols g.parts))
    (place : k + 1 + (allSymbols g.parts).length = j) (brace : p.Has j (mark openBrace))
    (start resume : Nat) (edits : Edits) :
    p.functionDeclaration (p.walkerAt hole i) i start resume ⟨i, edits⟩ =
      .ok ⟨j, p.erased (k + 1) g.parts edits⟩ := by
  have done := @signature_eq p hole matched g proper i k j [openBrace] (by omega) opens reads place
    ⟨_, by simp, brace⟩ (by decide) ordinary.propertiesOf_eq edits
  have named : p.isPunct (i + 1) "*" = false ∧
      (if p.isName (i + 1) then (⟨i + 2, edits⟩ : State) else ⟨i + 1, edits⟩) = ⟨k, edits⟩ := by
    cases name with
    | none =>
      obtain rfl : i + 1 = k := behind
      simp [opens.isPunct_eq, opens.isName_eq]
    | some f =>
      obtain rfl : i + 2 = k := behind
      simp [front.1.isPunct_eq, front.1.isName_eq]
  have noStar : p.skipPunct ⟨i + 1, edits⟩ "*" = ⟨i + 1, edits⟩ := by simp [skipPunct, named.1]
  have untyped : p.blankTypeParameters ⟨k, edits⟩ = .ok ⟨k, edits⟩ := by
    simp [blankTypeParameters, opens.isPunct_eq]
  have isParenthesis : p.isPunct k "(" = true := opens.isPunct_eq "("
  have isBrace : p.isPunct j openBrace = true := brace.isPunct_eq openBrace
  unfold functionDeclaration
  dsimp only [State.goto, State.skip]
  rw [noStar]
  dsimp only
  rw [named.2]
  refine bind_eq_ok.mpr ⟨_, untyped, ?_⟩
  dsimp only
  rw [isParenthesis]
  refine bind_eq_ok.mpr ⟨_, done, ?_⟩
  dsimp only
  rw [isBrace]
  rfl

omit proper ordinary in
/-- A step goes over an empty body. -/
theorem step_body {i : Nat} (opens : p.Has i (mark openBrace)) (closes : p.Has (i + 1) (mark closeBrace))
    (limit : Nat) (edits : Edits) :
    p.step (p.walkerAt hole i) limit ⟨i, edits⟩ = .ok ⟨i + 2, edits⟩ := by
  rw [step_of_bracket (.inr rfl) opens, walkBracket_empty matched le_rfl opens closes]

theorem walk_function {f : String}
    (reads : p.Reads 0 ((Context.function f).front ++ (allSymbols g.parts ++ (Context.function f).back)))
    (size : 3 + (allSymbols g.parts).length + 2 = p.tokens.size) :
    p.walk hole p.tokens.size nowhere ⟨0, []⟩ = .ok ⟨p.tokens.size, p.erased 3 g.parts []⟩ := by
  obtain ⟨⟨keyword, name, opens, -⟩, rest⟩ := reads_append.mp reads
  replace rest : p.Reads 3 (allSymbols g.parts ++ [mark openBrace, mark closeBrace]) := rest
  obtain ⟨own, brace, closes, -⟩ := reads_append.mp rest
  have declared : p.step (p.walkerAt hole 0) p.tokens.size ⟨0, []⟩ =
      .ok ⟨3 + (allSymbols g.parts).length, p.erased 3 g.parts []⟩ := by
    rw [step_eq_stepWord keyword.has, stepWord]
    dsimp only
    rw [keyword.text_eq]
    exact @functionDeclaration_eq p hole matched g proper ordinary (some f) 0 _ 2 ⟨name.has, trivial⟩ rfl
      opens own rfl brace.has 0 1 []
  have body := @step_body p hole matched _ brace.has closes.has p.tokens.size (p.erased 3 g.parts [])
  rw [size] at body
  rw [walk_eq_step keyword.has.lt_size keyword.has.lt_size rfl declared (by dsimp only; omega),
    walk_of_last brace.has.lt_size body]

omit matched proper ordinary in
/-- A text that is the declaration of a constant is walked through if its value is. -/
theorem walk_constant {x : String} (free : x ≠ "enum") (keyword : p.Has 0 (word "const"))
    (name : p.Has 1 (word x)) (equals : p.Has 2 (mark "=")) {k : Nat} {edits : Edits}
    (value : p.walk hole p.tokens.size (fun j => [",", ";"].any fun text => p.isPunct j text) ⟨3, []⟩ =
      .ok ⟨k, edits⟩) (semicolon : p.Has k (mark ";")) (some : 0 < k) (size : k + 1 = p.tokens.size) :
    p.walk hole p.tokens.size nowhere ⟨0, []⟩ = .ok ⟨p.tokens.size, edits⟩ := by
  have noEnum : p.isWord 1 "enum" = false := by
    rw [name.isWord_eq, isWord_token_word, beq_eq_false_iff_ne]
    exact free
  have declared : p.step (p.walkerAt hole 0) p.tokens.size ⟨0, []⟩ = .ok ⟨k, edits⟩ :=
    (step_const (.inl rfl) _ _ _ keyword noEnum).trans
      (variableDeclaration_of_value name equals (walkValue_of_walk Nat.two_pos equals value) semicolon)
  have last := step_of_isIdle semicolon rfl (p.walkerAt hole k) p.tokens.size edits
  rw [size] at last
  rw [walk_eq_step keyword.lt_size keyword.lt_size rfl declared some, walk_of_last semicolon.lt_size last]

theorem walk_arrow {f : String} (named : (Context.arrow f).IsProper)
    (reads : p.Reads 0 ((Context.arrow f).front ++ (allSymbols g.parts ++ (Context.arrow f).back)))
    (size : 4 + (allSymbols g.parts).length + 3 = p.tokens.size) :
    p.walk hole p.tokens.size nowhere ⟨0, []⟩ = .ok ⟨p.tokens.size, p.erased 4 g.parts []⟩ := by
  obtain ⟨⟨keyword, name, equals, opens, -⟩, rest⟩ := reads_append.mp reads
  replace rest : p.Reads 4 (allSymbols g.parts ++ [mark "=>", ⟨.number, "0"⟩, mark ";"]) := rest
  obtain ⟨own, arrow, zero, semicolon, -⟩ := reads_append.mp rest
  have free : f ≠ "enum" := by
    rintro rfl
    exact named "enum" List.mem_cons_self (by decide)
  have stays : p.Stays fun j => [",", ";"].any fun text => p.isPunct j text :=
    fun j stops => by simpa using stops
  have value := @step_arrowSignature p hole matched g proper ordinary _ _ opens own rfl p.tokens.size [] arrow
  refine walk_constant free keyword.has name.has equals.has ?_ semicolon.has (by omega) size
  rw [walk_of_step opens.has (by decide) opens.has.lt_size stays value (by omega),
    walk_operator arrow (by simp) arrow.has.lt_size stays,
    walk_of_step zero.has (by decide) zero.has.lt_size stays (step_of_isIdle zero.has rfl ..) (Nat.lt_succ_self _)]
  exact walk_of_stop (by simp [semicolon.isPunct_eq])

theorem walk_objectMethod {o m : String} (named : (Context.objectMethod o m).IsProper)
    (reads : p.Reads 0 ((Context.objectMethod o m).front ++
      (allSymbols g.parts ++ (Context.objectMethod o m).back)))
    (size : 6 + (allSymbols g.parts).length + 4 = p.tokens.size) :
    p.walk hole p.tokens.size nowhere ⟨0, []⟩ = .ok ⟨p.tokens.size, p.erased 6 g.parts []⟩ := by
  obtain ⟨⟨keyword, name, equals, object, method, opens, -⟩, rest⟩ := reads_append.mp reads
  replace rest : p.Reads 6 (allSymbols g.parts ++
    [mark openBrace, mark closeBrace, mark closeBrace, mark ";"]) := rest
  obtain ⟨own, brace, closes, closer, semicolon, -⟩ := reads_append.mp rest
  have free : o ≠ "enum" := by
    rintro rfl
    exact named "enum" List.mem_cons_self (by decide)
  have free' : m ∉ Script.takenWords := fun taken => named m (by simp [Context.names]) (by simp [taken])
  have notControl : m ∉ controlWords := fun control => named m (by simp [Context.names]) (by simp [control])
  have stays : p.Stays fun j => [",", ";"].any fun text => p.isPunct j text :=
    fun j stops => by simpa using stops
  have split : (Context.objectMethod o m).front ++ (allSymbols g.parts ++ (Context.objectMethod o m).back) =
      [word "const", word o, mark "="] ++ ((mark openBrace :: (methodSymbols m g ++
        [mark (closerOf openBrace)])) ++ [mark ";"]) := by
    simp [Context.front, Context.back, methodSymbols, closerOf, openBrace]
  rw [split] at reads
  have outer := (reads_append.mp (reads_append.mp reads).2).1
  have close : p.close 3 = 6 + (allSymbols g.parts).length + 2 := by
    refine (outer.close_eq matched (by decide) (nested_methodSymbols m proper)).trans ?_
    simp [methodSymbols]
    omega
  have inside : p.walk hole (p.close 3) nowhere ⟨4, []⟩ = .ok ⟨p.close 3, p.erased 6 g.parts []⟩ := by
    have signature := @step_methodSignature p hole matched g proper ordinary 5 _ opens own rfl (p.close 3) []
      brace m (by decide) method.has notControl
    have body := @step_body p hole matched _ brace.has closes.has (p.close 3) (p.erased 6 g.parts [])
    rw [walk_eq_step method.has.lt_size (by dsimp only; omega) rfl (step_of_free method.has free' ..) (Nat.lt_succ_self _),
      walk_eq_step opens.has.lt_size (by dsimp only; omega) rfl signature (by dsimp only; omega),
      walk_eq_step brace.has.lt_size (by dsimp only; omega) rfl body (by dsimp only; omega), ← close]
    exact walk_of_limit _
  have value : p.step (p.walkerAt hole 3) p.tokens.size ⟨3, []⟩ =
      .ok ⟨6 + (allSymbols g.parts).length + 3, p.erased 6 g.parts []⟩ := by
    rw [step_of_bracket (.inr rfl) object.has, walkBracket_of_walk le_rfl inside, close]
  refine walk_constant free keyword.has name.has equals.has ?_ semicolon.has (by omega) size
  rw [walk_of_step object.has (by decide) object.has.lt_size stays value (by omega)]
  exact walk_of_stop (by simp [semicolon.isPunct_eq])

omit matched in
theorem isProper_classOf {c m : String} (named : (Context.classMethod c m).IsProper) :
    (classOf c m g).IsProper := by
  have free : c ∉ ["extends", "implements"] := fun mem => named c List.mem_cons_self (by simp at mem ⊢; simp [mem])
  refine ⟨List.mem_cons_self, ?_, by simp [classOf], by simp [classOf], ?_⟩
  · rintro _ ⟨⟩
    exact free
  · exact List.forall_mem_singleton.mpr ⟨⟨by simp, rfl, by simp⟩, by simp, proper, rfl,
      fun some => absurd ordinary.propertiesOf_eq some⟩

theorem walk_classMethod (read : p.IsRead) {c m : String} (named : (Context.classMethod c m).IsProper)
    (reads : p.Reads 0 ((Context.classMethod c m).front ++
      (allSymbols g.parts ++ (Context.classMethod c m).back)))
    (size : 5 + (allSymbols g.parts).length + 3 = p.tokens.size) :
    p.walk hole p.tokens.size nowhere ⟨0, []⟩ = .ok ⟨p.tokens.size, p.erased 5 g.parts []⟩ := by
  have symbols : (Context.classMethod c m).front ++ (allSymbols g.parts ++ (Context.classMethod c m).back) =
      (classOf c m g).plans.flatMap Plan.symbols := by
    simp [Context.front, Context.back, classOf, ClassShape.plans, ClassShape.front, ClassShape.header,
      Plan.symbols, Member.plan, Member.isWhole, Member.innerParts, methodParts, MemberHead.parts,
      modifierParts, markerSymbols, typeParameterSymbols, interfaceSymbols]
  have code : assignmentCode (propertiesOf g.entries) = "" := by
    rw [ordinary.propertiesOf_eq]
    rfl
  have method : p.erased 3 (methodParts ⟨[], word m, none⟩ [] g (mark openBrace)) [] =
      p.erased 5 g.parts [] := by
    rw [methodParts, erased_append, erased_cons, erased_cons, erased_keep, erased_append, erased_keep]
    rfl
  have edits_eq : p.changed 0 (classOf c m g).plans [] = p.erased 5 g.parts [] := by
    have plan : (Member.method ⟨[], word m, none⟩ [] g).plan =
        ⟨methodParts ⟨[], word m, none⟩ [] g (mark openBrace), "", [mark closeBrace]⟩ :=
      congrArg (Plan.mk _ · _) code
    rw [← method]
    have whole : (classOf c m g).plans = [⟨(classOf c m g).front ++ (classOf c m g).header, "", [mark openBrace]⟩,
        ⟨methodParts ⟨[], word m, none⟩ [] g (mark openBrace), "", [mark closeBrace]⟩,
        ⟨[⟨false, [mark closeBrace]⟩], "", []⟩] := by
      rw [← plan]
      rfl
    rw [whole]
    rfl
  have size' : ((classOf c m g).plans.flatMap Plan.symbols).length = p.tokens.size := by
    rw [← symbols, ← size, List.length_append, List.length_append, ← Nat.add_assoc]
    rfl
  rw [symbols] at reads
  rw [walk_class matched read (isProper_classOf proper ordinary named) (follow_of_reads reads) size', edits_eq]

end Contexts

/-- A signature is gone through in its context. -/
theorem walk_context (matched : matchBrackets p.tokens = .ok p.partners) (read : p.IsRead)
    {context : Context} (named : context.IsProper) {g : Signature} (proper : g.IsProper)
    (ordinary : g.IsOrdinary)
    (reads : p.Reads 0 (context.front ++ (allSymbols g.parts ++ context.back)))
    (size : (context.front ++ (allSymbols g.parts ++ context.back)).length = p.tokens.size) :
    p.walk hole p.tokens.size nowhere ⟨0, []⟩ =
      .ok ⟨p.tokens.size, p.erased context.front.length g.parts []⟩ := by
  rw [List.length_append, List.length_append, ← Nat.add_assoc] at size
  cases context with
  | function f => exact walk_function matched proper ordinary reads size
  | arrow f => exact walk_arrow matched proper ordinary named reads size
  | objectMethod o m => exact walk_objectMethod matched proper ordinary named reads size
  | classMethod c m => exact walk_classMethod matched proper ordinary read named reads size

end Erase.Program

/-- In every context erasing overwrites the same characters of a parameter list and of the type behind it,
and nothing else. -/
theorem erase_signature {context : Context} (named : context.IsProper) {g : Signature}
    (proper : g.IsProper) (ordinary : g.IsOrdinary) {front back : List Spaced}
    {stretches : List Stretch} (frontSymbols : front.map Spaced.symbol = context.front)
    (parts : stretches.map Stretch.part = g.parts) (backSymbols : back.map Spaced.symbol = context.back)
    (line : ∀ piece ∈ front ++ (allPieces stretches ++ back), piece.gap.any Text.isLineEnd = false)
    {last : List Char} (readable : isReadable (front ++ (allPieces stretches ++ back)) last = true)
    (blank : isGap last = true) :
    erase (spell front (spell (allPieces stretches) (spell back last))) =
      .ok (spell front (remain stretches (spell back last))) := by
  have whole : front ++ (allPieces stretches ++ back) =
      allPieces (⟨false, front⟩ :: (stretches ++ [⟨false, back⟩])) := by
    simp [allPieces]
  have symbols : (front ++ (allPieces stretches ++ back)).map Spaced.symbol =
      context.front ++ (allSymbols g.parts ++ context.back) := by
    rw [List.map_append, List.map_append, frontSymbols, backSymbols, ← parts, allSymbols_map_part]
  have out : remain (⟨false, front⟩ :: (stretches ++ [⟨false, back⟩])) last =
      spell front (remain stretches (spell back last)) := by
    rw [remain, remain_append, remain, remain]
  have source : spell front (spell (allPieces stretches) (spell back last)) =
      spell (front ++ (allPieces stretches ++ back)) last := by
    rw [spell_append, spell_append]
  have walked := @erase_of_walk (front ++ (allPieces stretches ++ back)) last
    (blanks 0 (⟨false, front⟩ :: (stretches ++ [⟨false, back⟩]))).reverse readable blank
    (symbols ▸ context.nested proper)
  rw [source, ← out, walked, whole, applyTo_blanks]
  intro p hole _ read tokens matched
  have reads : p.Reads 0 (context.front ++ (allSymbols g.parts ++ context.back)) := by
    rw [← symbols, ← map_symbol_tokensOf 0, ← tokens]
    exact Program.reads_all (tokens ▸ newlineBefore_tokensOf line)
  have size : (context.front ++ (allSymbols g.parts ++ context.back)).length = p.tokens.size := by
    rw [← symbols, List.length_map, ← Array.length_toList, tokens, length_tokensOf]
  have edits := @Program.edits_eraseParts p [] [] 0 (⟨false, front⟩ :: (stretches ++ [⟨false, back⟩]))
    (by rw [← whole, List.append_nil]; exact tokens) (whole ▸ length_pos_of_isReadable readable) ⟨0, []⟩
    fun e mem => by cases mem
  have mapped : (⟨false, front⟩ :: (stretches ++ [⟨false, back⟩])).map Stretch.part =
      ⟨false, context.front⟩ :: (g.parts ++ [⟨false, context.back⟩]) := by
    rw [List.map_cons, List.map_append, parts, List.map_singleton, Stretch.part, Stretch.part, frontSymbols,
      backSymbols]
  have same : p.erased 0 (⟨false, context.front⟩ :: (g.parts ++ [⟨false, context.back⟩])) [] =
      p.erased context.front.length g.parts [] := by
    rw [Program.erased_cons, Program.erased_keep, Program.erased_append, Program.erased_keep, Nat.zero_add]
  rw [mapped, List.append_nil] at edits
  rw [Program.walk_context matched read named proper ordinary reads size, ← same, ← edits]
  rfl

/-- A signature with every kind of parameter. -/
def manifoldSignature : Signature where
  entries := [.this [word "A"],
    .binds ⟨[], .object ["a", "b"], false, some [word "B", mark "<", word "C", mark ">"], none⟩,
    .binds ⟨[], .array ["c"], false, none, none⟩,
    .binds ⟨[], .name "x", true, some [word "D", mark "[", mark "]", mark "|", word "E"], some ⟨.number, "1"⟩⟩,
    .binds ⟨[], .rest "r", false, some [word "F"], none⟩]
  trailing := false
  result := some [word "G"]

/-- A signature with every kind of parameter loses its types in all contexts alike. -/
theorem erase_manifoldSignature :
    let source := " this : A , \x7b a , b \x7d : B < C > , [ c ] , x ? : D [ ] | E = 1 , ... r : F ) : G".toList
    let out := "            \x7b a , b \x7d           , [ c ] , x               = 1 , ... r     )    ".toList
    erase ("function f (".toList ++ source ++ " \x7b \x7d".toList) =
        .ok ("function f (".toList ++ out ++ " \x7b \x7d".toList) ∧
      erase ("const f = (".toList ++ source ++ " => 0 ;".toList) =
        .ok ("const f = (".toList ++ out ++ " => 0 ;".toList) ∧
      erase ("const o = \x7b m (".toList ++ source ++ " \x7b \x7d \x7d ;".toList) =
        .ok ("const o = \x7b m (".toList ++ out ++ " \x7b \x7d \x7d ;".toList) ∧
      erase ("class C \x7b m (".toList ++ source ++ " \x7b \x7d \x7d".toList) =
        .ok ("class C \x7b m (".toList ++ out ++ " \x7b \x7d \x7d".toList) := by
  intro source out
  have name (x : String) (other : x ∉ typeOperators) : IsPlainType [word x] := isPlainType_word other
  have generic : IsPlainType [word "B", mark "<", word "C", mark ">"] :=
    @IsPlainType.generic "B" [] [[word "C"]] (by decide) (by decide) (by simp [name "C" (by decide)])
  have union : IsPlainType [word "D", mark "[", mark "]", mark "|", word "E"] :=
    .union (.array (name "D" (by decide))) (name "E" (by decide))
  have typed {ss : List Symbol} (plain : IsPlainType ss) : ∀ ss' ∈ some ss, IsPlainType ss' := by
    rintro _ ⟨⟩
    exact plain
  have entries : ∀ e ∈ manifoldSignature.entries, e.IsProper := by
    simp only [manifoldSignature, List.forall_mem_cons]
    exact ⟨name "A" (by decide), ⟨by decide, by decide, by decide, typed generic, by decide⟩,
      ⟨by decide, by decide, by decide, by rintro _ ⟨⟩, by decide⟩,
      ⟨by decide, by decide, by decide, typed union, by decide⟩,
      ⟨by decide, by decide, by decide, typed (name "F" (by decide)), by decide⟩, by simp⟩
  have proper : manifoldSignature.IsProper := ⟨entries, typed (name "G" (by decide))⟩
  have ordinary : manifoldSignature.IsOrdinary := by
    intro q mem
    simp only [manifoldSignature, List.mem_cons, List.not_mem_nil, or_false, Formal.binds.injEq, reduceCtorEq,
      false_or] at mem
    rcases mem with rfl | rfl | rfl | rfl <;> rfl
  let stretches := spacedBy ' ' manifoldSignature.parts
  let back (context : Context) : List Spaced := context.back.map fun s => ⟨[' '], s⟩
  have erases (context : Context)
      (named : ∀ x ∈ context.names, x ∉ Script.takenWords ++ Program.controlWords ++ ["extends", "implements"])
      (line : ∀ piece ∈ spaced context.front ++ (allPieces stretches ++ back context),
        piece.gap.any Text.isLineEnd = false)
      (readable : isReadable (spaced context.front ++ (allPieces stretches ++ back context)) [] = true)
      {old new : List Char}
      (oldText : spell (spaced context.front) (spell (allPieces stretches) (spell (back context) [])) = old)
      (newText : spell (spaced context.front) (remain stretches (spell (back context) [])) = new) :
      erase old = .ok new := by
    rw [← oldText, ← newText]
    refine erase_signature named proper ordinary (map_symbol_spaced _) (by decide +kernel) ?_ line readable rfl
    simp [back, Function.comp_def]
  exact ⟨erases (.function "f") (by decide) (by decide +kernel) (by decide +kernel) (by decide +kernel) (by decide +kernel),
    erases (.arrow "f") (by decide) (by decide +kernel) (by decide +kernel) (by decide +kernel) (by decide +kernel),
    erases (.objectMethod "o" "m") (by decide) (by decide +kernel) (by decide +kernel) (by decide +kernel)
      (by decide +kernel),
    erases (.classMethod "C" "m") (by decide) (by decide +kernel) (by decide +kernel) (by decide +kernel)
      (by decide +kernel)⟩

end ModuleLinker
