import Mathlib
import ModuleLinker.Proofs.Erase.Passes
import ModuleLinker.Proofs.Erase.References
import ModuleLinker.Proofs.Erase.Script

/-!
# Scripts without types are left alone

Erasing a script without types gives the script back (`Script.erase_textOf`). A walk through one of its
expressions comes to the end of the expression without an edit (`Program.walk_expression`), by induction
on the expression: a parenthesis holds the parameters of an arrow function only where the arrow stands
right behind it, since what stands behind a colon does not start with a type and an arrow
(`Program.calm_of_typeStop?`), and a negation never stands behind a value.
-/

set_option autoImplicit false

namespace ModuleLinker

open Erase Script ModuleLinker.Symbol

/-! ## Qualified names -/

namespace Script.Expr

/-- The segments of an expression that is a qualified name. -/
def qualified? : Expr → Option (String × List String)
  | name x => some (x, [])
  | member e x => e.qualified?.map fun found => (found.1, found.2 ++ [x])
  | _ => none

theorem symbols_of_qualified? {e : Expr} {first : String} {segments : List String}
    (found : e.qualified? = some (first, segments)) : e.symbols = qualified first segments := by
  induction e generalizing first segments with
  | name x =>
    cases found
    rfl
  | member e x ih =>
    obtain ⟨⟨first', segments'⟩, inner, same⟩ := Option.map_eq_some_iff.mp found
    cases same
    rw [symbols, ih inner]
    simp [qualified]
  | _ => cases found

theorem free_of_qualified? {e : Expr} (proper : e.IsProper) {first : String} {segments : List String}
    (found : e.qualified? = some (first, segments)) : first ∉ takenWords := by
  induction e generalizing first segments with
  | name x =>
    cases found
    exact not_mem_takenWords proper.fit
  | member e x ih =>
    obtain ⟨⟨first', segments'⟩, inner, same⟩ := Option.map_eq_some_iff.mp found
    cases same
    exact ih (proper.child List.mem_cons_self) inner
  | _ => cases found

/-! ## The ends of an expression -/

theorem negates_eq {e l : Expr} {rest : List Symbol} (same : e.symbols = l.symbols ++ rest) :
    e.negates = l.negates := by
  obtain ⟨s, ss, found⟩ := List.exists_cons_of_ne_nil l.symbols_ne_nil
  rw [negates, negates, same, found]
  rfl

/-- No expression starts with a colon or an arrow. -/
theorem exists_symbols_eq_cons (e : Expr) :
    ∃ s ss, e.symbols = s :: ss ∧ s ∉ [mark ":", mark "=>"] := by
  induction e with
  | name x | arrow x => exact ⟨word x, _, rfl, by simp [word, mark]⟩
  | number text | string text => exact ⟨_, _, rfl, by simp [mark]⟩
  | paren | array | not | arrowOf => exact ⟨_, _, rfl, by decide⟩
  | member e _ ih | call e _ ih | sum e _ ih | conditional e _ _ ih =>
    obtain ⟨s, ss, same, other⟩ := ih
    exact ⟨s, _, by rw [symbols, same]; rfl, other⟩

theorem closes_eq {e r : Expr} {front : List Symbol} (same : e.symbols = front ++ r.symbols) :
    e.closes = r.closes := by
  rw [closes, closes, same, List.getLast?_append_of_ne_nil front r.symbols_ne_nil]

end Script.Expr

namespace Erase.Program

variable {p : Program}

theorem Has.isPunct_of_ne {i : Nat} {s : Symbol} {text : String} (has : p.Has i s) (other : s ≠ mark text) :
    p.isPunct i text = false := by
  rw [has.isPunct_eq, Bool.eq_false_iff]
  intro isMark
  obtain ⟨kind, text'⟩ := s
  obtain ⟨rfl, rfl⟩ : kind = .punct ∧ text' = text := by simpa [token, Token.isPunct] using isMark
  exact other rfl

/-! ## Expressions where a type is looked for -/

/-- Whether a punctuator stands at a position that does not go on with a type before it. -/
def Calm (p : Program) (k : Nat) : Prop :=
  ∃ text, p.Shows k (mark text) ∧ text ∉ ["=>", "<", "[", "|", "&"]

theorem Calm.not_arrow {k : Nat} (calm : p.Calm k) : p.isPunct k "=>" = false := by
  obtain ⟨text, shows, other⟩ := calm
  rw [shows.isPunct_eq, isPunct_token_mark, beq_eq_false_iff_ne]
  rintro rfl
  exact other List.mem_cons_self

theorem Calm.indexesStop_eq {k : Nat} (calm : p.Calm k) : p.indexesStop k = k := by
  obtain ⟨text, shows, other⟩ := calm
  simp only [List.mem_cons, List.not_mem_nil, or_false, not_or] at other
  exact indexesStop_of_not_bracket (by simp [shows.isPunct_eq, other])

/-- A single operand in front of a calm punctuator is the whole type. -/
theorem Calm.typeStop?_of_operand {i k : Nat} (calm : p.Calm k) (noSign : p.signAt i = false)
    (operand : p.operandStop? i = some (p.indexesStop k)) : p.typeStop? i = some k := by
  rw [calm.indexesStop_eq] at operand
  obtain ⟨text, shows, other⟩ := calm
  simp only [List.mem_cons, List.not_mem_nil, or_false, not_or] at other
  have noSign' : p.signAt k = false := by simp [shows.signAt_eq, other]
  have noExtends : p.isWord k "extends" = false := shows.isWord_eq _
  rw [typeStop?_eq, unionStop?_of_not_sign noSign, operand, Option.bind_some,
    operandsStop?_of_not_sign noSign', Option.bind_some, noExtends]
  exact if_neg fun conditional => Bool.false_ne_true conditional.1

/-- No type starts with a negation. -/
theorem typeStop?_of_not {i : Nat} (shows : p.Shows i (mark "!")) : p.typeStop? i = none := by
  have literal : p.is i (fun t => t.kind == .string || t.kind == .template || t.kind == .number) = false :=
    shows.is_eq fun _ => rfl
  have operand : p.operandStop? i = none := by
    rw [operandStop?_eq]
    simp [shows.isOneOf_eq, shows.isWord_eq, shows.isPunct_eq, shows.isName_eq, literal, openBrace]
  rw [typeStop?_eq, unionStop?_of_not_sign shows.signAt_eq, operand]
  rfl

theorem typeStop?_of_qualified (matched : matchBrackets p.tokens = .ok p.partners) {e : Expr}
    (proper : e.IsProper) {found : String × List String} (isQualified : e.qualified? = some found)
    {i k : Nat} (reads : p.Reads i e.symbols) (place : i + e.symbols.length = k) (calm : p.Calm k)
    (noDot : p.isPunct k "." = false) : p.typeStop? i = some k := by
  have symbols := Expr.symbols_of_qualified? isQualified
  have free := Expr.free_of_qualified? proper isQualified
  have isType : IsTypeAt .whole e.symbols := by
    rw [symbols]
    exact .whole (.name fun mem => free (List.mem_append_right _ mem))
  have ends : p.endsWhole (i + e.symbols.length) = true := by
    rw [place]
    obtain ⟨text, shows, other⟩ := calm
    refine shows.endsWhole_of_mark ?_
    rw [shows.isPunct_eq, isPunct_token_mark, beq_eq_false_iff_ne] at noDot
    simp only [List.mem_cons, List.not_mem_nil, or_false, not_or] at other ⊢
    simp [other, noDot]
  rw [← place]
  exact typeStop?_of_isTypeAt matched isType reads ends

/-- A type that is looked for where an expression starts ends at a calm punctuator, if there is any,
unless the expression starts with a type and an arrow. -/
theorem calm_of_typeStop? (matched : matchBrackets p.tokens = .ok p.partners) {e : Expr}
    (proper : e.IsProper) (plain : e.startsAsType = false) {i j k : Nat} (reads : p.Reads i e.symbols)
    (place : i + e.symbols.length = k) (calm : p.Calm k)
    (dot : p.isPunct k "." = true → 3 ≤ e.rank ∧ e.qualified? = none) (found : p.typeStop? i = some j) :
    p.Calm j := by
  -- The type goes no further than the first operand: a name with its members, a literal or a bracket.
  have ends {i j k : Nat} (calm : p.Calm k) (same : p.typeStop? i = some k)
      (found : p.typeStop? i = some j) : p.Calm j := by
    rw [same, Option.some_inj] at found
    exact found ▸ calm
  have inFront {k : Nat} {text : String} (shows : p.Shows k (mark text))
      (other : text ∉ ["=>", "<", "[", "|", "&", "."]) {e : Expr} :
      p.Calm k ∧ (p.isPunct k "." = true → 3 ≤ e.rank ∧ e.qualified? = none) := by
    simp only [List.mem_cons, List.not_mem_nil, or_false, not_or] at other
    refine ⟨⟨text, shows, by simp [other]⟩, fun isDot => ?_⟩
    rw [shows.isPunct_eq, isPunct_token_mark, beq_iff_eq] at isDot
    exact absurd isDot other.2.2.2.2.2
  induction e generalizing i j k with
  | name x =>
    have noDot : p.isPunct k "." = false := Bool.eq_false_iff.mpr fun isDot => by cases (dot isDot).2
    exact ends calm (typeStop?_of_qualified matched proper rfl reads place calm noDot) found
  | number text =>
    obtain rfl : i + 1 = k := place
    exact ends calm
      (calm.typeStop?_of_operand reads.1.signAt_eq (operandStop?_of_literal reads.1 (.inr rfl))) found
  | string text =>
    obtain rfl : i + 1 = k := place
    exact ends calm
      (calm.typeStop?_of_operand reads.1.signAt_eq (operandStop?_of_literal reads.1 (.inl rfl))) found
  | paren e _ =>
    have close : p.close i + 1 = k := (reads.close_succ matched (by decide) e.nested).trans place
    have operand := operandStop?_of_parenthesis reads.1 (close ▸ calm.not_arrow)
    exact ends calm (calm.typeStop?_of_operand reads.1.signAt_eq (close ▸ operand)) found
  | member e x ih =>
    have fit := proper.fit
    rw [Expr.isFit, Bool.and_eq_true, decide_eq_true_eq] at fit
    cases isQualified : (Expr.member e x).qualified? with
    | some q =>
      have noDot : p.isPunct k "." = false := by
        refine Bool.eq_false_iff.mpr fun isDot => ?_
        rw [(dot isDot).2] at isQualified
        cases isQualified
      exact ends calm (typeStop?_of_qualified matched proper isQualified reads place calm noDot) found
    | none =>
      obtain ⟨front, point, -⟩ := reads_append.mp reads
      exact ih (proper.child List.mem_cons_self) (Expr.startsAsType_of_rank (by omega)) front rfl
        ⟨_, point, by decide⟩ (fun _ => ⟨fit.2, Option.map_eq_none_iff.mp isQualified⟩) found
  | call f arguments ih _ =>
    have fit := proper.fit
    rw [Expr.isFit, decide_eq_true_eq] at fit
    obtain ⟨front, opens, -⟩ := reads_append.mp reads
    obtain ⟨calm, dot⟩ := inFront opens (by decide)
    exact ih (proper.child List.mem_cons_self) (Expr.startsAsType_of_rank (by omega)) front rfl calm dot
      found
  | array elements _ =>
    have close : p.close i + 1 = k :=
      (reads.close_succ matched (by decide) (Expr.nested_symbolsOfAll elements)).trans place
    have operand := operandStop?_of_bracket (.inl rfl) reads.1
    exact ends calm (calm.typeStop?_of_operand reads.1.signAt_eq (close ▸ operand)) found
  | sum l r ih _ =>
    have fit := proper.fit
    rw [Expr.isFit, Bool.and_eq_true, decide_eq_true_eq] at fit
    obtain ⟨front, plus, -⟩ := reads_append.mp reads
    obtain ⟨calm, dot⟩ := inFront plus (by decide)
    exact ih (proper.child List.mem_cons_self) (Expr.startsAsType_of_rank fit.1) front rfl calm dot found
  | not e _ =>
    rw [typeStop?_of_not reads.1] at found
    cases found
  | conditional test yes no ih _ _ =>
    have fit := proper.fit
    rw [Expr.isFit, decide_eq_true_eq] at fit
    obtain ⟨front, question, -⟩ := reads_append.mp reads
    obtain ⟨calm, dot⟩ := inFront question (by decide)
    exact ih (proper.child List.mem_cons_self) (Expr.startsAsType_of_rank fit) front rfl calm dot found
  | arrow x body _ => cases plain
  | arrowOf parameters body ih =>
    obtain ⟨same, -, rest⟩ :=
      operandStop?_of_function matched (Expr.nested_parameterSymbols parameters) reads rfl
    cases stop : p.typeStop? (i + (parameterSymbols parameters).length + 3) with
    | none =>
      rw [typeStop?_eq, unionStop?_of_not_sign reads.1.signAt_eq, same, stop] at found
      cases found
    | some m =>
      have noDot : p.isPunct k "." = true → 3 ≤ body.rank ∧ body.qualified? = none :=
        fun isDot => absurd (dot isDot).1 (Nat.not_succ_le_zero 2)
      have place : i + (parameterSymbols parameters).length + 3 + body.symbols.length = k := by
        rw [← place, Expr.symbols]
        simp
        omega
      have calm := ih (proper.child List.mem_cons_self) plain rest place calm noDot stop
      have operand : p.operandStop? i = some (p.indexesStop m) := by rw [same, stop, calm.indexesStop_eq]
      exact ends calm (calm.typeStop?_of_operand reads.1.signAt_eq operand) found

/-! ## Steps -/

variable {hole : Hole → Except Failure Edits}

/-- A word that starts no construct is left alone. -/
theorem step_of_free {i : Nat} {x : String} (has : p.Has i (word x)) (free : x ∉ takenWords)
    (w : Walker) (limit : Nat) (edits : Edits) : p.step w limit ⟨i, edits⟩ = .ok ⟨i + 1, edits⟩ := by
  simp only [takenWords, typeKeywords, List.mem_append, List.mem_cons, List.not_mem_nil, or_false,
    not_or] at free
  rw [step_eq_stepWord has, stepWord]
  dsimp only
  simp [typeStatement, has.text_eq, free, State.skip, State.goto]

/-- What stands behind a point is left alone, whatever word it is. -/
theorem step_of_member {i : Nat} {x : String} (point : p.Has i (mark ".")) (has : p.Has (i + 1) (word x))
    (w : Walker) (limit : Nat) (edits : Edits) : p.step w limit ⟨i + 1, edits⟩ = .ok ⟨i + 2, edits⟩ := by
  have afterDot : p.afterDot (i + 1) = true := by
    rw [Program.afterDot, Nat.add_sub_cancel, point.is_eq fun _ => rfl]
    rfl
  rw [step_eq_stepWord has, stepWord]
  dsimp only
  rw [afterDot]
  rfl

theorem followsValue_of_mark {i : Nat} {text : String} (has : p.Has i (mark text))
    (other : text ∉ [")", "]"]) : p.followsValue (i + 1) = false := by
  simp only [List.mem_cons, List.not_mem_nil, or_false, not_or] at other
  rw [followsValue, Nat.add_sub_cancel, endsValue, has.is_eq fun _ => rfl]
  simp [token, mark, other]

/-- A negation that does not stand behind a value is left alone. -/
theorem step_of_not {i : Nat} (has : p.Has i (mark "!")) (fresh : p.followsValue i = false) (w : Walker)
    (limit : Nat) (edits : Edits) : p.step w limit ⟨i, edits⟩ = .ok ⟨i + 1, edits⟩ := by
  obtain ⟨⟨kind, start, text, newline, holes⟩, found, same⟩ := has
  cases same
  have fresh' : (i != 0 && p.endsValue (i - 1)) = false := fresh
  unfold step
  rw [found]
  simp [Token.isPunct, openBrace, fresh', State.skip, State.goto]

/-- No result type stands behind a parenthesis that no colon stands behind. -/
theorem typedBefore_of_not_colon {close : Nat} (other : p.isPunct (close + 1) ":" = false)
    (text : String) : p.typedBefore close text = false := by
  rw [typedBefore, other, Bool.false_and]

/-- A step at a bracket goes into it. -/
theorem step_of_bracket {i : Nat} {text : String} (known : text = "[" ∨ text = openBrace)
    (has : p.Has i (mark text)) (w : Walker) (limit : Nat) (edits : Edits) :
    p.step w limit ⟨i, edits⟩ = p.walkBracket w ⟨i, edits⟩ := by
  obtain ⟨⟨kind, start, text', newline, holes⟩, found, same⟩ := has
  cases same
  unfold step
  rw [found]
  rcases known with rfl | rfl <;> rfl

theorem step_of_parenthesis {i : Nat} (has : p.Has i (mark "(")) (w : Walker) (limit : Nat) (edits : Edits) :
    p.step w limit ⟨i, edits⟩ = p.stepParenthesis w ⟨i, edits⟩ := by
  obtain ⟨⟨kind, start, text, newline, holes⟩, found, same⟩ := has
  cases same
  unfold step
  rw [found]
  rfl

/-- Where there are no braces, a parenthesis with no arrow behind it holds an expression. -/
theorem stepParenthesis_of_not_arrow (noBrace : ∀ k, p.isPunct k openBrace = false) {i : Nat}
    (noArrow : p.isPunct (p.close i + 1) "=>" = false)
    (untyped : p.typedBefore (p.close i) "=>" = false) (w : Walker) (edits : Edits) :
    p.stepParenthesis w ⟨i, edits⟩ = p.walkBracket w ⟨i, edits⟩ := by
  have noBody : p.typedBefore (p.close i) openBrace = false := by
    rw [typedBefore_eq]
    cases p.typeStop? (p.close i + 2) <;> simp [noBrace]
  unfold stepParenthesis
  simp [noArrow, untyped, noBrace, noBody]

/-- Where an arrow stands behind a parenthesis, it holds parameters. -/
theorem stepParenthesis_of_arrow {i : Nat} (arrow : p.isPunct (p.close i + 1) "=>" = true) (w : Walker)
    (edits : Edits) : p.stepParenthesis w ⟨i, edits⟩ = p.signature w ⟨i, edits⟩ := by
  unfold stepParenthesis
  simp [arrow]

/-! ## Parameters without types -/

/-- A parameter without a type is stepped over, with the comma behind it. -/
theorem parameter_of_name {i close : Nat} {x text : String} (name : p.Has i (word x))
    (next : p.Has (i + 1) (mark text)) (ends : text = "," ∨ text = ")" ∧ i + 1 = close) (w : Walker)
    (edits : Edits) : p.parameter w close ⟨i, edits⟩ =
      .ok (⟨if text = "," then i + 2 else i + 1, edits⟩, none) := by
  have other : text ∉ [openBrace, "[", ":", "?", "="] := by
    rcases ends with rfl | ⟨rfl, -⟩ <;> decide
  simp only [List.mem_cons, List.not_mem_nil, or_false, not_or] at other
  have binds : p.bindsAt (i + 1) = false := by simp [bindsAt, next.isName_eq, next.isPunct_eq, other]
  have unmodified : p.blankParameterModifiers ⟨i, edits⟩ = ⟨i, edits⟩ := by
    rw [blankParameterModifiers, dif_neg]
    simp [binds]
  have plain : p.skipPunct ⟨i, edits⟩ "..." = ⟨i, edits⟩ := by simp [skipPunct, name.isPunct_eq]
  have noThis : p.isPunct (i + 1) ":" = false := by simp [next.isPunct_eq, other]
  have annotation : p.blankAnnotation ⟨i + 1, edits⟩ = .ok ⟨i + 1, edits⟩ := by
    simp [ blankAnnotation, noThis]
  have value : p.walkValue w close [","] ⟨i + 1, edits⟩ = .ok ⟨i + 1, edits⟩ := by
    simp [walkValue, next.isPunct_eq, other]
  have noDecorator : p.isPunct i "@" = false := name.isPunct_eq _
  unfold parameter
  dsimp only
  rw [noDecorator, unmodified, plain, noThis, (walkBinding_name name w edits).2]
  simp only [bind, Except.bind, Bool.false_eq_true, if_false, Bool.and_false]
  rw [blankMarker_of_mark next other.2.2.2.1, annotation]
  dsimp only
  rw [value]
  dsimp only
  rcases ends with rfl | ⟨rfl, place⟩
  · rw [next.isPunct_eq]
    simp [State.skip, State.goto]
  · rw [next.isPunct_eq]
    simp [place]

theorem parametersTo_next {i j close : Nat} {w : Walker} {edits edits' : Edits} {property : Option String}
    (less : i < close) (parameter : p.parameter w close ⟨i, edits⟩ = .ok (⟨j, edits'⟩, property))
    (further : i < j) (properties : List String) : p.parametersTo w close properties ⟨i, edits⟩ =
      p.parametersTo w close (properties ++ property.toList) ⟨j, edits'⟩ := by
  conv_lhs => rw [parametersTo, if_pos less, parameter]
  exact congrArg (p.parametersTo w close _) (past_eq_self further)

theorem parametersTo_eq_next {i j close : Nat} {w : Walker} {edits : Edits} (less : i < close)
    (parameter : p.parameter w close ⟨i, edits⟩ = .ok (⟨j, edits⟩, none)) (further : i < j) :
    p.parametersTo w close [] ⟨i, edits⟩ = p.parametersTo w close [] ⟨j, edits⟩ :=
  parametersTo_next less parameter further []

/-- Parameters without types are stepped over. -/
theorem parametersTo_of_names {parameters : List String} {i close : Nat}
    (has : p.HasAll i (parameterSymbols parameters))
    (place : i + (parameterSymbols parameters).length = close) (closer : p.Has close (mark ")"))
    (w : Walker) (edits : Edits) : p.parametersTo w close [] ⟨i, edits⟩ = .ok (⟨close, edits⟩, []) := by
  induction parameters generalizing i with
  | nil =>
    obtain rfl : i = close := place
    rw [parametersTo]
    exact if_neg (Nat.lt_irrefl i)
  | cons x parameters ih =>
    cases parameters with
    | nil =>
      obtain rfl : i + 1 = close := place
      have parameter := parameter_of_name has.1 closer (.inr ⟨rfl, rfl⟩) w edits
      rw [parametersTo_eq_next (Nat.lt_succ_self i) parameter (Nat.lt_succ_self i)]
      exact ih trivial rfl
    | cons y parameters =>
      obtain ⟨name, comma, rest⟩ := has
      have place : i + 2 + (parameterSymbols (y :: parameters)).length = close := by
        rw [← place]
        exact (Nat.add_assoc ..).trans (congrArg (i + ·) (Nat.add_comm ..))
      have parameter := @parameter_of_name p i close x _ name comma (.inl rfl) w edits
      rw [parametersTo_eq_next (by omega) parameter (by simp), if_pos rfl]
      exact ih rest place

/-- The parameters of an arrow function without types are stepped over. -/
theorem signature_of_names (matched : matchBrackets p.tokens = .ok p.partners) {parameters : List String}
    {i k : Nat} (has : p.HasAll i (mark "(" :: (parameterSymbols parameters ++ [mark ")", mark "=>"])))
    (place : i + (parameterSymbols parameters).length + 2 = k) (w : Walker) (edits : Edits) :
    p.close i + 1 = k ∧ p.signature w ⟨i, edits⟩ = .ok ⟨k, edits⟩ := by
  obtain ⟨opens, rest⟩ := has
  obtain ⟨inside, closer, arrow, -⟩ := hasAll_append.mp rest
  have close : p.close i = i + 1 + (parameterSymbols parameters).length :=
    HasAll.close_eq matched (by decide) (Expr.nested_parameterSymbols parameters)
      ⟨opens, hasAll_append.mpr ⟨inside, closer, trivial⟩⟩
  have next : p.close i + 1 = k := by omega
  rw [← close] at closer arrow
  have list := parametersTo_of_names inside close.symm closer w edits
  have untyped : p.blankAnnotation ⟨k, edits⟩ = .ok ⟨k, edits⟩ := by
    rw [← next]
    simp [ blankAnnotation, arrow.isPunct_eq]
  refine ⟨next, ?_⟩
  have all : p.parameters w ⟨i, edits⟩ = .ok (⟨k, edits⟩, []) := by
    rw [Program.parameters, ← next]
    exact bind_eq_ok.mpr ⟨_, list, rfl⟩
  rw [signature, all]
  exact untyped

/-! ## Places of expressions -/

/-- Whether an expression stands between two positions, so that nothing around it makes a negation of
it an assertion or a parenthesis of it parameters. -/
structure Sits (p : Program) (i k : Nat) (e : Expr) : Prop where
  /-- The symbols of the expression stand there. -/
  reads : p.Reads i e.symbols
  /-- They stand up to the second position. -/
  place : i + e.symbols.length = k
  /-- No value stands in front of a negation. -/
  before : e.negates = true → p.followsValue i = false
  /-- What stands behind the expression does not go on with a type. -/
  calm : p.Calm k
  /-- A member is only taken of what holds together. -/
  dot : p.isPunct k "." = true → 3 ≤ e.rank
  /-- No result type and arrow stand behind its last parenthesis. -/
  untyped : e.closes = true → p.typedBefore (k - 1) "=>" = false

/-- An expression in front of a punctuator that goes on neither with a type nor with a parameter list. -/
theorem sits_of_mark {i k : Nat} {e : Expr} {text : String} (reads : p.Reads i e.symbols)
    (place : i + e.symbols.length = k) (before : e.negates = true → p.followsValue i = false)
    (next : p.Shows k (mark text)) (other : text ∉ [":", "=>", "<", "[", "|", "&"])
    (dot : text = "." → 3 ≤ e.rank) : p.Sits i k e := by
  rw [List.mem_cons, not_or] at other
  have some := List.length_pos_of_ne_nil e.symbols_ne_nil
  have last : k - 1 + 1 = k := by omega
  refine ⟨reads, place, before, ⟨text, next, other.2⟩, fun isDot => dot ?_, fun _ => ?_⟩
  · simpa [next.isPunct_eq] using isDot
  · exact typedBefore_of_not_colon (by simp [last, next.isPunct_eq, other.1]) _

/-- What an expression starts with, in front of a punctuator of it. -/
theorem Sits.left {i k : Nat} {e l : Expr} {text : String} {rest : List Symbol} (sits : p.Sits i k e)
    (same : e.symbols = l.symbols ++ mark text :: rest) (other : text ∉ [":", "=>", "<", "[", "|", "&"])
    (dot : text = "." → 3 ≤ l.rank) :
    ∃ m, p.Sits i m l ∧ p.Shows m (mark text) ∧ p.Reads (m + 1) rest ∧ m + 1 + rest.length = k := by
  have reads := sits.reads
  rw [same] at reads
  obtain ⟨front, next, back⟩ := reads_append.mp reads
  refine ⟨_, sits_of_mark front rfl (fun negates => ?_) next other dot, next, back, ?_⟩
  · exact sits.before ((Expr.negates_eq same).trans negates)
  · rw [← sits.place, same, List.length_append, List.length_cons]
    omega

/-- What an expression ends with, behind a punctuator of it. -/
theorem Sits.right {i k m : Nat} {e r : Expr} {front : List Symbol} {text : String} (sits : p.Sits i k e)
    (same : e.symbols = front ++ r.symbols) (loose : e.rank < 3) (before : p.Shows m (mark text))
    (other : text ∉ [")", "]"]) (reads : p.Reads (m + 1) r.symbols)
    (place : m + 1 + r.symbols.length = k) : p.Sits (m + 1) k r :=
  ⟨reads, place, fun _ => followsValue_of_mark before.has other, sits.calm,
    fun isDot => absurd (sits.dot isDot) (Nat.not_le.mpr loose),
    fun closes => sits.untyped ((Expr.closes_eq same).trans closes)⟩

/-! ## Walks through expressions -/

/-- Whether a walk stops at commas and semicolons only. -/
def Stays (p : Program) (stop : Nat → Bool) : Prop :=
  ∀ k, stop k = true → p.isPunct k "," = true ∨ p.isPunct k ";" = true

theorem stays_nowhere : p.Stays nowhere := fun _ stops => by cases stops

theorem walk_of_step {i j limit : Nat} {s : Symbol} {stop : Nat → Bool} {edits edits' : Edits}
    (has : p.Has i s) (other : s ≠ mark "," ∧ s ≠ mark ";") (less : i < limit) (stays : p.Stays stop)
    (step : p.step (p.walkerAt hole i) limit ⟨i, edits⟩ = .ok ⟨j, edits'⟩) (further : i < j) :
    p.walk hole limit stop ⟨i, edits⟩ = p.walk hole limit stop ⟨j, edits'⟩ := by
  have goes : stop i = false := by
    rw [Bool.eq_false_iff]
    intro stops
    rcases stays i stops with comma | semicolon
    · rw [has.isPunct_of_ne other.1] at comma
      cases comma
    · rw [has.isPunct_of_ne other.2] at semicolon
      cases semicolon
  exact walk_eq_step has.lt_size less goes step further

/-- An operator is stepped over. -/
theorem walk_operator {i limit : Nat} {text : String} {stop : Nat → Bool} {edits : Edits}
    (shows : p.Shows i (mark text)) (known : text ∈ [".", "+", "?", ":", "=>"]) (less : i < limit)
    (stays : p.Stays stop) : p.walk hole limit stop ⟨i, edits⟩ = p.walk hole limit stop ⟨i + 1, edits⟩ := by
  have idle : isIdle (mark text) = true ∧ mark text ≠ mark "," ∧ mark text ≠ mark ";" := by
    simp only [List.mem_cons, List.not_mem_nil, or_false] at known
    rcases known with rfl | rfl | rfl | rfl | rfl <;> decide
  exact walk_of_step shows.has idle.2 less stays (step_of_isIdle shows.has idle.1 ..) (Nat.lt_succ_self i)

theorem walk_of_limit {limit : Nat} {stop : Nat → Bool} (edits : Edits) :
    p.walk hole limit stop ⟨limit, edits⟩ = .ok ⟨limit, edits⟩ := by
  rw [walk]
  simp

/-- A bracket is walked through, also from further out, if what is in it is. -/
theorem walkBracket_of_walk {i₀ i : Nat} {edits edits' : Edits} (before : i₀ ≤ i)
    (within : p.walk hole (p.close i) nowhere ⟨i + 1, edits⟩ = .ok ⟨p.close i, edits'⟩) :
    p.walkBracket (p.walkerAt hole i₀) ⟨i, edits⟩ = .ok ⟨p.close i + 1, edits'⟩ := by
  have inside : p.walk hole (p.close i) nowhere (State.past ⟨i + 1, edits⟩ i₀) =
      .ok ⟨p.close i, edits'⟩ := by
    rw [past_eq_self (Nat.lt_succ_of_le before), within]
  exact bind_eq_ok.mpr ⟨_, inside, rfl⟩

/-- A parenthesis that holds no parameters is walked through. -/
theorem walk_parenthesis (noBrace : ∀ k, p.isPunct k openBrace = false) {i k limit : Nat}
    {stop : Nat → Bool} {edits : Edits} (opens : p.Has i (mark "(")) (close : p.close i + 1 = k)
    (le : k ≤ limit) (stays : p.Stays stop) (noArrow : p.isPunct k "=>" = false)
    (untyped : p.typedBefore (k - 1) "=>" = false)
    (within : p.walk hole (p.close i) nowhere ⟨i + 1, edits⟩ = .ok ⟨p.close i, edits⟩) :
    p.walk hole limit stop ⟨i, edits⟩ = p.walk hole limit stop ⟨k, edits⟩ := by
  subst close
  have later := p.lt_close i
  refine walk_of_step opens (by decide) (by omega) stays ?_ (by omega)
  rw [step_of_parenthesis opens, stepParenthesis_of_not_arrow noBrace noArrow untyped,
    walkBracket_of_walk le_rfl within]

/-- Whether every walk comes from the start of an expression to its end without an edit. -/
def Walks (p : Program) (hole : Hole → Except Failure Edits) (e : Expr) : Prop :=
  ∀ ⦃i k limit : Nat⦄ ⦃stop : Nat → Bool⦄ ⦃edits : Edits⦄, p.Sits i k e → k ≤ limit → p.Stays stop →
    p.walk hole limit stop ⟨i, edits⟩ = p.walk hole limit stop ⟨k, edits⟩

/-- The expression in a bracket is walked through up to where the bracket closes. -/
theorem Walks.within {e : Expr} (walks : p.Walks hole e) {i k : Nat} {text : String}
    (reads : p.Reads i e.symbols) (place : i + e.symbols.length = k) (fresh : p.followsValue i = false)
    (closer : p.Shows k (mark text)) (other : text ∉ [".", ":", "=>", "<", "[", "|", "&"])
    (edits : Edits) : p.walk hole k nowhere ⟨i, edits⟩ = .ok ⟨k, edits⟩ := by
  rw [List.mem_cons, not_or] at other
  have sits := sits_of_mark reads place (fun _ => fresh) closer other.2 fun dot => absurd dot other.1
  rw [walks sits (Nat.le_refl k) stays_nowhere, walk_of_limit]

/-- Expressions with commas between them are walked through up to where their bracket closes. -/
theorem walk_separated {es : List Expr} (each : ∀ e ∈ es, p.Walks hole e) {i k : Nat} {text : String}
    (reads : p.Reads i (separated (Expr.symbolsOfAll es)))
    (place : i + (separated (Expr.symbolsOfAll es)).length = k) (fresh : p.followsValue i = false)
    (closer : p.Shows k (mark text)) (other : text ∉ [".", ":", "=>", "<", "[", "|", "&"])
    (edits : Edits) : p.walk hole k nowhere ⟨i, edits⟩ = .ok ⟨k, edits⟩ := by
  rw [Expr.symbolsOfAll_eq_map] at reads place
  induction es generalizing i with
  | nil =>
    obtain rfl : i = k := place
    exact walk_of_limit edits
  | cons e es ih =>
    rw [List.forall_mem_cons] at each
    cases es with
    | nil => exact each.1.within reads place fresh closer other edits
    | cons e' es =>
      obtain ⟨front, comma, rest⟩ := reads_append.mp reads
      have place : i + e.symbols.length + 1 + (separated ((e' :: es).map Expr.symbols)).length = k := by
        rw [← place]
        simp only [List.map_cons, separated, List.length_append, List.length_cons]
        omega
      have less : i + e.symbols.length < k := by omega
      have sits := sits_of_mark front rfl (fun _ => fresh) comma (by decide)
        fun dot => absurd dot (by decide)
      rw [each.1 sits less.le stays_nowhere, walk_eq_step comma.has.lt_size less rfl
        (step_of_isIdle comma.has rfl ..) (Nat.lt_succ_self _)]
      exact ih each.2 rest place (followsValue_of_mark comma.has (by decide))

/-! ## One kind of expression after the other -/

theorem walks_name {x : String} (free : x ∉ takenWords) : p.Walks hole (.name x) := by
  intro i k limit stop edits sits le stays
  obtain rfl : i + 1 = k := sits.place
  exact walk_of_step sits.reads.1.has (by simp [word, mark]) le stays
    (step_of_free sits.reads.1.has free ..) (Nat.lt_succ_self i)

/-- A number or a string is stepped over. -/
theorem walks_literal {e : Expr} {s : Symbol} (same : e.symbols = [s])
    (literal : s.kind = .number ∨ s.kind = .string) : p.Walks hole e := by
  intro i k limit stop edits sits le stays
  have shows : p.Shows i s := (same ▸ sits.reads).1
  obtain rfl : i + 1 = k := by
    rw [← sits.place, same]
    rfl
  have idle : isIdle s = true := by rcases literal with isKind | isKind <;> simp [isIdle, isKind]
  refine walk_of_step shows.has ?_ le stays (step_of_isIdle shows.has idle ..) (Nat.lt_succ_self i)
  constructor <;> rintro rfl <;> simp [mark] at literal

theorem Walks.paren (matched : matchBrackets p.tokens = .ok p.partners)
    (noBrace : ∀ k, p.isPunct k openBrace = false) {e : Expr} (inner : p.Walks hole e) :
    p.Walks hole (.paren e) := by
  intro i k limit stop edits sits le stays
  have opens := sits.reads.1
  obtain ⟨inside, close, closer⟩ := sits.reads.inside matched (by decide) e.nested
  have next : p.close i + 1 = k := (sits.reads.close_succ matched (by decide) e.nested).trans sits.place
  have closes : (Expr.paren e).closes = true := by simp [Expr.closes, Expr.symbols, List.getLast?_cons]
  exact walk_parenthesis noBrace opens.has next le stays sits.calm.not_arrow (sits.untyped closes)
    (inner.within inside close (followsValue_of_mark opens.has (by decide)) closer (by decide) edits)

theorem Walks.member {e : Expr} {x : String} (tight : 3 ≤ e.rank) (inner : p.Walks hole e) :
    p.Walks hole (.member e x) := by
  intro i k limit stop edits sits le stays
  obtain ⟨m, left, point, rest, place⟩ := sits.left rfl (by decide) fun _ => tight
  obtain rfl : m + 2 = k := place
  rw [inner left (by omega) stays, walk_operator point (by decide) (by omega) stays]
  exact walk_of_step rest.1.has (by simp [word, mark]) le stays
    (step_of_member point.has rest.1.has ..) (Nat.lt_succ_self _)

theorem Walks.call (matched : matchBrackets p.tokens = .ok p.partners)
    (noBrace : ∀ k, p.isPunct k openBrace = false) {f : Expr} {arguments : List Expr}
    (function : p.Walks hole f) (each : ∀ e ∈ arguments, p.Walks hole e) :
    p.Walks hole (.call f arguments) := by
  intro i k limit stop edits sits le stays
  obtain ⟨m, left, opens, rest, place⟩ := sits.left rfl (by decide) fun dot => absurd dot (by decide)
  have list : p.Reads m (mark "(" :: (separated (Expr.symbolsOfAll arguments) ++ [mark ")"])) :=
    ⟨opens, rest⟩
  have nested := Expr.nested_symbolsOfAll arguments
  obtain ⟨inside, close, closer⟩ := list.inside matched (by decide) nested
  have next : p.close m + 1 = k := by
    rw [list.close_succ matched (by decide) nested, ← place]
    exact (Nat.succ_add ..).symm
  have closes : (Expr.call f arguments).closes = true := by
    simp [Expr.closes, Expr.symbols, List.getLast?_cons]
  rw [function left (by omega) stays]
  exact walk_parenthesis noBrace opens.has next le stays sits.calm.not_arrow (sits.untyped closes)
    (walk_separated each inside close (followsValue_of_mark opens.has (by decide)) closer (by decide) edits)

theorem walks_array (matched : matchBrackets p.tokens = .ok p.partners) {elements : List Expr}
    (each : ∀ e ∈ elements, p.Walks hole e) : p.Walks hole (.array elements) := by
  intro i k limit stop edits sits le stays
  have opens := sits.reads.1
  have nested := Expr.nested_symbolsOfAll elements
  obtain ⟨inside, close, closer⟩ := sits.reads.inside matched (by decide) nested
  have next : p.close i + 1 = k := (sits.reads.close_succ matched (by decide) nested).trans sits.place
  have within := walk_separated each inside close (followsValue_of_mark opens.has (by decide)) closer
    (by decide) edits
  refine walk_of_step opens.has (by decide) (by omega) stays ?_ (by omega)
  rw [step_of_bracket (.inl rfl) opens.has, walkBracket_of_walk le_rfl within, next]

theorem Walks.sum {l r : Expr} (first : p.Walks hole l) (second : p.Walks hole r) :
    p.Walks hole (.sum l r) := by
  intro i k limit stop edits sits le stays
  obtain ⟨m, left, plus, rest, place⟩ := sits.left rfl (by decide) fun dot => absurd dot (by decide)
  have same : (Expr.sum l r).symbols = (l.symbols ++ [mark "+"]) ++ r.symbols := by simp [Expr.symbols]
  have right := sits.right same (by simp [Expr.rank]) plus (by decide) rest place
  rw [first left (by omega) stays, walk_operator plus (by decide) (by omega) stays]
  exact second right le stays

theorem Walks.not {e : Expr} (inner : p.Walks hole e) : p.Walks hole (.not e) := by
  intro i k limit stop edits sits le stays
  obtain ⟨negation, rest⟩ := sits.reads
  have place : i + 1 + e.symbols.length = k := by
    rw [← sits.place, Expr.symbols, List.length_cons]
    omega
  have same : (Expr.not e).symbols = [mark "!"] ++ e.symbols := rfl
  have right := sits.right same (by simp [Expr.rank]) negation (by decide) rest place
  have fresh := sits.before (by simp [Expr.negates, Expr.symbols])
  rw [walk_of_step negation.has (by decide) (by omega) stays (step_of_not negation.has fresh ..)
    (Nat.lt_succ_self i)]
  exact inner right le stays

/-- A conditional is walked through, if it does not read like an arrow function with types. -/
theorem Walks.conditional (matched : matchBrackets p.tokens = .ok p.partners) {test yes no : Expr}
    (proper : no.IsProper) (clear : (Expr.conditional test yes no).isClear = true)
    (first : p.Walks hole test) (second : p.Walks hole yes) (third : p.Walks hole no) :
    p.Walks hole (.conditional test yes no) := by
  intro i k limit stop edits sits le stays
  obtain ⟨m, left, question, rest, place⟩ := sits.left rfl (by decide) fun dot => absurd dot (by decide)
  obtain ⟨middle, colon, last⟩ := reads_append.mp rest
  have place : m + 1 + yes.symbols.length + 1 + no.symbols.length = k := by
    rw [← place, List.length_append, List.length_cons]
    omega
  have same : (Expr.conditional test yes no).symbols =
      (test.symbols ++ mark "?" :: (yes.symbols ++ [mark ":"])) ++ no.symbols := by simp [Expr.symbols]
  have right := sits.right same (by simp [Expr.rank]) colon (by decide) last place
  have noDot : p.isPunct k "." = true → 3 ≤ no.rank ∧ no.qualified? = none :=
    fun dot => absurd (sits.dot dot) (Nat.not_succ_le_zero 2)
  have untyped : yes.closes = true → p.typedBefore (m + 1 + yes.symbols.length - 1) "=>" = false := by
    intro closes
    rw [Expr.isClear, closes, Bool.true_and, Bool.not_eq_true'] at clear
    have behind : m + 1 + yes.symbols.length - 1 + 2 = m + 1 + yes.symbols.length + 1 := by omega
    rw [typedBefore_eq, behind]
    cases found : p.typeStop? (m + 1 + yes.symbols.length + 1) with
    | none => exact Bool.and_false _
    | some j =>
      have calm := calm_of_typeStop? matched proper clear last place sits.calm noDot found
      simp [calm.not_arrow]
  have centre : p.Sits (m + 1) (m + 1 + yes.symbols.length) yes :=
    ⟨middle, rfl, fun _ => followsValue_of_mark question.has (by decide), ⟨_, colon, by decide⟩,
      fun dot => by simp [colon.isPunct_eq] at dot, untyped⟩
  rw [first left (by omega) stays, walk_operator question (by decide) (by omega) stays,
    second centre (by omega) stays, walk_operator colon (by decide) (by omega) stays]
  exact third right le stays

theorem Walks.arrow {x : String} {body : Expr} (free : x ∉ takenWords) (inner : p.Walks hole body) :
    p.Walks hole (.arrow x body) := by
  intro i k limit stop edits sits le stays
  obtain ⟨parameter, arrow, rest⟩ := sits.reads
  have place : i + 1 + 1 + body.symbols.length = k := by
    rw [← sits.place, Expr.symbols, List.length_cons, List.length_cons]
    omega
  have same : (Expr.arrow x body).symbols = [word x, mark "=>"] ++ body.symbols := rfl
  have right := sits.right same (by simp [Expr.rank]) arrow (by decide) rest place
  rw [walk_of_step parameter.has (by simp [word, mark]) (by omega) stays
    (step_of_free parameter.has free ..) (Nat.lt_succ_self i),
    walk_operator arrow (by decide) (by omega) stays]
  exact inner right le stays

theorem Walks.arrowOf (matched : matchBrackets p.tokens = .ok p.partners) {parameters : List String}
    {body : Expr} (inner : p.Walks hole body) : p.Walks hole (.arrowOf parameters body) := by
  intro i k limit stop edits sits le stays
  have same : (Expr.arrowOf parameters body).symbols =
      (mark "(" :: (parameterSymbols parameters ++ [mark ")", mark "=>"])) ++ body.symbols := by
    simp [Expr.symbols]
  have reads := sits.reads
  rw [same] at reads
  obtain ⟨list, rest⟩ := reads_append.mp reads
  obtain ⟨m, isM⟩ : ∃ m, i + (parameterSymbols parameters).length + 2 = m := ⟨_, rfl⟩
  obtain ⟨next, stepped⟩ := signature_of_names matched list.hasAll isM (p.walkerAt hole i) edits
  have arrow : p.Shows m (mark "=>") := by
    have place : i + 1 + (parameterSymbols parameters).length + 1 = m := by omega
    exact place ▸ (reads_append.mp list.2).2.2.1
  have behind : i + (mark "(" :: (parameterSymbols parameters ++ [mark ")", mark "=>"])).length = m + 1 := by
    rw [← isM]
    simp
    omega
  rw [behind] at rest
  have place : m + 1 + body.symbols.length = k := by
    rw [← sits.place, same, List.length_append, ← Nat.add_assoc, behind]
  have right := sits.right same (by simp [Expr.rank]) arrow (by decide) rest place
  have isArrow : p.isPunct (p.close i + 1) "=>" = true := by
    rw [next, arrow.isPunct_eq]
    rfl
  rw [walk_of_step list.1.has (by decide) (by omega) stays
      ((step_of_parenthesis list.1.has ..).trans ((stepParenthesis_of_arrow isArrow ..).trans stepped))
      (by omega),
    walk_operator arrow (by decide) (by omega) stays]
  exact inner right le stays

/-- A walk comes to the end of an expression without an edit. -/
theorem walks_expression (matched : matchBrackets p.tokens = .ok p.partners)
    (noBrace : ∀ k, p.isPunct k openBrace = false) {e : Expr} (proper : e.IsProper) (clear : e.IsClear) :
    p.Walks hole e := by
  induction e with
  | name x => exact walks_name (not_mem_takenWords proper.fit)
  | number text => exact walks_literal rfl (.inl rfl)
  | string text => exact walks_literal rfl (.inr rfl)
  | paren e ih =>
    have child : e ∈ (Expr.paren e).children := by simp [Expr.children]
    exact Walks.paren matched noBrace (ih (proper.child child) (clear.child child))
  | member e x ih =>
    have child : e ∈ (Expr.member e x).children := by simp [Expr.children]
    have fit := proper.fit
    rw [Expr.isFit, Bool.and_eq_true, decide_eq_true_eq] at fit
    exact Walks.member fit.2 (ih (proper.child child) (clear.child child))
  | call f arguments ih ih' =>
    have child : f ∈ (Expr.call f arguments).children := by simp [Expr.children]
    refine Walks.call matched noBrace (ih (proper.child child) (clear.child child)) fun e mem => ?_
    have child : e ∈ (Expr.call f arguments).children := by simp [Expr.children, mem]
    exact ih' e mem (proper.child child) (clear.child child)
  | array elements ih =>
    refine walks_array matched fun e mem => ?_
    have child : e ∈ (Expr.array elements).children := by simp [Expr.children, mem]
    exact ih e mem (proper.child child) (clear.child child)
  | sum l r ih ih' =>
    have child : l ∈ (Expr.sum l r).children := by simp [Expr.children]
    have child' : r ∈ (Expr.sum l r).children := by simp [Expr.children]
    exact Walks.sum (ih (proper.child child) (clear.child child)) (ih' (proper.child child') (clear.child child'))
  | not e ih =>
    have child : e ∈ (Expr.not e).children := by simp [Expr.children]
    exact Walks.not (ih (proper.child child) (clear.child child))
  | conditional test yes no ih ih' ih'' =>
    have child : test ∈ (Expr.conditional test yes no).children := by simp [Expr.children]
    have child' : yes ∈ (Expr.conditional test yes no).children := by simp [Expr.children]
    have child'' : no ∈ (Expr.conditional test yes no).children := by simp [Expr.children]
    exact Walks.conditional matched (proper.child child'') clear.clear
      (ih (proper.child child) (clear.child child)) (ih' (proper.child child') (clear.child child'))
      (ih'' (proper.child child'') (clear.child child''))
  | arrow x body ih =>
    have child : body ∈ (Expr.arrow x body).children := by simp [Expr.children]
    exact Walks.arrow (not_mem_takenWords proper.fit) (ih (proper.child child) (clear.child child))
  | arrowOf parameters body ih =>
    have child : body ∈ (Expr.arrowOf parameters body).children := by simp [Expr.children]
    exact Walks.arrowOf matched (ih (proper.child child) (clear.child child))

/-! ## Statements -/

/-- The value of a constant is walked through up to the semicolon. -/
theorem walkValue_of_walks {value : Expr} (walks : p.Walks hole value) {i k m : Nat} (before : i < m)
    (reads : p.Reads m (mark "=" :: (value.symbols ++ [mark ";"])))
    (place : m + 1 + value.symbols.length = k) (edits : Edits) :
    p.walkValue (p.walkerAt hole i) p.tokens.size [",", ";"] ⟨m, edits⟩ = .ok ⟨k, edits⟩ := by
  obtain ⟨equals, rest⟩ := reads
  obtain ⟨inside, semicolon, -⟩ := reads_append.mp rest
  rw [place] at semicolon
  let stop (i : Nat) : Bool := [",", ";"].any fun text => p.isPunct i text
  have stays : p.Stays stop := fun j stops => by simpa [stop] using stops
  have stops : stop k = true := by simp [stop, semicolon.isPunct_eq]
  have sits := sits_of_mark inside place (fun _ => followsValue_of_mark equals.has (by decide)) semicolon
    (by decide) fun dot => absurd dot (by decide)
  refine walkValue_of_walk before equals.has ?_
  rw [walks sits semicolon.has.lt_size.le stays, walk_of_stop stops]

/-- A declaration of a constant without a type is walked through up to its semicolon. -/
theorem variableDeclaration_of_walks {x : String} {value : Expr} (walks : p.Walks hole value) {i k : Nat}
    (reads : p.Reads (i + 1) (word x :: mark "=" :: (value.symbols ++ [mark ";"])))
    (place : i + 3 + value.symbols.length = k) (edits : Edits) :
    p.variableDeclaration (p.walkerAt hole i) i p.tokens.size ⟨i, edits⟩ = .ok ⟨k, edits⟩ := by
  obtain ⟨name, rest⟩ := reads
  have walked := @walkValue_of_walks p hole value walks i k (i + 2) (by omega) rest (by omega) edits
  have semicolon : p.Has k (mark ";") := by
    have last := (reads_append.mp rest.2).2.1.has
    rwa [Nat.add_assoc (i + 1), Nat.add_assoc i, place] at last
  exact variableDeclaration_of_value name.has rest.1.has walked semicolon

/-- No colon and no arrow stand where an expression starts. -/
theorem isPunct_of_expression {i : Nat} {e : Expr} {text : String} (reads : p.Reads i e.symbols)
    (among : text ∈ [":", "=>"]) : p.isPunct i text = false := by
  obtain ⟨s, ss, same, other⟩ := e.exists_symbols_eq_cons
  rw [same] at reads
  refine reads.1.has.isPunct_of_ne ?_
  rintro rfl
  exact other (List.mem_map_of_mem among)

/-- The head of a condition is walked through. -/
theorem walk_test (matched : matchBrackets p.tokens = .ok p.partners)
    (noBrace : ∀ k, p.isPunct k openBrace = false) {test body : Expr} (walks : p.Walks hole test)
    {i k : Nat} (reads : p.Reads i (Statement.condition test body).symbols)
    (place : i + 3 + test.symbols.length = k) (edits : Edits) :
    p.walk hole p.tokens.size nowhere ⟨i, edits⟩ = p.walk hole p.tokens.size nowhere ⟨k, edits⟩ := by
  obtain ⟨keyword, opens, rest⟩ := reads
  obtain ⟨inside, closer, after⟩ := reads_append.mp rest
  replace after := (reads_append.mp after).1
  have bracket : p.Reads (i + 1) (mark "(" :: (test.symbols ++ [mark (closerOf "(")])) :=
    ⟨opens, reads_append.mpr ⟨inside, closer, trivial⟩⟩
  obtain ⟨-, close, closer⟩ := bracket.inside matched (by decide) test.nested
  have next : p.close (i + 1) + 1 = k := by omega
  rw [close, next] at after
  have untyped : p.typedBefore (k - 1) "=>" = false := by
    refine typedBefore_of_not_colon ?_ _
    rw [← next, Nat.add_sub_cancel, next]
    exact isPunct_of_expression after (by decide)
  have within := walks.within inside close (followsValue_of_mark opens.has (by decide)) closer (by decide)
    edits
  have some : k ≤ p.tokens.size := by
    rw [← next]
    exact closer.has.lt_size
  rw [walk_of_step keyword.has (by decide) keyword.has.lt_size stays_nowhere
    (step_of_free keyword.has (by decide) ..) (Nat.lt_succ_self i)]
  exact walk_parenthesis noBrace opens.has next some stays_nowhere
    (isPunct_of_expression after (by decide)) untyped within

/-- A walk goes on behind a statement without an edit. -/
theorem walk_statement (matched : matchBrackets p.tokens = .ok p.partners)
    (noBrace : ∀ k, p.isPunct k openBrace = false) {statement : Statement} (proper : statement.IsProper)
    (clear : statement.IsClear) {i : Nat} (begins : p.Begins i) (reads : p.Reads i statement.symbols)
    (edits : Edits) : p.walk hole p.tokens.size nowhere ⟨i, edits⟩ =
      p.walk hole p.tokens.size nowhere ⟨i + statement.symbols.length, edits⟩ := by
  have walks : ∀ e ∈ statement.expressions, p.Walks hole e := fun e mem =>
    walks_expression matched noBrace (proper.expressions e mem) (clear.expressions e mem)
  have behind {k : Nat} (semicolon : p.Shows k (mark ";")) :
      p.walk hole p.tokens.size nowhere ⟨k, edits⟩ = p.walk hole p.tokens.size nowhere ⟨k + 1, edits⟩ :=
    walk_eq_step semicolon.has.lt_size semicolon.has.lt_size rfl (step_of_isIdle semicolon.has rfl ..)
      (Nat.lt_succ_self k)
  cases statement with
  | constant x value =>
    obtain ⟨keyword, rest⟩ := reads
    have semicolon := (reads_append.mp rest.2.2).2.1
    have place : i + 1 + 1 + 1 + value.symbols.length + 1 =
        i + (Statement.constant x value).symbols.length := by
      simp [Statement.symbols]
      omega
    have declared := @variableDeclaration_of_walks p hole x value (walks value List.mem_cons_self) i _ rest
      rfl edits
    have free : x ∉ takenWords := not_mem_takenWords (proper.names x List.mem_cons_self)
    have noEnum : p.isWord (i + 1) "enum" = false := by
      rw [rest.1.isWord_eq, isWord_token_word, beq_eq_false_iff_ne]
      rintro rfl
      exact free (by decide)
    rw [walk_eq_step keyword.has.lt_size keyword.has.lt_size rfl
      ((step_const begins _ _ edits keyword.has noEnum).trans declared) (by simp; omega)]
    exact (behind semicolon).trans (congrArg (fun k => p.walk hole p.tokens.size nowhere ⟨k, edits⟩) place)
  | condition test body =>
    have tail : p.Reads (i + 3 + test.symbols.length) (body.symbols ++ [mark ";"]) := by
      have after := (reads_append.mp reads.2.2).2.2
      rwa [Nat.add_right_comm _ test.symbols.length] at after
    obtain ⟨inside, semicolon, -⟩ := reads_append.mp tail
    have fresh : body.negates = true → p.followsValue (i + 3 + test.symbols.length) = false := by
      have noNegation : body.negates = false := by simpa [Statement.isClear] using clear.body
      rw [noNegation]
      exact fun negates => by cases negates
    have sits := sits_of_mark inside rfl fresh semicolon (by decide) fun dot => absurd dot (by decide)
    have place : i + 3 + test.symbols.length + body.symbols.length + 1 =
        i + (Statement.condition test body).symbols.length := by
      simp [Statement.symbols]
      omega
    rw [walk_test matched noBrace (walks test List.mem_cons_self) reads rfl,
      walks body (List.mem_cons_of_mem _ List.mem_cons_self) sits semicolon.has.lt_size.le stays_nowhere]
    exact (behind semicolon).trans (congrArg (fun k => p.walk hole p.tokens.size nowhere ⟨k, edits⟩) place)

/-- A walk goes through a script without an edit. -/
theorem walk_script (matched : matchBrackets p.tokens = .ok p.partners)
    (noBrace : ∀ k, p.isPunct k openBrace = false) {script : List Statement}
    (proper : ∀ statement ∈ script, statement.IsProper) (clear : ∀ statement ∈ script, statement.IsClear)
    {i : Nat} (begins : p.Begins i) (reads : p.Reads i (symbolsOf script)) (edits : Edits) :
    p.walk hole p.tokens.size nowhere ⟨i, edits⟩ =
      p.walk hole p.tokens.size nowhere ⟨i + (symbolsOf script).length, edits⟩ := by
  induction script generalizing i with
  | nil => rfl
  | cons statement script ih =>
    rw [List.forall_mem_cons] at proper clear
    obtain ⟨first, rest⟩ := reads_append.mp reads
    have next : p.Begins (i + statement.symbols.length) :=
      .inr (first.hasAll.last statement.getLast?_symbols)
    have place : i + statement.symbols.length + (symbolsOf script).length =
        i + (symbolsOf (statement :: script)).length := by
      rw [symbolsOf, symbolsOf, List.flatMap_cons, List.length_append, Nat.add_assoc]
    rw [walk_statement matched noBrace proper.1 clear.1 begins first, ih proper.2 clear.2 next rest, place]

end Erase.Program

namespace Script

/-! ## Erasing a script -/

/-- Erasing a script without types gives the script back, if no conditional in it reads like an arrow
function with types and no body of a condition starts with a negation. -/
theorem erase_textOf {script : List Statement} (proper : ∀ statement ∈ script, statement.IsProper)
    (clear : ∀ statement ∈ script, statement.IsClear) : erase (textOf script) = .ok (textOf script) := by
  have symbols : (tokensOf 0 (spaced (symbolsOf script))).map Token.symbol = symbolsOf script :=
    (map_symbol_tokensOf ..).trans (map_symbol_spaced _)
  have nested : Nested ((tokensOf 0 (spaced (symbolsOf script))).toArray.toList.map Token.symbol) := by
    rw [symbols]
    exact nested_symbolsOf script
  obtain ⟨p, read, same, matched⟩ := Program.exists_ofSource (scan_textOf proper) nested
  replace same : p.tokens.toList = tokensOf 0 (spaced (symbolsOf script)) := congrArg Array.toList same
  rw [← same] at symbols
  have reads := @Program.reads_all p (by
    rw [same]
    exact newlineBefore_spaced _)
  have noBrace : ∀ k, p.isPunct k openBrace = false := by
    intro k
    cases found : p.tokens[k]? with
    | none =>
      rw [Program.isPunct, Program.is, found]
      rfl
    | some t =>
      have mem : t.symbol ∈ symbolsOf script := by
        rw [← symbols]
        exact List.mem_map_of_mem (Array.mem_toList_iff.mpr (Array.mem_of_getElem? found))
      have has : p.Has k t.symbol := ⟨t, found, rfl⟩
      exact has.isPunct_of_ne (belongs_symbolsOf proper _ mem).2
  have size : 0 + (symbolsOf script).length = p.tokens.size := by
    rw [← symbols, List.length_map, Nat.zero_add, Array.length_toList]
  rw [symbols] at reads
  obtain ⟨hole, -, editsOf_eq⟩ := Program.editsOf_eq_walk read
  have walked := @Program.walk_script p hole matched noBrace script proper clear 0 (.inl rfl) reads []
  rw [size, Program.walk_of_limit] at walked
  have edits : editsOf (textOf script) = .ok [] := by
    rw [editsOf_eq, walked]
    rfl
  rw [erase, edits]
  exact congrArg Except.ok (Edits.applyTo_nil _)

/-- A script with every kind of expression. -/
def manifold : List Statement := [
  .constant "v" (.conditional (.paren (.not (.name "a")))
    (.member (.call (.name "f") [.number "1.5", .array [.string "\"s\"", .name "g"]]) "as")
    (.arrowOf ["x", "y"] (.sum (.name "x") (.paren (.arrow "z" (.not (.name "y"))))))),
  .condition (.sum (.name "a") (.number "1"))
    (.conditional (.name "b") (.paren (.name "c")) (.call (.name "d") []))]

/-- A script with every kind of expression is left alone. -/
theorem erase_manifold :
    erase ("const v = ( ! a ) ? f ( 1.5 , [ \"s\" , g ] ) . as : ( x , y ) => x + ( z => ! y ) ; ".toList ++
        "if ( a + 1 ) b ? ( c ) : d ( ) ;".toList) =
      .ok ("const v = ( ! a ) ? f ( 1.5 , [ \"s\" , g ] ) . as : ( x , y ) => x + ( z => ! y ) ; ".toList ++
        "if ( a + 1 ) b ? ( c ) : d ( ) ;".toList) := by
  have text : textOf manifold =
      "const v = ( ! a ) ? f ( 1.5 , [ \"s\" , g ] ) . as : ( x , y ) => x + ( z => ! y ) ; ".toList ++
        "if ( a + 1 ) b ? ( c ) : d ( ) ;".toList := by decide +kernel
  rw [← text]
  exact erase_textOf (by decide +kernel) (by decide +kernel)

/-- A conditional that reads like an arrow function with types. -/
def arrowLike : List Statement :=
  [.constant "v" (.conditional (.name "a") (.paren (.name "b")) (.arrow "c" (.name "d")))]

/-- A condition whose body reads like an assertion. -/
def assertionLike : List Statement := [.condition (.name "a") (.not (.name "b"))]

/-- Two scripts without types that are not left alone. -/
theorem erase_likeTypes :
    ((∀ statement ∈ arrowLike, statement.IsProper) ∧
      textOf arrowLike = "const v = a ? ( b ) : c => d ;".toList ∧
      erase "const v = a ? ( b ) : c => d ;".toList = .ok "const v = a ? ( b )     => d ;".toList) ∧
    (∀ statement ∈ assertionLike, statement.IsProper) ∧
      textOf assertionLike = "if ( a ) ! b ;".toList ∧
      erase "if ( a ) ! b ;".toList = .ok "if ( a )   b ;".toList :=
  ⟨⟨by decide +kernel, by decide +kernel, by cbv⟩, by decide +kernel, by decide +kernel, by cbv⟩

end Script

end ModuleLinker
