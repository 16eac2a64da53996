import ModuleLinker.Proofs.Erase.Balance
import ModuleLinker.Proofs.Erase.Contexts

/-!
# What holds no types

Symbols that hold no types: names, literals and operators, brackets of all kinds, and functions with
parameters and bodies (`IsUntyped`). Whether a symbol starts a construct of types is told by the one in
front of it and by what stands behind it in its bracket, so that both are part of the rules. A walk goes
through such symbols without an edit (`Program.walk_untyped`), by induction on the rules.
-/

set_option autoImplicit false

namespace ModuleLinker

open Erase ModuleLinker.Symbol

/-! ## Symbols by the one in front of them -/

/-- The words that start a construct wherever they stand. -/
def constructWords : List String :=
  ["import", "export", "function", "class", "let", "const", "var", "catch"]

/-- The words of assertions. -/
def assertionWords : List String := ["as", "satisfies"]

/-- The words that start a construct where a statement starts. -/
def statementWords : List String :=
  ["interface", "type", "declare", "abstract", "enum", "namespace", "module"]

namespace Symbol

/-- Whether a symbol can be the last one of a value. -/
def endsValue (s : Symbol) : Bool :=
  match s.kind with
  | .ident => !Program.nonValueWords.contains s.text
  | .punct => s.text == ")" || s.text == "]"
  | _ => true

/-- Whether a symbol can be the name of a method, or end one. -/
def endsMethodName (s : Symbol) : Bool :=
  match s.kind with
  | .ident => !Program.controlWords.contains s.text
  | .string | .number | .privateName => true
  | .punct => s.text == "]" || s.text == ">"
  | _ => false

/-- Whether a statement starts behind a symbol, wherever the line ends. -/
def endsStatement (s : Symbol) : Bool :=
  s.token.isPunct ";" || s.token.isPunct openBrace || s.token.isPunct closeBrace

/-- Whether a symbol stands for itself behind another one: it is no bracket, and it starts no construct. -/
def standsBehind (s before : Symbol) : Bool :=
  match s.kind with
  | .ident => before.token.isDot || !(constructWords.contains s.text ||
      (assertionWords.contains s.text && before.endsValue) ||
      (statementWords.contains s.text && before.endsStatement))
  | .punct => !(["(", ")", "[", "]", openBrace, closeBrace, "<"].contains s.text ||
      (s.text == "!" && before.endsValue))
  | _ => true

/-- Whether type arguments do not go on at a symbol. -/
def endsArguments (s : Symbol) : Bool :=
  !(isArgument s || (s.kind == .punct && ["<", ">", "(", "[", openBrace].contains s.text))

theorem isPlain_of_standsBehind {s before : Symbol} (stands : s.standsBehind before = true) :
    s.isPlain = true := by
  obtain ⟨kind, text⟩ := s
  cases kind
  case punct =>
    simp [standsBehind] at stands
    simp [isPlain, stands]
  all_goals rfl

end Symbol

/-! ## Symbols without types -/

/-- Whether nothing in a signature is about types. -/
structure Signature.IsUntyped (g : Signature) : Prop where
  /-- The signature is written as it should be. -/
  proper : g.IsProper
  /-- Nothing of it is overwritten. -/
  bare : ∀ part ∈ g.parts, part.erased = true → part.symbols = []

/-- Whether symbols between a parenthesis and the end of what it stands in show that it holds no
parameters. -/
structure IsGroup (inside : Bool) (before : Symbol) (rest : List Symbol) : Prop where
  /-- No arrow stands behind the parenthesis. -/
  arrow : rest.head? ≠ some (mark "=>")
  /-- No body does, if a method could start in front of it. -/
  body : before.endsMethodName = true → rest.head? ≠ some (mark openBrace)
  /-- What stands behind a colon is no result type with an arrow or a body behind it. -/
  result : rest.head? = some (mark ":") → inside = true ∧ mark "=>" ∉ rest ∧
    (before.endsMethodName = true → mark openBrace ∉ rest)

/-- Whether symbols behind another one hold no types, in a bracket that ends behind them (`inside`) or
elsewhere. -/
inductive IsUntyped : Bool → Symbol → List Symbol → Prop
  /-- Nothing. -/
  | nil {inside : Bool} {before : Symbol} : IsUntyped inside before []
  /-- A symbol that stands for itself; a comma or a semicolon only in brackets. -/
  | cons {inside : Bool} {before s : Symbol} {rest : List Symbol} :
      inside = true ∨ (s ≠ mark "," ∧ s ≠ mark ";") → s.standsBehind before = true →
      IsUntyped inside s rest → IsUntyped inside before (s :: rest)
  /-- A call or a property of `import`. -/
  | load {inside : Bool} {before : Symbol} {text : String} {rest : List Symbol} :
      text ∈ ["(", "."] → IsUntyped inside (word "import") (mark text :: rest) →
      IsUntyped inside before (word "import" :: mark text :: rest)
  /-- An array, an object, an index or a block. -/
  | bracket {inside : Bool} {before : Symbol} {opener : String} {ss rest : List Symbol} :
      opener = "[" ∨ opener = openBrace → IsUntyped true (mark opener) ss →
      IsUntyped inside (mark (closerOf opener)) rest →
      IsUntyped inside before (mark opener :: (ss ++ mark (closerOf opener) :: rest))
  /-- A parenthesis that holds no parameters. -/
  | group {inside : Bool} {before : Symbol} {ss rest : List Symbol} :
      IsGroup inside before rest → IsUntyped true (mark "(") ss → IsUntyped inside (mark ")") rest →
      IsUntyped inside before (mark "(" :: (ss ++ mark (closerOf "(") :: rest))
  /-- A comparison that does not read like type arguments. -/
  | less {inside : Bool} {before : Symbol} {front rest : List Symbol} :
      Nested front → mark ">" ∉ front → (inside = true ∨ rest ≠ []) →
      (∀ s ∈ rest.head?, s.endsArguments = true) → IsUntyped inside (mark "<") (front ++ rest) →
      IsUntyped inside before (mark "<" :: (front ++ rest))
  /-- The parameters of an arrow function. -/
  | arrow {inside : Bool} {before : Symbol} {g : Signature} {rest : List Symbol} :
      g.IsUntyped → IsUntyped inside (mark ")") (mark "=>" :: rest) →
      IsUntyped inside before (mark "(" :: (allSymbols g.parts ++ mark "=>" :: rest))
  /-- The parameters of a method. -/
  | method {inside : Bool} {m : String} {g : Signature} {rest : List Symbol} :
      m ∉ Program.controlWords → g.IsUntyped → IsUntyped inside (mark ")") (mark openBrace :: rest) →
      IsUntyped inside (word m) (mark "(" :: (allSymbols g.parts ++ mark openBrace :: rest))
  /-- A function up to its body. -/
  | function {inside : Bool} {before : Symbol} {name : Option String} {g : Signature}
      {rest : List Symbol} : before.token.isDot = false → g.IsUntyped →
      IsUntyped inside (mark ")") (mark openBrace :: rest) →
      IsUntyped inside before (word "function" :: (name.toList.map word ++
        mark "(" :: (allSymbols g.parts ++ mark openBrace :: rest)))
  /-- The declaration of a variable in a body. -/
  | binds {before : Symbol} {keyword x : String} {value rest : List Symbol} :
      keyword ∈ ["let", "const", "var"] → x ≠ "enum" → before.token.isDot = false →
      IsUntyped false (mark "=") value → IsUntyped true (mark ";") rest →
      IsUntyped true before (word keyword :: word x :: mark "=" :: (value ++ mark ";" :: rest))

/-- The parts of an entry are among those of its list. -/
theorem exists_parts_subset {es : List Formal} {e : Formal} (mem : e ∈ es) (trailing : Bool) :
    ∃ comma, e.parts comma ⊆ entryParts trailing es := by
  fun_induction entryParts trailing es with
  | case1 => cases mem
  | case2 e =>
    obtain rfl := List.mem_singleton.mp mem
    exact ⟨trailing, List.Subset.refl _⟩
  | case3 e' es _ ih =>
    rcases List.mem_cons.mp mem with rfl | mem
    · exact ⟨true, List.subset_append_left ..⟩
    · obtain ⟨comma, among⟩ := ih mem
      exact ⟨comma, List.subset_append_of_subset_right _ among⟩

namespace Signature.IsUntyped

variable {g : Signature} (untyped : g.IsUntyped)
include untyped

theorem isOrdinary : g.IsOrdinary := by
  intro q mem
  obtain ⟨comma, among⟩ := exists_parts_subset mem g.trailing
  rw [List.eq_nil_iff_forall_not_mem]
  intro m modifier
  have inside : (⟨true, [word m]⟩ : Part) ∈ (Formal.binds q).parts comma :=
    List.mem_append_left _ (List.mem_append_left _ (List.mem_map_of_mem modifier))
  have none := untyped.bare _ (List.mem_append_left _ (among inside)) rfl
  cases none

/-- A signature without types ends with the parenthesis that closes its parameter list. -/
theorem allSymbols_eq :
    allSymbols g.parts = allSymbols (entryParts g.trailing g.entries) ++ [mark ")"] := by
  have result := untyped.bare ⟨true, annotationSymbols g.result⟩ (by simp [parts]) rfl
  dsimp only at result
  simp [parts, result]

theorem nested : Nested (mark "(" :: allSymbols g.parts) := untyped.proper.nested

end Signature.IsUntyped

/-- The brackets of symbols without types have partners. -/
theorem IsUntyped.nested {inside : Bool} {before : Symbol} {ss : List Symbol}
    (untyped : IsUntyped inside before ss) : Nested ss := by
  have opened {opener : String} {ss rest : List Symbol} (among : opener ∈ openers) (inner : Nested ss)
      (behind : Nested rest) : Nested (mark opener :: (ss ++ mark (closerOf opener) :: rest)) := by
    have parts := (Nested.bracket among inner).append behind
    rwa [List.cons_append, List.append_assoc] at parts
  have signed {g : Signature} {rest : List Symbol} (untyped : g.IsUntyped) (behind : Nested rest) :
      Nested (mark "(" :: (allSymbols g.parts ++ rest)) := untyped.nested.append behind
  induction untyped with
  | nil => exact .nil
  | cons _ stands _ ih => exact .cons (isPlain_of_standsBehind stands) ih
  | load _ _ ih => exact .cons rfl ih
  | bracket known _ _ inner behind =>
    refine opened ?_ inner behind
    rcases known with rfl | rfl <;> decide
  | group _ _ _ inner behind => exact opened (by decide) inner behind
  | less _ _ _ _ _ ih => exact .cons rfl ih
  | arrow untyped _ ih | method _ untyped _ ih => exact signed untyped ih
  | @function _ _ name _ _ _ untyped _ ih =>
    have words : Nested (name.toList.map word) := nested_words _
    exact .cons rfl (words.append (signed untyped ih))
  | binds _ _ _ _ _ value behind => exact .cons rfl (.cons rfl (.cons rfl (value.append (.cons rfl behind))))

namespace Erase.Program

variable {p : Program} {hole : Hole → Except Failure Edits}

/-! ## Questions about the symbol in front -/

section Front

variable {i : Nat} {s : Symbol} (has : p.Has i s)
include has

theorem Has.endsValue_eq : p.endsValue i = s.endsValue := has.is_eq fun _ => rfl

theorem Has.endsMethodName_eq : p.endsMethodName i = s.endsMethodName := has.is_eq fun _ => rfl

theorem Has.afterDot_eq : p.afterDot (i + 1) = s.token.isDot := by
  rw [afterDot, Nat.add_sub_cancel, has.is_eq fun _ => rfl]
  rfl

theorem Has.startsStatement_eq {x : String} (shows : p.Shows (i + 1) (word x)) :
    p.startsStatement (i + 1) = s.endsStatement := by
  rw [startsStatement, Nat.add_sub_cancel, has.isPunct_eq, has.isPunct_eq, has.isPunct_eq,
    shows.newlineBefore_eq]
  simp [endsStatement]

end Front

/-! ## Single symbols -/

/-- A word that starts no construct behind the symbol in front of it is left alone. -/
theorem step_of_lone_word {i : Nat} {before : Symbol} {x : String} (has : p.Has i before)
    (shows : p.Shows (i + 1) (word x)) (stands : (word x).standsBehind before = true) (w : Walker)
    (limit : Nat) (edits : Edits) : p.step w limit ⟨i + 1, edits⟩ = .ok ⟨i + 2, edits⟩ := by
  rw [step_eq_stepWord shows.has, stepWord]
  dsimp only
  rw [has.afterDot_eq, shows.text_eq, has.startsStatement_eq shows]
  cases dot : before.token.isDot with
  | true => rfl
  | false =>
    simp only [standsBehind, dot, kind_word, text_word, Bool.false_or, Bool.not_eq_true',
      Bool.or_eq_false_iff, List.contains_eq_mem, decide_eq_false_iff_not] at stands
    obtain ⟨⟨noConstruct, noAssertion⟩, noStatement⟩ := stands
    simp only [constructWords, List.mem_cons, List.not_mem_nil, or_false, not_or] at noConstruct
    by_cases assertion : x ∈ assertionWords
    · have noValue : before.endsValue = false := by simpa [assertion] using noAssertion
      have skipped : p.stepAssertion ⟨i + 1, edits⟩ = .ok ⟨i + 2, edits⟩ := by
        simp [stepAssertion, has.endsValue_eq, noValue, State.skip, State.goto]
      simp only [assertionWords, List.mem_cons, List.not_mem_nil, or_false] at assertion
      rcases assertion with rfl | rfl <;> exact skipped
    · simp only [assertionWords, List.mem_cons, List.not_mem_nil, or_false, not_or] at assertion
      cases opens : before.endsStatement with
      | false => simp [noConstruct, assertion, State.skip, State.goto]
      | true =>
        have other : x ∉ statementWords := by simpa [opens] using noStatement
        simp only [statementWords, List.mem_cons, List.not_mem_nil, or_false, not_or] at other
        simp [noConstruct, assertion, typeStatement, shows.text_eq, other, State.goto]

/-- Substitutions without edits leave a template literal alone. -/
theorem stepHoles_of_quiet {w : Walker} {holes : List Hole} (quiet : ∀ h ∈ holes, w.hole h = .ok [])
    (s : State) : stepHoles w s holes = .ok s := by
  induction holes with
  | nil => rfl
  | cons h holes ih =>
    rw [List.forall_mem_cons] at quiet
    rw [stepHoles, quiet.1]
    exact ih quiet.2

/-- A symbol that stands for itself behind the one in front of it is left alone. -/
theorem step_of_standsBehind {i : Nat} {before s : Symbol} (has : p.Has i before)
    (shows : p.Shows (i + 1) s) (stands : s.standsBehind before = true) {w : Walker}
    (quiet : ∀ t ∈ p.tokens, ∀ h ∈ t.holes, w.hole h = .ok []) (limit : Nat) (edits : Edits) :
    p.step w limit ⟨i + 1, edits⟩ = .ok ⟨i + 2, edits⟩ := by
  have value := has.endsValue_eq
  obtain ⟨⟨kind, start, text, newline, holes⟩, found, rfl, line⟩ := id shows
  cases kind
  case ident => exact step_of_lone_word has shows stands w limit edits
  case punct =>
    simp [standsBehind, Token.symbol] at stands
    unfold step
    rw [found]
    simp only [Nat.add_sub_cancel, value]
    simp [Token.isPunct, stands, State.skip, State.goto]
    intro isNot behindValue
    rcases stands.2 with other | noValue
    · exact absurd isNot other
    · rw [noValue] at behindValue
      cases behindValue
  case template =>
    have quiet : ∀ h ∈ holes, w.hole h = .ok [] := quiet _ (Array.mem_of_getElem? found)
    unfold step
    rw [found]
    exact stepHoles_of_quiet quiet _
  all_goals
    unfold step
    rw [found]
    rfl

/-- In front of a parenthesis or a point `import` starts no declaration. -/
theorem step_of_load {i : Nat} {before : Symbol} (has : p.Has i before)
    (keyword : p.Has (i + 1) (word "import")) {text : String} (known : text ∈ ["(", "."])
    (next : p.Has (i + 2) (mark text)) (w : Walker) (limit : Nat) (edits : Edits) :
    p.step w limit ⟨i + 1, edits⟩ = .ok ⟨i + 2, edits⟩ := by
  have noClause : p.importDeclaration (i + 1) ⟨i + 1, edits⟩ = .ok ⟨i + 2, edits⟩ := by
    simp only [List.mem_cons, List.not_mem_nil, or_false] at known
    unfold importDeclaration
    rcases known with rfl | rfl <;>
      simp [next.isPunct_eq, next.isName_eq, next.kind?_eq, openBrace, State.goto]
  rw [step_eq_stepWord keyword, stepWord]
  dsimp only
  rw [has.afterDot_eq, keyword.text_eq]
  cases before.token.isDot with
  | true => rfl
  | false => exact noClause

/-- At the keyword of a variable its declaration is looked at. -/
theorem step_of_binding {i : Nat} {before : Symbol} {keyword x : String} (has : p.Has i before)
    (keyword' : p.Has (i + 1) (word keyword)) (known : keyword ∈ ["let", "const", "var"])
    (noDot : before.token.isDot = false) (name : p.Has (i + 2) (word x)) (free : x ≠ "enum") (w : Walker)
    (limit : Nat) (edits : Edits) :
    p.step w limit ⟨i + 1, edits⟩ = p.variableDeclaration w (i + 1) limit ⟨i + 1, edits⟩ := by
  have noEnum : p.isWord (i + 2) "enum" = false := by
    rw [name.isWord_eq, isWord_token_word, beq_eq_false_iff_ne]
    exact free
  rw [step_eq_stepWord keyword', stepWord]
  dsimp only
  rw [has.afterDot_eq, keyword'.text_eq, noDot]
  simp only [List.mem_cons, List.not_mem_nil, or_false] at known
  rcases known with rfl | rfl | rfl <;> simp [noEnum]

/-- Nothing is overwritten where every part that goes is empty. -/
theorem erased_of_bare {parts : List Part} (bare : ∀ part ∈ parts, part.erased = true → part.symbols = [])
    (i : Nat) (edits : Edits) : p.erased i parts edits = edits := by
  induction parts generalizing i with
  | nil => rfl
  | cons part parts ih =>
    rw [List.forall_mem_cons] at bare
    have own : p.erased i [part] edits = edits := by
      obtain ⟨erased, symbols⟩ := part
      cases erased with
      | false => rfl
      | true =>
        obtain rfl : symbols = [] := bare.1 rfl
        exact erased_empty i edits
    rw [erased_cons, own, ih bare.2]

/-- A function without types is stepped over up to its body. -/
theorem step_of_function (matched : matchBrackets p.tokens = .ok p.partners) {i j : Nat}
    {before : Symbol} {name : Option String} {g : Signature} (untyped : g.IsUntyped)
    (has : p.Has i before) (noDot : before.token.isDot = false)
    (reads : p.Reads (i + 1) (word "function" :: name.toList.map word ++ mark "(" :: allSymbols g.parts))
    (place : i + 1 + (word "function" :: name.toList.map word ++ mark "(" :: allSymbols g.parts).length = j)
    (brace : p.Has j (mark openBrace)) (limit : Nat) (edits : Edits) :
    p.step (p.walkerAt hole (i + 1)) limit ⟨i + 1, edits⟩ = .ok ⟨j, edits⟩ := by
  obtain ⟨⟨keyword, front⟩, opens, own⟩ := reads_append.mp reads
  have behind : i + 1 + (word "function" :: name.toList.map word).length = i + 2 + name.toList.length := by
    rw [List.length_cons, List.length_map]
    omega
  rw [behind] at opens own
  rw [List.length_append, ← Nat.add_assoc, behind, List.length_cons] at place
  rw [step_eq_stepWord keyword.has, stepWord]
  dsimp only
  rw [has.afterDot_eq, noDot, keyword.text_eq]
  have declared := @functionDeclaration_eq p hole matched g untyped.proper untyped.isOrdinary name (i + 1) j _
    front.hasAll rfl opens own (by rw [← place]; omega) brace (i + 1) (i + 2) edits
  rw [erased_of_bare untyped.bare] at declared
  exact declared

/-! ## Places of symbols -/

/-- Whether a bracket that opens before a position ends at another one. -/
def ClosesAt (p : Program) (i k : Nat) : Prop :=
  ∃ o < i, p.partners[k]? = some (some o) ∧ ∃ opener ∈ openers, p.Has k (mark (closerOf opener))

/-- Whether a walk can go on from one position to another, in a bracket that ends there or elsewhere. -/
structure Spans (p : Program) (inside : Bool) (i k limit : Nat) (stop : Nat → Bool) : Prop where
  /-- The walk does not end in between. -/
  le : k ≤ limit
  /-- It stops at commas and semicolons only. -/
  stays : p.Stays stop
  /-- In a bracket it does not stop. -/
  free : inside = true → stop = nowhere
  /-- The bracket opens in front of the first position. -/
  closes : inside = true → p.ClosesAt i k
  /-- What stands at the second one does not make parameters of a parenthesis. -/
  calm : ∀ text ∈ ["=>", ":", openBrace], p.isPunct k text = false

/-- A symbol is none of some punctuators that it is not among. -/
theorem Has.isPunct_of_not_mem {k : Nat} {s : Symbol} (has : p.Has k s) {texts : List String}
    (other : s ∉ texts.map mark) : ∀ text ∈ texts, p.isPunct k text = false := by
  intro text among
  refine has.isPunct_of_ne ?_
  rintro rfl
  exact other (List.mem_map_of_mem among)

/-- What closes a bracket is no arrow, colon or brace that opens. -/
theorem mark_closerOf_not_mem :
    ∀ opener ∈ openers, mark (closerOf opener) ∉ ["=>", ":", openBrace].map mark := by
  decide

/-- The symbols in a bracket stand where a walk can go through. -/
theorem spans_bracket (matched : matchBrackets p.tokens = .ok p.partners) {opener : String}
    (among : opener ∈ openers) {ss : List Symbol} (nested : Nested ss) {o : Nat}
    (reads : p.Reads o (mark opener :: (ss ++ [mark (closerOf opener)]))) :
    p.Spans true (o + 1) (p.close o) (p.close o) nowhere := by
  obtain ⟨-, -, closer⟩ := reads.inside matched among nested
  have partner := reads.hasAll.partner_eq matched among nested
  rw [← reads.close_eq matched among nested] at partner
  have back := (isPairing_of_matched matched).symm _ _ partner
  exact ⟨le_rfl, stays_nowhere, fun _ => rfl,
    fun _ => ⟨o, Nat.lt_succ_self o, back, opener, among, closer.has⟩,
    closer.has.isPunct_of_not_mem (mark_closerOf_not_mem opener among)⟩

namespace Spans

variable {inside : Bool} {i k limit : Nat} {stop : Nat → Bool} (spans : p.Spans inside i k limit stop)
include spans

theorem later {j : Nat} (le : i ≤ j) : p.Spans inside j k limit stop :=
  { spans with
    closes := fun isInside => by
      obtain ⟨o, less, closes⟩ := spans.closes isInside
      exact ⟨o, Nat.lt_of_lt_of_le less le, closes⟩ }

/-- A walk takes the step at a symbol that it does not stop at. -/
theorem walk_eq {s : Symbol} (has : p.Has i s)
    (allowed : inside = true ∨ (s ≠ mark "," ∧ s ≠ mark ";")) (less : i < k) {j : Nat}
    {edits edits' : Edits} (step : p.step (p.walkerAt hole i) limit ⟨i, edits⟩ = .ok ⟨j, edits'⟩)
    (further : i < j) :
    p.walk hole limit stop ⟨i, edits⟩ = p.walk hole limit stop ⟨j, edits'⟩ := by
  have before : i < limit := Nat.lt_of_lt_of_le less spans.le
  rcases allowed with isInside | other
  · have never := spans.free isInside
    subst never
    exact walk_eq_step has.lt_size before rfl step further
  · exact walk_of_step has other before spans.stays step further

/-- What does not stand in front of the other symbols does not stand where they begin. -/
theorem isPunct_eq {rest : List Symbol} (reads : p.Reads i rest) (place : i + rest.length = k)
    {text : String} (other : rest.head? ≠ some (mark text)) (among : text ∈ ["=>", ":", openBrace]) :
    p.isPunct i text = false := by
  cases rest with
  | nil =>
    obtain rfl : i = k := place
    exact spans.calm text among
  | cons s rest => exact reads.1.has.isPunct_of_ne fun same => other (by rw [same]; rfl)

end Spans

theorem HasAll.exists_mem {i j : Nat} {ss : List Symbol} (has : p.HasAll i ss) (low : i ≤ j)
    (high : j < i + ss.length) : ∃ s ∈ ss, p.Has j s := by
  induction ss generalizing i with
  | nil =>
    rw [List.length_nil] at high
    omega
  | cons s ss ih =>
    rcases Nat.eq_or_lt_of_le low with rfl | later
    · exact ⟨s, List.mem_cons_self, has.1⟩
    · obtain ⟨s', mem, found⟩ := ih has.2 later (by rw [List.length_cons] at high; omega)
      exact ⟨s', List.mem_cons_of_mem _ mem, found⟩

/-! ## Parentheses and comparisons -/

/-- What stands behind a colon is no result type where the arrow or the body behind it is missing. -/
theorem Spans.not_typedBefore (matched : matchBrackets p.tokens = .ok p.partners) {inside : Bool}
    {c k limit : Nat} {stop : Nat → Bool} (spans : p.Spans inside (c + 1) k limit stop)
    {rest : List Symbol} (reads : p.Reads (c + 1) rest) (place : c + 1 + rest.length = k) (text : String)
    (among : text ∈ ["=>", ":", openBrace])
    (none : rest.head? = some (mark ":") → inside = true ∧ mark text ∉ rest) :
    p.typedBefore c text = false := by
  by_cases colon : rest.head? = some (mark ":")
  · obtain ⟨isInside, none⟩ := none colon
    obtain ⟨o, less, pair, opener, isOpener, closer⟩ := spans.closes isInside
    rw [typedBefore_eq]
    cases found : p.typeStop? (c + 2) with
    | none => exact Bool.and_false _
    | some j =>
      -- The type closes the brackets that it opens, so that it does not go beyond the closer.
      have balanced := balanced_of_typeStop? found
      have le : j ≤ k := by
        by_contra beyond
        have some : 0 < rest.length := by
          cases rest with
          | nil => cases colon
          | cons => exact Nat.succ_pos _
        have inner := (balanced.partner matched (by omega) (Nat.lt_of_not_le beyond) pair).1
        omega
      have other : p.isPunct j text = false := by
        rcases Nat.eq_or_lt_of_le le with rfl | before
        · exact closer.isPunct_of_not_mem (mark_closerOf_not_mem opener isOpener) text among
        · have further := balanced.le
          obtain ⟨s, mem, has⟩ := reads.hasAll.exists_mem (j := j) (by omega) (by omega)
          refine has.isPunct_of_ne ?_
          rintro rfl
          exact none mem
      rw [Option.any_some, other, Bool.false_and, Bool.and_false]
  · exact typedBefore_of_not_colon (spans.isPunct_eq reads place colon (by decide)) text

/-- A parenthesis that holds no parameters is walked into. -/
theorem stepParenthesis_of_group (matched : matchBrackets p.tokens = .ok p.partners) {inside : Bool}
    {before : Symbol} {rest : List Symbol} (group : IsGroup inside before rest) {i k limit : Nat}
    {stop : Nat → Bool} (has : p.Has i before)
    (spans : p.Spans inside (p.close (i + 1) + 1) k limit stop)
    (reads : p.Reads (p.close (i + 1) + 1) rest) (place : p.close (i + 1) + 1 + rest.length = k)
    (w : Walker) (edits : Edits) :
    p.stepParenthesis w ⟨i + 1, edits⟩ = p.walkBracket w ⟨i + 1, edits⟩ := by
  have noArrow := spans.isPunct_eq reads place group.arrow (by decide)
  have noResult := spans.not_typedBefore matched reads place "=>" (by decide)
    fun colon => ⟨(group.result colon).1, (group.result colon).2.1⟩
  unfold stepParenthesis
  dsimp only
  rw [Nat.add_sub_cancel, has.endsMethodName_eq, noArrow, noResult]
  cases method : before.endsMethodName with
  | false => simp
  | true =>
    have noBody := spans.isPunct_eq reads place (group.body method) (by decide)
    have noBody' := spans.not_typedBefore matched reads place openBrace (by decide)
      fun colon => ⟨(group.result colon).1, (group.result colon).2.2 method⟩
    rw [noBody, noBody']
    simp

theorem step_of_angle {i : Nat} (has : p.Has i (mark "<")) (w : Walker) (limit : Nat) (edits : Edits) :
    p.step w limit ⟨i, edits⟩ = .ok (p.stepAngle ⟨i, edits⟩) := by
  obtain ⟨⟨kind, start, text, newline, holes⟩, found, same⟩ := has
  cases same
  unfold step
  rw [found]
  rfl

/-- Type arguments do not go on at a symbol that ends them. -/
theorem angleStop?_of_endsArguments {k : Nat} {s : Symbol} (has : p.Has k s)
    (ends : s.endsArguments = true) (depth : Nat) : p.angleStop? depth k = none := by
  obtain ⟨⟨kind, start, text, newline, holes⟩, found, rfl⟩ := has
  rw [angleStop?_eq, found, Option.bind_some]
  cases kind
  case punct =>
    simp [endsArguments, isArgument, Token.symbol] at ends
    simp [Token.isPunct, Token.isOpener, ends]
  case regex => rfl
  all_goals cases ends

/-- The search for the end of type arguments finds none where a symbol that ends them comes first. -/
theorem angleStop?_eq_none (matched : matchBrackets p.tokens = .ok p.partners) {ss : List Symbol}
    (nested : Nested ss) (absent : mark ">" ∉ ss) {i k : Nat} (reads : p.Reads i ss)
    (place : i + ss.length = k) (ends : ∀ depth, p.angleStop? depth k = none) (depth : Nat) :
    p.angleStop? depth i = none := by
  induction nested generalizing i k depth with
  | nil =>
    obtain rfl : i = k := place
    exact ends depth
  | @plain s isPlain =>
    obtain rfl : i + 1 = k := place
    obtain ⟨t, found, rfl, -⟩ := reads.1
    have other : t.isPunct ">" = false := by
      rw [Bool.eq_false_iff]
      intro greater
      simp only [Token.isPunct, Bool.and_eq_true, beq_iff_eq] at greater
      exact absent (by simp [Token.symbol, mark, greater])
    rw [angleStop?_eq, found, Option.bind_some, other, (Token.isOpener_of_isPlain isPlain).1]
    simp [ends]
  | @append ss ts _ _ ih ih' =>
    obtain ⟨front, back⟩ := reads_append.mp reads
    rw [List.mem_append, not_or] at absent
    rw [List.length_append, ← Nat.add_assoc] at place
    exact ih absent.1 front rfl (fun depth => ih' absent.2 back place ends depth) depth
  | bracket among inner =>
    have passed := IsPassed.bracket among inner p matched depth i reads
    rw [passed, place]
    exact ends depth

/-! ## Walks through symbols without types -/

/-- Whether every walk goes through symbols behind another one without an edit. -/
def GoesThrough (p : Program) (hole : Hole → Except Failure Edits) (inside : Bool) (before : Symbol)
    (ss : List Symbol) : Prop :=
  ∀ ⦃i k limit : Nat⦄ ⦃stop : Nat → Bool⦄ ⦃edits : Edits⦄, p.Has i before → p.Reads (i + 1) ss →
    i + 1 + ss.length = k → p.Spans inside (i + 1) k limit stop →
    p.walk hole limit stop ⟨i + 1, edits⟩ = p.walk hole limit stop ⟨k, edits⟩

theorem Reads.bracket {i : Nat} {opener : String} {ss rest : List Symbol}
    (reads : p.Reads i (mark opener :: (ss ++ mark (closerOf opener) :: rest))) :
    p.Reads i (mark opener :: (ss ++ [mark (closerOf opener)])) ∧ p.Reads (i + 1 + ss.length + 1) rest := by
  obtain ⟨opens, inner⟩ := reads
  obtain ⟨inner, closer, rest⟩ := reads_append.mp inner
  exact ⟨⟨opens, reads_append.mpr ⟨inner, closer, trivial⟩⟩, rest⟩

namespace GoesThrough

variable {inside : Bool} {before : Symbol}

theorem nil : p.GoesThrough hole inside before [] := by
  intro i k limit stop edits _ _ place _
  obtain rfl : i + 1 = k := place
  rfl

/-- A symbol that is stepped over, and what stands behind it. -/
theorem cons {s : Symbol} {rest : List Symbol} (allowed : inside = true ∨ (s ≠ mark "," ∧ s ≠ mark ";"))
    (step : ∀ ⦃i limit : Nat⦄ ⦃edits : Edits⦄, p.Has i before → p.Reads (i + 1) (s :: rest) →
      p.step (p.walkerAt hole (i + 1)) limit ⟨i + 1, edits⟩ = .ok ⟨i + 2, edits⟩)
    (behind : p.GoesThrough hole inside s rest) : p.GoesThrough hole inside before (s :: rest) := by
  intro i k limit stop edits has reads place spans
  have place : i + 2 + rest.length = k := by
    rw [← place, List.length_cons]
    omega
  rw [spans.walk_eq reads.1.has allowed (by omega) (step has reads) (Nat.lt_succ_self _)]
  exact behind reads.1.has reads.2 place (spans.later (Nat.le_succ _))

/-- A bracket that is walked into, and what stands behind it. -/
theorem opened (matched : matchBrackets p.tokens = .ok p.partners) {opener : String}
    (among : opener ∈ openers) {ss rest : List Symbol} (nested : Nested ss)
    (step : ∀ ⦃i k limit : Nat⦄ ⦃stop : Nat → Bool⦄ ⦃edits : Edits⦄, p.Has i before →
      p.Has (i + 1) (mark opener) → p.Reads (p.close (i + 1) + 1) rest →
      p.close (i + 1) + 1 + rest.length = k → p.Spans inside (p.close (i + 1) + 1) k limit stop →
      p.step (p.walkerAt hole (i + 1)) limit ⟨i + 1, edits⟩ =
        p.walkBracket (p.walkerAt hole (i + 1)) ⟨i + 1, edits⟩)
    (inner : p.GoesThrough hole true (mark opener) ss)
    (behind : p.GoesThrough hole inside (mark (closerOf opener)) rest) :
    p.GoesThrough hole inside before (mark opener :: (ss ++ mark (closerOf opener) :: rest)) := by
  intro i k limit stop edits has reads place spans
  obtain ⟨bracket, reads'⟩ := reads.bracket
  obtain ⟨inside', close, closer⟩ := bracket.inside matched among nested
  have later := p.lt_close (i + 1)
  rw [close] at reads'
  have place : p.close (i + 1) + 1 + rest.length = k := by
    rw [← close, ← place]
    simp only [List.length_cons, List.length_append]
    omega
  have spans' := spans.later (show i + 1 ≤ p.close (i + 1) + 1 by omega)
  have within : p.walk hole (p.close (i + 1)) nowhere ⟨i + 2, edits⟩ = .ok ⟨p.close (i + 1), edits⟩ := by
    rw [inner bracket.1.has inside' close (spans_bracket matched among nested bracket)]
    exact walk_of_limit edits
  have stepped := (@step _ _ _ _ edits has bracket.1.has reads' place spans').trans
    (walkBracket_of_walk le_rfl within)
  have other : ∀ opener ∈ openers, mark opener ≠ mark "," ∧ mark opener ≠ mark ";" := by decide
  rw [spans.walk_eq bracket.1.has (.inr (other opener among)) (by omega) stepped (by omega)]
  exact behind closer.has reads' place spans'

/-- A comparison that does not read like type arguments. -/
theorem less (matched : matchBrackets p.tokens = .ok p.partners) {front rest : List Symbol}
    (nested : Nested front) (absent : mark ">" ∉ front) (some : inside = true ∨ rest ≠ [])
    (ends : ∀ s ∈ rest.head?, s.endsArguments = true)
    (behind : p.GoesThrough hole inside (mark "<") (front ++ rest)) :
    p.GoesThrough hole inside before (mark "<" :: (front ++ rest)) := by
  intro i k limit stop edits has reads place spans
  have sign := reads.1
  obtain ⟨reads', last⟩ := reads_append.mp reads.2
  have place : i + 2 + (front ++ rest).length = k := by
    rw [← place, List.length_cons]
    omega
  have final : ∀ depth, p.angleStop? depth (i + 2 + front.length) = none := by
    cases rest with
    | nil =>
      obtain ⟨o, -, -, opener, among, closer⟩ := spans.closes (some.resolve_right fun some => some rfl)
      have atEnd : i + 2 + front.length = k := by rw [← place, List.append_nil]
      rw [atEnd]
      have ends : ∀ opener ∈ openers, (mark (closerOf opener)).endsArguments = true := by decide
      exact angleStop?_of_endsArguments closer (ends opener among)
    | cons s rest => exact angleStop?_of_endsArguments last.1.has (ends s rfl)
  have none := angleStop?_eq_none matched nested absent reads' rfl final 0
  have stepped : p.step (p.walkerAt hole (i + 1)) limit ⟨i + 1, edits⟩ = .ok ⟨i + 2, edits⟩ := by
    rw [step_of_angle sign.has, stepAngle_eq]
    dsimp only
    rw [none]
    rfl
  rw [spans.walk_eq sign.has (.inr (by decide)) (by omega) stepped (Nat.lt_succ_self _)]
  exact behind sign.has reads.2 place (spans.later (Nat.le_succ _))

/-- A signature without types that is stepped over, and what stands behind its parenthesis. -/
theorem signed {g : Signature} (untyped : g.IsUntyped) {front : List Symbol}
    (allowed : ∀ s ∈ front, s ≠ mark "," ∧ s ≠ mark ";") {text : String} {rest : List Symbol}
    (step : ∀ ⦃i j limit : Nat⦄ ⦃edits : Edits⦄, p.Has i before →
      p.Reads (i + 1) (front ++ mark "(" :: allSymbols g.parts) →
      i + 1 + (front ++ mark "(" :: allSymbols g.parts).length = j → p.Shows j (mark text) →
      p.step (p.walkerAt hole (i + 1)) limit ⟨i + 1, edits⟩ = .ok ⟨j, edits⟩)
    (behind : p.GoesThrough hole inside (mark ")") (mark text :: rest)) :
    p.GoesThrough hole inside before (front ++ mark "(" :: (allSymbols g.parts ++ mark text :: rest)) := by
  intro i k limit stop edits has reads place spans
  have split : front ++ mark "(" :: (allSymbols g.parts ++ mark text :: rest) =
      (front ++ mark "(" :: allSymbols g.parts) ++ mark text :: rest := by simp
  rw [split] at reads place
  rw [List.length_append, ← Nat.add_assoc] at place
  obtain ⟨own, next⟩ := reads_append.mp reads
  have closer := own.hasAll.last (s := mark ")") (by simp [untyped.allSymbols_eq, List.getLast?_cons])
  obtain ⟨j, atEnd⟩ : ∃ j, i + 1 + (front ++ mark "(" :: allSymbols g.parts).length = j + 1 :=
    ⟨i + (front ++ mark "(" :: allSymbols g.parts).length, by omega⟩
  have some : 0 < (front ++ mark "(" :: allSymbols g.parts).length := by simp
  rw [atEnd] at closer next place
  have stepped := @step _ _ limit edits has own atEnd next.1
  obtain ⟨s, first, other⟩ : ∃ s, p.Has (i + 1) s ∧ s ≠ mark "," ∧ s ≠ mark ";" := by
    cases front with
    | nil => exact ⟨_, own.1.has, by decide⟩
    | cons s front => exact ⟨s, own.1.has, allowed s List.mem_cons_self⟩
  rw [spans.walk_eq first (.inr other) (by omega) stepped (by omega)]
  exact behind closer next place (spans.later (by omega))

/-- The declaration of a variable that is stepped over, and what stands behind its semicolon. -/
theorem binds {keyword x : String} {value rest : List Symbol} (known : keyword ∈ ["let", "const", "var"])
    (free : x ≠ "enum") (noDot : before.token.isDot = false)
    (inner : p.GoesThrough hole false (mark "=") value)
    (behind : p.GoesThrough hole true (mark ";") rest) :
    p.GoesThrough hole true before (word keyword :: word x :: mark "=" :: (value ++ mark ";" :: rest)) := by
  intro i k limit stop edits has reads place spans
  obtain ⟨keyword', name, equals, reads⟩ := reads
  obtain ⟨reads, semicolon, reads'⟩ := reads_append.mp reads
  obtain ⟨m, isM⟩ : ∃ m, i + 4 + value.length = m := ⟨_, rfl⟩
  have atEnd : i + 1 + 1 + 1 + 1 + value.length = m := isM
  rw [atEnd] at semicolon reads'
  have place : m + 1 + rest.length = k := by
    rw [← place]
    simp only [List.length_cons, List.length_append]
    omega
  have spans' : p.Spans false (i + 4) m limit fun j => [",", ";"].any fun text => p.isPunct j text :=
    ⟨by have := spans.le; omega, fun j stops => by simpa using stops, nofun, nofun,
      semicolon.has.isPunct_of_not_mem (by decide)⟩
  have walked : p.walk hole limit (fun j => [",", ";"].any fun text => p.isPunct j text) ⟨i + 4, edits⟩ =
      .ok ⟨m, edits⟩ := by
    rw [inner equals.has reads isM spans']
    exact walk_of_stop (by simp [semicolon.isPunct_eq])
  have declared := variableDeclaration_of_value name.has equals.has
    (@walkValue_of_walk p hole (i + 1) m (i + 3) limit (by omega) equals.has edits edits walked) semicolon.has
  have stepped := (step_of_binding has keyword'.has known noDot name.has free
    (p.walkerAt hole (i + 1)) limit edits).trans declared
  have later := spans.later (show i + 1 ≤ m by omega)
  rw [spans.walk_eq keyword'.has (.inl rfl) (by omega) stepped (by omega),
    later.walk_eq semicolon.has (.inl rfl) (by omega) (step_of_isIdle semicolon.has rfl ..) (Nat.lt_succ_self m)]
  exact behind semicolon.has reads' place (later.later (Nat.le_succ m))

end GoesThrough

/-- A walk goes through symbols without types and leaves no edit. -/
theorem walk_untyped (matched : matchBrackets p.tokens = .ok p.partners)
    (quiet : ∀ t ∈ p.tokens, ∀ h ∈ t.holes, hole h = .ok []) {inside : Bool} {before : Symbol}
    {ss : List Symbol} (untyped : IsUntyped inside before ss) : p.GoesThrough hole inside before ss := by
  induction untyped with
  | nil => exact .nil
  | cons allowed stands _ ih =>
    exact .cons allowed (fun _ _ _ has reads => step_of_standsBehind has reads.1 stands quiet ..) ih
  | load known _ ih =>
    exact .cons (.inr (by decide)) (fun _ _ _ has reads => step_of_load has reads.1.has known reads.2.1.has ..) ih
  | bracket known inner _ ih ih' =>
    refine .opened matched ?_ inner.nested (fun _ _ _ _ _ _ opens _ _ _ => step_of_bracket known opens ..) ih ih'
    rcases known with rfl | rfl <;> decide
  | group group inner _ ih ih' =>
    refine .opened matched (by decide) inner.nested (fun _ _ _ _ _ has opens reads place spans => ?_) ih ih'
    rw [step_of_parenthesis opens]
    exact stepParenthesis_of_group matched group has spans reads place ..
  | less nested absent some ends _ ih => exact .less matched nested absent some ends ih
  | @arrow inside before g rest untyped _ ih =>
    refine @GoesThrough.signed p hole inside before g untyped [] nofun "=>" rest
      (fun i j limit edits _ reads place next => ?_) ih
    have stepped := @step_arrowSignature p hole matched g untyped.proper untyped.isOrdinary (i + 1) j
      reads.1 reads.2 (by rw [← place]; simp only [List.nil_append, List.length_cons]; omega) limit edits next
    rwa [erased_of_bare untyped.bare] at stepped
  | @method inside m g rest other untyped _ ih =>
    refine @GoesThrough.signed p hole inside (word m) g untyped [] nofun openBrace rest
      (fun i j limit edits has reads place next => ?_) ih
    have stepped := @step_methodSignature p hole matched g untyped.proper untyped.isOrdinary (i + 1) j
      reads.1 reads.2 (by rw [← place]; simp only [List.nil_append, List.length_cons]; omega) limit edits next
      m (Nat.succ_pos i) has other
    rwa [erased_of_bare untyped.bare] at stepped
  | @function inside before name g rest noDot untyped _ ih =>
    refine @GoesThrough.signed p hole inside before g untyped (word "function" :: name.toList.map word) ?_
      openBrace rest (fun i j limit edits has reads place next => ?_) ih
    · simp [word, mark]
    · exact step_of_function matched untyped has noDot reads place next.has ..
  | binds known free noDot _ _ ih ih' => exact .binds known free noDot ih ih'

end Erase.Program

end ModuleLinker
