import Mathlib
import ModuleLinker.Proofs.Erase.Stretches
import ModuleLinker.Proofs.Erase.TypeGrammar
import ModuleLinker.Proofs.Source.Ahead

/-!
# Scripts without types

Scripts of constants and conditions, whose expressions are names, numbers, strings, parentheses, members,
calls, arrays, sums, negations, conditionals and arrow functions, written with a space between any two
tokens. Here are their symbols and their text, the parentheses that precedence asks for
(`Expr.IsProper`), and the two places in which plain code reads like a type or an assertion
(`Expr.isClear`, `Statement.isClear`). Scanning the text gives the symbols back (`scan_inLine`).
-/

set_option autoImplicit false

namespace ModuleLinker

open Erase Lexeme Text ModuleLinker.Symbol

namespace Script

/-! ## Expressions -/

/-- An expression without types; parentheses are part of it. -/
inductive Expr where
  /-- The name `x`. -/
  | name (x : String)
  /-- A number. -/
  | number (text : String)
  /-- A string with its quotes. -/
  | string (text : String)
  /-- The expression `( e )`. -/
  | paren (e : Expr)
  /-- The member `e . x`. -/
  | member (e : Expr) (x : String)
  /-- The call `f ( a , b )`. -/
  | call (f : Expr) (arguments : List Expr)
  /-- The array `[ a , b ]`. -/
  | array (elements : List Expr)
  /-- The sum `l + r`. -/
  | sum (l r : Expr)
  /-- The negation `! e`. -/
  | not (e : Expr)
  /-- The conditional `test ? yes : no`. -/
  | conditional (test yes no : Expr)
  /-- The arrow function `x => body`. -/
  | arrow (x : String) (body : Expr)
  /-- The arrow function `( x , y ) => body`. -/
  | arrowOf (parameters : List String) (body : Expr)

/-- The symbols of a parameter list, without its parentheses. -/
def parameterSymbols (parameters : List String) : List Symbol :=
  separated (parameters.map fun x => [word x])

namespace Expr

mutual

/-- The symbols of an expression. -/
def symbols : Expr → List Symbol
  | name x => [word x]
  | number text => [⟨.number, text⟩]
  | string text => [⟨.string, text⟩]
  | paren e => mark "(" :: (e.symbols ++ [mark ")"])
  | member e x => e.symbols ++ [mark ".", word x]
  | call f arguments => f.symbols ++ mark "(" :: (separated (symbolsOfAll arguments) ++ [mark ")"])
  | array elements => mark "[" :: (separated (symbolsOfAll elements) ++ [mark "]"])
  | sum l r => l.symbols ++ mark "+" :: r.symbols
  | not e => mark "!" :: e.symbols
  | conditional test yes no =>
    test.symbols ++ mark "?" :: (yes.symbols ++ mark ":" :: no.symbols)
  | arrow x body => word x :: mark "=>" :: body.symbols
  | arrowOf parameters body =>
    mark "(" :: (parameterSymbols parameters ++ mark ")" :: mark "=>" :: body.symbols)

/-- The symbols of each of some expressions. -/
def symbolsOfAll : List Expr → List (List Symbol)
  | [] => []
  | e :: es => e.symbols :: symbolsOfAll es

end

mutual

/-- An expression and all expressions in it. -/
def parts : Expr → List Expr
  | paren e => paren e :: e.parts
  | member e x => member e x :: e.parts
  | call f arguments => call f arguments :: (f.parts ++ partsOfAll arguments)
  | array elements => array elements :: partsOfAll elements
  | sum l r => sum l r :: (l.parts ++ r.parts)
  | not e => not e :: e.parts
  | conditional test yes no => conditional test yes no :: (test.parts ++ (yes.parts ++ no.parts))
  | arrow x body => arrow x body :: body.parts
  | arrowOf parameters body => arrowOf parameters body :: body.parts
  | e => [e]

/-- Some expressions and all expressions in them. -/
def partsOfAll : List Expr → List Expr
  | [] => []
  | e :: es => e.parts ++ partsOfAll es

end

theorem symbolsOfAll_eq_map (es : List Expr) : symbolsOfAll es = es.map symbols := by
  induction es with
  | nil => rw [symbolsOfAll, List.map_nil]
  | cons e es ih => rw [symbolsOfAll, ih, List.map_cons]

theorem partsOfAll_eq_flatMap (es : List Expr) : partsOfAll es = es.flatMap parts := by
  induction es with
  | nil => rw [partsOfAll, List.flatMap_nil]
  | cons e es ih => rw [partsOfAll, ih, List.flatMap_cons]

/-- The expressions that an expression is put together from. -/
def children : Expr → List Expr
  | paren e | member e _ | not e | arrow _ e | arrowOf _ e => [e]
  | call f arguments => f :: arguments
  | array elements => elements
  | sum l r => [l, r]
  | conditional test yes no => [test, yes, no]
  | _ => []

theorem parts_eq (e : Expr) : e.parts = e :: e.children.flatMap parts := by
  cases e <;> simp [parts, children, partsOfAll_eq_flatMap]

/-- What holds of an expression if it holds of the expressions in it, holds of all expressions. -/
@[induction_eliminator]
theorem induction {motive : Expr → Prop} (name : ∀ x, motive (name x))
    (number : ∀ text, motive (number text)) (string : ∀ text, motive (string text))
    (paren : ∀ e, motive e → motive (paren e)) (member : ∀ e x, motive e → motive (member e x))
    (call : ∀ f arguments, motive f → (∀ e ∈ arguments, motive e) → motive (call f arguments))
    (array : ∀ elements, (∀ e ∈ elements, motive e) → motive (array elements))
    (sum : ∀ l r, motive l → motive r → motive (sum l r)) (not : ∀ e, motive e → motive (not e))
    (conditional : ∀ test yes no, motive test → motive yes → motive no →
      motive (conditional test yes no))
    (arrow : ∀ x body, motive body → motive (arrow x body))
    (arrowOf : ∀ parameters body, motive body → motive (arrowOf parameters body)) (e : Expr) : motive e :=
  @Expr.rec motive (fun es => ∀ e ∈ es, motive e) name number string paren member call array sum not
    conditional arrow arrowOf (fun _ mem => by cases mem)
    (fun _ _ head tail => List.forall_mem_cons.mpr ⟨head, tail⟩) e

/-! ## Expressions as they should be -/

/-- How tightly an expression holds together. -/
def rank : Expr → Nat
  | conditional .. | arrow .. | arrowOf .. => 0
  | sum .. => 1
  | not _ => 2
  | _ => 3

end Expr

/-- The words that are no names: they start a construct or belong to types. -/
def takenWords : List String :=
  ["import", "export", "function", "class", "const", "enum", "let", "var", "as", "satisfies", "catch",
    "interface", "type", "declare", "namespace", "module"] ++ typeKeywords

/-- Whether a word can be the name of a value. -/
def isFreeName (x : String) : Bool := isName x.toList && !takenWords.contains x

theorem not_mem_takenWords {x : String} (free : isFreeName x = true) : x ∉ takenWords := by
  rw [isFreeName, Bool.and_eq_true, Bool.not_eq_true'] at free
  simpa using free.2

/-- Whether characters are read as one number. -/
def isNumeral : List Char → Bool
  | [] => false
  | c :: cs => (c.isDigit || (c == '.' && cs.head?.any Char.isDigit)) &&
    numberLength (c = '0' && (cs.head? == some 'x' || cs.head? == some 'X')) c 0 cs == cs.length

example : ["0", "42", "0.5", ".5", "1e9", "12.5E-3", "0x2a"].all (isNumeral ·.toList) = true := by decide

namespace Expr

/-- Whether an expression is spelled as it should be and has the parentheses that precedence asks for,
apart from what is further inside. -/
def isFit : Expr → Bool
  | name x => isFreeName x
  | number text => isNumeral text.toList
  | string text => isQuoted text.toList
  | member e x => isName x.toList && 3 ≤ e.rank
  | call f _ => 3 ≤ f.rank
  | sum l r => 1 ≤ l.rank && 2 ≤ r.rank
  | not e => 2 ≤ e.rank
  | conditional test _ _ => 1 ≤ test.rank
  | arrow x _ => isFreeName x
  | arrowOf parameters _ => parameters.all isFreeName
  | _ => true

/-- Whether an expression is as it should be, with all that is in it. -/
def IsProper (e : Expr) : Prop := ∀ part ∈ e.parts, part.isFit = true

/-- Whether an expression ends with a parenthesis. -/
def closes (e : Expr) : Bool := e.symbols.getLast? == some (mark ")")

/-- Whether an expression starts with a negation. -/
def negates (e : Expr) : Bool := e.symbols.head? == some (mark "!")

/-- Whether an expression starts with symbols that read as a type in front of an arrow. -/
def startsAsType : Expr → Bool
  | arrow .. => true
  | arrowOf _ body => body.startsAsType
  | _ => false

/-- Whether an expression is not the conditional that reads like an arrow function with types: what
stands in front of its colon ends with a parenthesis, and what stands behind it starts with a type and
an arrow. -/
def isClear : Expr → Bool
  | conditional _ yes no => !(yes.closes && no.startsAsType)
  | _ => true

/-- Whether nothing in an expression reads like an arrow function with types. -/
def IsClear (e : Expr) : Prop := ∀ part ∈ e.parts, part.isClear = true

instance (e : Expr) : Decidable e.IsProper :=
  inferInstanceAs (Decidable (∀ part ∈ e.parts, part.isFit = true))

instance (e : Expr) : Decidable e.IsClear :=
  inferInstanceAs (Decidable (∀ part ∈ e.parts, part.isClear = true))

theorem IsProper.fit {e : Expr} (proper : e.IsProper) : e.isFit = true :=
  proper e (by rw [parts_eq]; exact List.mem_cons_self)

theorem IsProper.child {e c : Expr} (proper : e.IsProper) (child : c ∈ e.children) : c.IsProper := by
  intro part mem
  refine proper part ?_
  rw [parts_eq]
  exact List.mem_cons_of_mem _ (List.mem_flatMap_of_mem child mem)

theorem IsClear.clear {e : Expr} (clear : e.IsClear) : e.isClear = true :=
  clear e (by rw [parts_eq]; exact List.mem_cons_self)

theorem IsClear.child {e c : Expr} (clear : e.IsClear) (child : c ∈ e.children) : c.IsClear := by
  intro part mem
  refine clear part ?_
  rw [parts_eq]
  exact List.mem_cons_of_mem _ (List.mem_flatMap_of_mem child mem)

theorem startsAsType_of_rank {e : Expr} (rank : 1 ≤ e.rank) : e.startsAsType = false := by
  cases e with
  | arrow | arrowOf => exact absurd rank (Nat.not_succ_le_zero 0)
  | _ => rfl

theorem nested_parameterSymbols (parameters : List String) : Nested (parameterSymbols parameters) :=
  nested_separated (List.forall_mem_map.mpr fun _ _ => .plain rfl)

/-- Every bracket of an expression has its partner in it. -/
theorem nested (e : Expr) : Nested e.symbols := by
  induction e with
  | name | number | string => exact .plain rfl
  | paren e ih => exact .bracket (by decide) ih
  | member e x ih => exact ih.append (.cons rfl (.plain rfl))
  | call f arguments ih ih' =>
    rw [symbols, symbolsOfAll_eq_map]
    exact ih.append (.bracket (by decide) (nested_separated (List.forall_mem_map.mpr ih')))
  | array elements ih =>
    rw [symbols, symbolsOfAll_eq_map]
    exact .bracket (by decide) (nested_separated (List.forall_mem_map.mpr ih))
  | sum l r ih ih' => exact ih.append (.cons rfl ih')
  | not e ih => exact .cons rfl ih
  | conditional test yes no ih ih' ih'' => exact ih.append (.cons rfl (ih'.append (.cons rfl ih'')))
  | arrow x body ih => exact .cons rfl (.cons rfl ih)
  | arrowOf parameters body ih => exact IsTypeAt.nested_function (nested_parameterSymbols parameters) ih

theorem nested_symbolsOfAll (es : List Expr) : Nested (separated (symbolsOfAll es)) := by
  rw [symbolsOfAll_eq_map]
  exact nested_separated (List.forall_mem_map.mpr fun e _ => e.nested)

theorem symbols_ne_nil (e : Expr) : e.symbols ≠ [] := by
  cases e <;> simp [symbols]

end Expr

/-! ## Statements -/

/-- A statement without types. -/
inductive Statement where
  /-- The constant `const x = value ;`. -/
  | constant (x : String) (value : Expr)
  /-- The condition `if ( test ) body ;`. -/
  | condition (test body : Expr)

namespace Statement

/-- The symbols of a statement. -/
def symbols : Statement → List Symbol
  | constant x value => word "const" :: word x :: mark "=" :: (value.symbols ++ [mark ";"])
  | condition test body =>
    word "if" :: mark "(" :: (test.symbols ++ mark ")" :: (body.symbols ++ [mark ";"]))

/-- The expressions of a statement. -/
def expressions : Statement → List Expr
  | constant _ value => [value]
  | condition test body => [test, body]

/-- The names that a statement binds. -/
def names : Statement → List String
  | constant x _ => [x]
  | condition .. => []

/-- Whether a statement is as it should be. -/
structure IsProper (statement : Statement) : Prop where
  /-- What it binds are names. -/
  names : ∀ x ∈ statement.names, isFreeName x = true
  /-- Its expressions are as they should be. -/
  expressions : ∀ e ∈ statement.expressions, e.IsProper

/-- Whether a statement is not the condition whose body starts with a negation, which reads like an
assertion behind the parenthesis. -/
def isClear : Statement → Bool
  | constant .. => true
  | condition _ body => !body.negates

/-- Whether nothing in a statement reads like types. -/
structure IsClear (statement : Statement) : Prop where
  /-- It does not read like an assertion. -/
  body : statement.isClear = true
  /-- Its expressions do not read like arrow functions with types. -/
  expressions : ∀ e ∈ statement.expressions, e.IsClear

instance : DecidablePred IsProper := fun _ =>
  decidable_of_iff (_ ∧ _) ⟨fun both => ⟨both.1, both.2⟩, fun proper => ⟨proper.names, proper.expressions⟩⟩

instance : DecidablePred IsClear := fun _ =>
  decidable_of_iff (_ ∧ _) ⟨fun both => ⟨both.1, both.2⟩, fun clear => ⟨clear.body, clear.expressions⟩⟩

theorem nested (statement : Statement) : Nested statement.symbols := by
  cases statement with
  | constant x value => exact .cons rfl (.cons rfl (.cons rfl (value.nested.append (.plain rfl))))
  | condition test body =>
    have parts := (@Nested.bracket "(" _ (by decide) test.nested).append
      (body.nested.append (.plain (s := mark ";") rfl))
    rw [List.cons_append, List.append_assoc] at parts
    exact .cons rfl parts

theorem getLast?_symbols (statement : Statement) : statement.symbols.getLast? = some (mark ";") := by
  cases statement <;> simp [symbols, List.getLast?_cons]

end Statement

end Script

/-! ## Symbols in a line -/

/-- The characters of symbols with a space between any two of them. -/
def inLine (ss : List Symbol) : List Char := [' '].intercalate (ss.map fun s => s.text.toList)

/-- Symbols with a space in front of each but the first. -/
def spaced : List Symbol → List Spaced
  | [] => []
  | s :: ss => ⟨[], s⟩ :: ss.map fun s => ⟨[' '], s⟩

theorem spell_spaced (ss : List Symbol) : spell (spaced ss) [] = inLine ss := by
  cases ss with
  | nil => rfl
  | cons s ss =>
    induction ss generalizing s with
    | nil => simp [spaced, spell, inLine]
    | cons s' ss ih =>
      have rest := ih s'
      simp only [spaced, spell, inLine, List.map_cons, List.nil_append] at rest ⊢
      rw [List.intercalate_cons_cons, ← rest]
      exact (List.append_assoc ..).symm

/-- Whether a symbol is read back as it is where nothing follows it. -/
def Symbol.StandsAlone (s : Symbol) : Prop :=
  ∃ c cs, s.text.toList = c :: cs ∧ isSolid c = true ∧
    ∀ allowed pos, extent allowed pos c cs = .ok ⟨s.kind, cs.length, []⟩

theorem Symbol.standsAlone_of_standsBefore {s : Symbol} (stands : s.standsBefore [] = true) :
    s.StandsAlone := by
  obtain ⟨c, cs, chars, solid⟩ := exists_cons_of_standsBefore stands
  refine ⟨c, cs, chars, solid, fun allowed pos => ?_⟩
  have cut := extent_append stands chars allowed pos
  rwa [List.append_nil] at cut

theorem Symbol.standsAlone_of_isNumeral {text : String} (numeral : Script.isNumeral text.toList = true) :
    Symbol.StandsAlone ⟨.number, text⟩ := by
  cases chars : text.toList with
  | nil =>
    rw [chars] at numeral
    cases numeral
  | cons c cs =>
    rw [chars] at numeral
    simp only [Script.isNumeral, Bool.and_eq_true, beq_iff_eq] at numeral
    obtain ⟨starts, whole⟩ := numeral
    have number : (c.isDigit || (decide (c = '.') && cs.head?.any Char.isDigit)) = true := starts
    have other : isSolid c = true ∧ c ≠ '"' ∧ c ≠ '\x27' ∧ c ≠ templateMark := by
      rw [Bool.or_eq_true, Bool.and_eq_true, decide_eq_true_eq] at number
      rcases number with digit | ⟨rfl, -⟩
      · have plain {d : Char} (noDigit : d.isDigit = false) : c ≠ d := by
          rintro rfl
          rw [noDigit] at digit
          cases digit
        exact ⟨isSolid_of_isDigit digit, plain (by decide), plain (by decide), plain (by decide)⟩
      · decide
    refine ⟨c, cs, chars, other.1, fun allowed pos => ?_⟩
    unfold extent
    dsimp only
    rw [if_neg (by simp [other.2]), if_neg other.2.2.2, if_pos number, whole]

/-- What stands behind a symbol in a line starts with a space, or nothing does. -/
theorem head_spell (ss : List Symbol) : spell (ss.map fun s => ⟨[' '], s⟩) [] = [] ∨
    ∃ more, spell (ss.map fun s => ⟨[' '], s⟩) [] = ' ' :: more := by
  cases ss with
  | nil => exact .inl rfl
  | cons s ss => exact .inr ⟨_, rfl⟩

theorem Symbol.StandsAlone.scanFrom_eq {s : Symbol} (alone : s.StandsAlone) {blanks rest : List Char}
    (blank : isGap blanks = true) (ends : rest = [] ∨ ∃ more, rest = ' ' :: more) (done : Array Token)
    (pos : Nat) : scanFrom done pos (blanks ++ (s.text.toList ++ rest)) =
      scanFrom (done.push ⟨s.kind, pos + blanks.length, s.text, blanks.any isLineEnd, []⟩)
        (pos + blanks.length + s.text.length) rest := by
  obtain ⟨c, cs, chars, solid, cut⟩ := alone
  refine scanFrom_piece blank chars solid ?_
  rcases ends with rfl | ⟨more, rfl⟩
  · rw [List.append_nil]
    exact cut ..
  · exact extent_ahead (.inl rfl) (cut ..) more

theorem scanFrom_spaced {ss : List Symbol} (alone : ∀ s ∈ ss, s.StandsAlone) (done : Array Token)
    (pos : Nat) : scanFrom done pos (spell (ss.map fun s => ⟨[' '], s⟩) []) =
      .ok (done ++ (tokensOf pos (ss.map fun s => ⟨[' '], s⟩)).toArray) := by
  induction ss generalizing done pos with
  | nil => simpa [spell, tokensOf] using scanFrom_of_isGap rfl done pos
  | cons s ss ih =>
    rw [List.forall_mem_cons] at alone
    rw [List.map_cons, spell, alone.1.scanFrom_eq rfl (head_spell ss), ih alone.2]
    simp [tokensOf]

/-- Scanning symbols in a line gives them back. -/
theorem scan_inLine {ss : List Symbol} (alone : ∀ s ∈ ss, s.StandsAlone) :
    scan (inLine ss) = .ok (tokensOf 0 (spaced ss)).toArray := by
  rw [← spell_spaced]
  cases ss with
  | nil => exact scanFrom_of_isGap rfl #[] 0
  | cons s ss =>
    rw [List.forall_mem_cons] at alone
    have plain : interpreterLineLength (spell (spaced (s :: ss)) []) = 0 := by
      obtain ⟨c, cs, chars, solid, -⟩ := alone.1
      have noHash : c ≠ '#' := by
        rintro rfl
        cases solid
      rw [spaced, spell, chars]
      unfold interpreterLineLength
      split
      case h_1 same => exact absurd (List.cons.inj same).1 noHash
      case h_2 => rfl
    rw [scan, plain, List.drop_zero, spaced, spell, alone.1.scanFrom_eq rfl (head_spell ss),
      scanFrom_spaced alone.2]
    simp [tokensOf]

/-- No line starts in a line. -/
theorem newlineBefore_spaced (ss : List Symbol) :
    ∀ t ∈ tokensOf 0 (spaced ss), t.newlineBefore = false := by
  refine newlineBefore_tokensOf fun piece mem => ?_
  cases ss with
  | nil => cases mem
  | cons s ss =>
    rcases List.mem_cons.mp mem with rfl | mem
    · rfl
    · obtain ⟨s', -, rfl⟩ := List.mem_map.mp mem
      rfl

theorem map_symbol_spaced (ss : List Symbol) : (spaced ss).map Spaced.symbol = ss := by
  cases ss with
  | nil => rfl
  | cons s ss =>
    have same : Spaced.symbol ∘ (fun s => ⟨[' '], s⟩) = id := rfl
    rw [spaced, List.map_cons, List.map_map, same, List.map_id]

namespace Script

/-! ## The text of a script -/

/-- The symbols of a script. -/
def symbolsOf (script : List Statement) : List Symbol := script.flatMap Statement.symbols

/-- The text of a script: its symbols with a space between any two of them. -/
def textOf (script : List Statement) : List Char := inLine (symbolsOf script)

/-- The punctuators of scripts. -/
def scriptMarks : List String := ["(", ")", "[", "]", ".", ",", "+", "!", "?", ":", "=>", "=", ";"]

/-- Whether a symbol is read back where it stands alone, and is no brace. -/
def Belongs (s : Symbol) : Prop := s.StandsAlone ∧ s ≠ mark openBrace

theorem belongs_mark {text : String} (known : text ∈ scriptMarks) : Belongs (mark text) := by
  have alone : (scriptMarks.all fun text => (mark text).standsBefore [] && text != openBrace) = true := by
    decide +kernel
  have own := List.all_eq_true.mp alone text known
  rw [Bool.and_eq_true, bne_iff_ne] at own
  exact ⟨standsAlone_of_standsBefore own.1, fun same => own.2 (congrArg Symbol.text same)⟩

theorem belongs_word {x : String} (name : isName x.toList = true) : Belongs (word x) :=
  ⟨standsAlone_of_standsBefore (by simp [standsBefore, word, name]), by simp [word, mark]⟩

theorem belongs_name {x : String} (free : isFreeName x = true) : Belongs (word x) := by
  rw [isFreeName, Bool.and_eq_true] at free
  exact belongs_word free.1

theorem belongs_separated {parts : List (List Symbol)} (belong : ∀ ss ∈ parts, ∀ s ∈ ss, Belongs s) :
    ∀ s ∈ separated parts, Belongs s := by
  fun_induction separated parts with
  | case1 => exact fun _ mem => by cases mem
  | case2 ss => exact belong ss List.mem_cons_self
  | case3 ss rest _ ih =>
    rw [List.forall_mem_cons] at belong
    exact List.forall_mem_append.mpr
      ⟨belong.1, List.forall_mem_cons.mpr ⟨belongs_mark (by decide), ih belong.2⟩⟩

namespace Expr

/-- The symbols of an expression are read back, and no braces are among them. -/
theorem belongs {e : Expr} (proper : e.IsProper) : ∀ s ∈ e.symbols, Belongs s := by
  have known {text : String} (among : scriptMarks.contains text = true) : Belongs (mark text) :=
    belongs_mark (List.contains_iff_mem.mp among)
  have none : ∀ s ∈ ([] : List Symbol), Belongs s := fun _ mem => by cases mem
  have all {arguments : List Expr} (ih : ∀ e ∈ arguments, e.IsProper → ∀ s ∈ e.symbols, Belongs s)
      (proper : ∀ e ∈ arguments, e.IsProper) : ∀ s ∈ separated (symbolsOfAll arguments), Belongs s := by
    rw [symbolsOfAll_eq_map]
    exact belongs_separated (List.forall_mem_map.mpr fun e mem => ih e mem (proper e mem))
  induction e with
  | name x => exact List.forall_mem_singleton.mpr (belongs_name proper.fit)
  | number text =>
    exact List.forall_mem_singleton.mpr ⟨standsAlone_of_isNumeral proper.fit, by simp [mark]⟩
  | string text =>
    exact List.forall_mem_singleton.mpr ⟨standsAlone_of_standsBefore proper.fit, by simp [mark]⟩
  | paren e ih =>
    simp only [symbols, List.forall_mem_cons, List.forall_mem_append]
    exact ⟨known rfl, ih (proper.child (by simp [children])), known rfl, none⟩
  | member e x ih =>
    have fit := proper.fit
    rw [isFit, Bool.and_eq_true] at fit
    simp only [symbols, List.forall_mem_cons, List.forall_mem_append]
    exact ⟨ih (proper.child (by simp [children])), known rfl, belongs_word fit.1, none⟩
  | call f arguments ih ih' =>
    simp only [symbols, List.forall_mem_cons, List.forall_mem_append]
    exact ⟨ih (proper.child (by simp [children])), known rfl,
      all ih' (fun e mem => proper.child (by simp [children, mem])), known rfl, none⟩
  | array elements ih =>
    simp only [symbols, List.forall_mem_cons, List.forall_mem_append]
    exact ⟨known rfl, all ih (fun e mem => proper.child (by simp [children, mem])), known rfl, none⟩
  | sum l r ih ih' =>
    simp only [symbols, List.forall_mem_cons, List.forall_mem_append]
    exact ⟨ih (proper.child (by simp [children])), known rfl, ih' (proper.child (by simp [children]))⟩
  | not e ih =>
    simp only [symbols, List.forall_mem_cons]
    exact ⟨known rfl, ih (proper.child (by simp [children]))⟩
  | conditional test yes no ih ih' ih'' =>
    simp only [symbols, List.forall_mem_cons, List.forall_mem_append]
    exact ⟨ih (proper.child (by simp [children])), known rfl, ih' (proper.child (by simp [children])),
      known rfl, ih'' (proper.child (by simp [children]))⟩
  | arrow x body ih =>
    simp only [symbols, List.forall_mem_cons]
    exact ⟨belongs_name proper.fit, known rfl, ih (proper.child (by simp [children]))⟩
  | arrowOf parameters body ih =>
    have free := List.all_eq_true.mp proper.fit
    have names : ∀ s ∈ parameterSymbols parameters, Belongs s := belongs_separated
      (List.forall_mem_map.mpr fun x mem => List.forall_mem_singleton.mpr (belongs_name (free x mem)))
    simp only [symbols, List.forall_mem_cons, List.forall_mem_append]
    exact ⟨known rfl, names, known rfl, known rfl, ih (proper.child (by simp [children]))⟩

end Expr

/-- The symbols of a script are read back, and no braces are among them. -/
theorem belongs_symbolsOf {script : List Statement} (proper : ∀ statement ∈ script, statement.IsProper) :
    ∀ s ∈ symbolsOf script, Belongs s := by
  rw [symbolsOf, List.forall_mem_flatMap]
  intro statement mem
  obtain ⟨names, expressions⟩ := proper statement mem
  have known {text : String} (among : scriptMarks.contains text = true) : Belongs (mark text) :=
    belongs_mark (List.contains_iff_mem.mp among)
  have none : ∀ s ∈ ([] : List Symbol), Belongs s := fun _ mem => by cases mem
  cases statement with
  | constant x value =>
    simp only [Statement.symbols, List.forall_mem_cons, List.forall_mem_append]
    exact ⟨belongs_word (by decide +kernel), belongs_name (names x List.mem_cons_self), known rfl,
      Expr.belongs (expressions value List.mem_cons_self), known rfl, none⟩
  | condition test body =>
    simp only [Statement.symbols, List.forall_mem_cons, List.forall_mem_append]
    exact ⟨belongs_word (by decide +kernel), known rfl, Expr.belongs (expressions test List.mem_cons_self),
      known rfl, Expr.belongs (expressions body (List.mem_cons_of_mem _ List.mem_cons_self)), known rfl,
      none⟩

theorem nested_symbolsOf (script : List Statement) : Nested (symbolsOf script) := by
  induction script with
  | nil => exact .nil
  | cons statement script ih => exact statement.nested.append ih

/-- The tokens of a script are its symbols. -/
theorem scan_textOf {script : List Statement} (proper : ∀ statement ∈ script, statement.IsProper) :
    scan (textOf script) = .ok (tokensOf 0 (spaced (symbolsOf script))).toArray :=
  scan_inLine fun s mem => (belongs_symbolsOf proper s mem).1

end Script

end ModuleLinker
