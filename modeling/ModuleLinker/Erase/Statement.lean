import ModuleLinker.Erase.Class
import ModuleLinker.Erase.Enumeration

/-!
# Statements

The statements that are types as a whole or in part: interfaces, type aliases, ambient declarations,
type-only imports and exports, functions and variables. Where a word turns out not to start such a
statement, the walk goes on at a position that is given with it.
-/

set_option autoImplicit false

namespace ModuleLinker.Erase.Program

variable (p : Program)

/-- The end of an ambient declaration that starts at `first`, looked for from position `i` on: after
a semicolon, before the brace that closes the enclosing block, after a body that ends its line, or
where a line starts that does not continue the declaration. -/
def declarationEnd (first i : Nat) : Nat :=
  match h : p.tokens[i]? with
  | none => i
  | some t =>
    have inside : i < p.tokens.size := (Array.getElem?_eq_some_iff.1 h).1
    have := p.lt_close i
    if t.isPunct ";" then i + 1
    else if t.isPunct closeBrace then i
    else if t.isPunct openBrace then
      let next := p.close i + 1
      if p.isPunct next ";" then next + 1
      else if p.newlineBefore next then next
      else declarationEnd first next
    else if t.isPunct "(" || t.isPunct "[" then declarationEnd first (p.close i + 1)
    else if first < i && t.newlineBefore && !p.expectsOperand (i - 1) && !t.isPunct "|" &&
        !t.isPunct "&" then i
    else declarationEnd first (i + 1)
termination_by p.tokens.size - i

/-- Overwrites a type alias whose keyword stands at `i` and whose statement starts at `start`. -/
def blankAlias (i start : Nat) (s : State) : Walk := do
  let equals ← if p.isPunct (i + 2) "<" then p.expectAngle (i + 2) else .ok (i + 2)
  if p.isPunct equals "=" then
    let ended := p.skipPunct (s.goto (← p.expectType (equals + 1))) ";"
    .ok (p.blank ended start ended.pos)
  else p.fail equals (.punctuatorExpected "=")

/-- Erases the statement whose first word stands at `i` where it only exists for the types; `start`
is the position of the statement itself, and the walk goes on at `resume` where it is none. -/
def typeStatement (w : Walker) (i start resume : Nat) (s : State) : Walk := do
  let named := p.isName (i + 1) && !p.newlineBefore (i + 1)
  let word := p.text i
  if word == "interface" && named then
    let close := p.close (← p.bodyAhead i (i + 2))
    .ok ((p.blank s start (close + 1)).goto (close + 1))
  else if word == "type" && named && (p.isPunct (i + 2) "=" || p.isPunct (i + 2) "<") then
    p.blankAlias i start s
  else if word == "declare" && named then
    let stop := p.declarationEnd (i + 1) (i + 1)
    .ok ((p.blank s start stop).goto stop)
  else if word == "abstract" && p.isWord (i + 1) "class" && !p.newlineBefore (i + 1) then
    p.classDeclaration w (i + 1) resume (p.blank s i (i + 1))
  else if word == "enum" && p.isName (i + 1) && p.isPunct (i + 2) openBrace then
    p.enumeration i s
  else if (word == "namespace" || word == "module") &&
      (named || p.kind? (i + 1) == some .string) &&
      (p.isPunct (i + 2) openBrace || p.isPunct (i + 2) ".") then
    p.fail i .namespaceBlock
  else .ok (s.goto resume)

/-- The position after the reference of an import or export and after its attributes, where `k` is
the position of the reference. -/
def referenceEnd (k : Nat) : Nat :=
  if (p.isWord (k + 1) "with" || p.isWord (k + 1) "assert") && p.isPunct (k + 2) openBrace &&
      !p.newlineBefore (k + 1) then
    p.close (k + 2) + 1
  else k + 1

/-- The position after an import or export statement, looked for from position `k` on: after its
reference, attributes and semicolon. -/
def moduleStatementEnd (k : Nat) : Nat :=
  let afterSemicolon (j : Nat) : Nat := if p.isPunct j ";" then j + 1 else j
  match h : p.tokens[k]? with
  | none => k
  | some t =>
    have inside : k < p.tokens.size := (Array.getElem?_eq_some_iff.1 h).1
    have := p.lt_close k
    if t.kind == .string then afterSemicolon (p.referenceEnd k)
    else if t.isPunct ";" then k + 1
    else if t.isPunct openBrace then
      let next := p.close k + 1
      if p.newlineBefore next && !p.isWord next "from" then next
      else moduleStatementEnd next
    else moduleStatementEnd (k + 1)
termination_by p.tokens.size - k

/-- The position of the comma that ends the element at a position of a brace list, or of its end. -/
def elementEnd (limit k : Nat) : Nat :=
  if k < limit then if p.isPunct k "," then k else elementEnd limit (k + 1) else k
termination_by limit - k

/-- The end of an element is not before it. -/
theorem le_elementEnd (limit k : Nat) : k ≤ p.elementEnd limit k := by
  fun_induction elementEnd p limit k with
  | case1 => exact Nat.le_refl _
  | case2 _ _ _ ih => omega
  | case3 => exact Nat.le_refl _

/-- Overwrites the elements `type X` of a brace list up to its end, each with the comma after it.
The element `type`, alone or renamed, is a value. -/
def blankTypeElements (limit k : Nat) (s : State) : State :=
  if k < limit then
    let stop := p.elementEnd limit k
    have := p.le_elementEnd limit k
    let length := stop - k
    let isType := p.isWord k "type" && 2 ≤ length && !(length == 3 && p.isWord (k + 1) "as")
    let next := if isType then p.blank s k (if stop < limit then stop + 1 else stop) else s
    blankTypeElements limit (stop + 1) next
  else s
termination_by limit - k

/-- Overwrites the type-only elements of the brace list that opens at a position. -/
def blankTypeList (i : Nat) (s : State) : State :=
  p.blankTypeElements (p.close i) (i + 1) s

/-- The position of the brace list of an import clause, where it has one. -/
def clauseList? (k : Nat) : Option Nat :=
  match h : p.tokens[k]? with
  | none => none
  | some t =>
    have : k < p.tokens.size := (Array.getElem?_eq_some_iff.1 h).1
    if t.kind == .string || t.isPunct ";" then none
    else if t.isPunct openBrace then some k
    else clauseList? (k + 1)
termination_by p.tokens.size - k

/-- Erases the types of the import whose keyword stands at `i`; a dynamic import and `import.meta`
are left alone. -/
def importDeclaration (i : Nat) (s : State) : Walk :=
  let next := i + 1
  if !(p.isPunct next openBrace || p.isPunct next "*" || p.isName next ||
      p.kind? next == some .string) then .ok (s.goto next)
  else if p.isWord next "type" &&
      !(p.isPunct (i + 2) "," || p.isWord (i + 2) "from" || p.isPunct (i + 2) "=") then
    let stop := p.moduleStatementEnd next
    .ok ((p.blank s i stop).goto stop)
  else if p.isName next && p.isPunct (i + 2) "=" then p.fail i .importAssignment
  else
    let cleaned := match p.clauseList? next with
      | some k => p.blankTypeList k s
      | none => s
    .ok (cleaned.goto (p.moduleStatementEnd next))

/-- Erases the types of the function whose keyword stands at `i` and whose statement starts at
`start`; one without a body is an overload and goes as a whole. -/
def functionDeclaration (w : Walker) (i start resume : Nat) (s : State) : Walk := do
  let starred := p.skipPunct (s.goto (i + 1)) "*"
  let named := if p.isName starred.pos then starred.skip 1 else starred
  let generic ← p.blankTypeParameters named
  if p.isPunct generic.pos "(" then
    let typed ← p.signature w generic
    if p.isPunct typed.pos openBrace then .ok typed
    else
      let ended := p.skipPunct typed ";"
      .ok (p.blank ended start ended.pos)
  else .ok (generic.goto resume)

/-- Erases the types of the export whose keyword stands at `i`. -/
def exportDeclaration (w : Walker) (i : Nat) (s : State) : Walk :=
  let n := i + 1
  if p.isPunct n "=" then p.fail i .exportAssignment
  else if p.isWord n "import" && p.isName (n + 1) && p.isPunct (n + 2) "=" then
    p.fail i .importAssignment
  else if p.isWord n "type" && (p.isPunct (n + 1) openBrace || p.isPunct (n + 1) "*") then
    let stop := p.moduleStatementEnd n
    .ok ((p.blank s i stop).goto stop)
  else if p.isPunct n openBrace then
    .ok ((p.blankTypeList n s).goto (p.moduleStatementEnd n))
  else if p.isPunct n "*" then .ok (s.goto (p.moduleStatementEnd n))
  else if p.isWord n "default" then
    let d := n + 1
    if p.isWord d "interface" || p.isWord d "abstract" then p.typeStatement w d i d s
    else if p.isWord d "function" then p.functionDeclaration w d i n s
    else if p.isWord d "async" && p.isWord (d + 1) "function" then
      p.functionDeclaration w (d + 1) i n s
    else .ok (s.goto d)
  else if p.isWord n "function" then p.functionDeclaration w n i n s
  else if p.isWord n "async" && p.isWord (n + 1) "function" then
    p.functionDeclaration w (n + 1) i n s
  else if p.isWord n "const" && p.isWord (n + 1) "enum" then p.enumeration n s
  else if p.isOneOf n
      ["interface", "type", "declare", "abstract", "enum", "namespace", "module"] then
    p.typeStatement w n i n s
  else .ok (s.goto n)

/-- Erases the types of one variable and its value. -/
def walkVariable (w : Walker) (limit : Nat) (s : State) : Walk := do
  let bound ← p.walkBinding w s
  let typed ← p.blankAnnotation (p.blankMarker bound "!")
  p.walkValue w limit [",", ";"] typed

/-- Erases the types of the variables from the state's position on. -/
def walkVariables (w : Walker) (limit : Nat) (s : State) : Walk :=
  if h : p.bindsAt s.pos then
    have inside : s.pos < p.tokens.size := by
      simp only [bindsAt, Bool.or_eq_true] at h
      rcases h with (h | h) | h <;> exact p.lt_size_of_is h
    match p.walkVariable w limit s with
    | .error e => .error e
    | .ok next =>
      if p.isPunct next.pos "," && p.bindsAt (next.pos + 1) then
        walkVariables w limit ((next.skip 1).past s.pos)
      else .ok next
  else .ok s
termination_by p.tokens.size - s.pos
decreasing_by
  simp only [State.past, State.goto]
  omega

/-- Erases the types of the variable declaration whose keyword stands at `i`; where nothing is bound
the keyword is an identifier. -/
def variableDeclaration (w : Walker) (i limit : Nat) (s : State) : Walk :=
  p.walkVariables w limit (s.goto (i + 1))

end ModuleLinker.Erase.Program
