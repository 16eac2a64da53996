import ModuleLinker.Source.Scan

/-!
# Static imports

The references of the import and export statements that name another module, outside all brackets
and in order. A word `import` or `export` after a dot is a property, and what follows it up to the
word `from` may only be names, commas, stars and one brace list after another; so a dynamic import
and `import.meta` are not static imports.
-/

set_option autoImplicit false

namespace ModuleLinker

/-- The text between the quotes of a string token. -/
def unquote (literal : String) : String :=
  String.ofList (literal.toList.drop 1).dropLast

/-- The reference at the start of a token list. -/
def reference? : List Token → Option String
  | t :: _ => if t.kind == .string then some (unquote t.text) else none
  | [] => none

/-- The tokens after the next closing brace. -/
def afterBrace : List Token → List Token
  | [] => []
  | t :: ts => if t.isPunct closeBrace then ts else afterBrace ts

/-- Skipping a brace list leaves fewer tokens. -/
theorem length_afterBrace_le (ts : List Token) : (afterBrace ts).length ≤ ts.length := by
  induction ts with
  | nil => simp [afterBrace]
  | cons t ts ih =>
    rw [afterBrace]
    split
    · simp
    · simp only [List.length_cons]
      omega

/-- The reference after the word `from` that ends the clause at the start of a token list. -/
def clauseReference? (ts : List Token) : Option String :=
  match ts with
  | [] => none
  | t :: ts =>
    if t.isWord "from" then reference? ts
    else if t.kind == .ident || t.isPunct "," || t.isPunct "*" then clauseReference? ts
    else if t.isPunct openBrace then clauseReference? (afterBrace ts)
    else none
termination_by ts.length
decreasing_by
  · simp
  · have := length_afterBrace_le ts
    simp only [List.length_cons]
    omega

/-- The reference of the statement that starts with the word `import` or `export`, before the
tokens `ts`. -/
def statementReference? (word : Token) (ts : List Token) : Option String :=
  match if word.text == "import" then reference? ts else none with
  | some r => some r
  | none => clauseReference? ts

/-- Whether a token makes the word after it the name of a property. -/
def Token.isDot (t : Token) : Bool := t.isPunct "." || t.isPunct "?."

/-- The static imports of a token list that lies inside `depth` brackets, after a dot or not. -/
def tokenImports (depth : Nat) (afterDot : Bool) : List Token → List String
  | [] => []
  | t :: ts =>
    if t.isOpener then tokenImports (depth + 1) false ts
    else if t.isCloser then tokenImports (depth - 1) false ts
    else if depth == 0 && !afterDot && (t.isWord "import" || t.isWord "export") then
      match statementReference? t ts with
      | some r => r :: tokenImports depth t.isDot ts
      | none => tokenImports depth t.isDot ts
    else tokenImports depth t.isDot ts

/-- The static imports of a source text. -/
def staticImports (source : String) : Except SourceError (List String) := do
  let tokens ← scan source.toList
  .ok (tokenImports 0 false tokens.toList)

end ModuleLinker
