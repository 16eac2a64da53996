import ModuleLinker.Source.Scan
import ModuleLinker.Source.Brackets
import ModuleLinker.Source.Imports

/-!
# Programs

A source text together with its tokens and the partners of its brackets, and the questions about
single tokens that decide what is type syntax. Tokens are named by their position; a position past
the last token has no class and no text, and counts as the start of a line.
-/

set_option autoImplicit false

namespace ModuleLinker.Erase

/-- A source text, taken apart. -/
structure Program where
  /-- The text. -/
  source : List Char
  /-- Its tokens. -/
  tokens : Array Token
  /-- The partners of its brackets. -/
  partners : Partners

namespace Program

variable (p : Program)

/-- The program of a source text. -/
def ofSource (source : List Char) : Except SourceError Program := do
  let tokens ← scan source
  let partners ← matchBrackets tokens
  .ok { source, tokens, partners }

/-- The class of a token. -/
def kind? (i : Nat) : Option TokenKind := p.tokens[i]?.map (·.kind)

/-- The text of a token. -/
def text (i : Nat) : String := (p.tokens[i]?.map (·.text)).getD ""

/-- Whether there is a token with some property. -/
def is (i : Nat) (property : Token → Bool) : Bool := p.tokens[i]?.any property

/-- Whether a token is the punctuator with this text. -/
def isPunct (i : Nat) (text : String) : Bool := p.is i (·.isPunct text)

/-- Whether a token is a name or a keyword. -/
def isName (i : Nat) : Bool := p.is i (·.kind == .ident)

/-- Whether a token is the name or keyword with this text. -/
def isWord (i : Nat) (text : String) : Bool := p.is i (·.isWord text)

/-- Whether a token is one of these words. -/
def isOneOf (i : Nat) (words : List String) : Bool :=
  p.is i fun t => t.kind == .ident && words.contains t.text

/-- Whether a token starts a line. -/
def newlineBefore (i : Nat) : Bool := (p.tokens[i]?.map (·.newlineBefore)).getD true

/-- The offset of a token; the length of the text past the last one. -/
def offset (i : Nat) : Nat := (p.tokens[i]?.map (·.start)).getD p.source.length

/-- The characters between two offsets. -/
def slice (start stop : Nat) : String :=
  String.ofList ((p.source.drop start).take (stop - start))

/-- The partner of the opening bracket at a position; where there is none, the next position. -/
def close (i : Nat) : Nat :=
  match p.partners[i]? with
  | some (some j) => max j (i + 1)
  | _ => i + 1

/-- A bracket closes after it opens. -/
theorem lt_close (i : Nat) : i < p.close i := by
  unfold close
  split <;> omega

/-- A token with a property exists. -/
theorem lt_size_of_is {i : Nat} {property : Token → Bool} (h : p.is i property = true) :
    i < p.tokens.size := by
  unfold is at h
  rcases Nat.lt_or_ge i p.tokens.size with lt | ge
  · exact lt
  · simp [Array.getElem?_eq_none ge] at h

/-- A token with a class exists. -/
theorem lt_size_of_kind? {i : Nat} {k : TokenKind} (h : p.kind? i = some k) :
    i < p.tokens.size := by
  unfold kind? at h
  rcases Nat.lt_or_ge i p.tokens.size with lt | ge
  · exact lt
  · simp [Array.getElem?_eq_none ge] at h

/-- The words that cannot end an expression. -/
def nonValueWords : List String := [
  "return", "typeof", "instanceof", "in", "of", "new", "delete", "void", "throw", "case",
  "do", "else", "yield", "await", "extends", "export", "import", "default", "let", "const",
  "var", "if", "while", "for", "switch", "with", "catch", "function", "class", "as",
  "satisfies", "keyof", "is"]

/-- Whether a token can be the last one of an expression. -/
def endsValue (i : Nat) : Bool :=
  p.is i fun t =>
    match t.kind with
    | .ident => !nonValueWords.contains t.text
    | .punct => t.text == ")" || t.text == "]"
    | _ => true

/-- Whether a token is an operator that still waits for its right operand. -/
def expectsOperand (i : Nat) : Bool :=
  p.is i fun t =>
    t.kind == .punct && !(t.isCloser || t.text == "++" || t.text == "--" || t.text == ";")

/-- Whether a statement starts at a token, as far as the token before it tells. -/
def startsStatement (i : Nat) : Bool :=
  i == 0 || p.isPunct (i - 1) ";" || p.isPunct (i - 1) openBrace || p.isPunct (i - 1) closeBrace ||
    (p.newlineBefore i && !p.expectsOperand (i - 1))

/-- The words that stand before a parenthesized condition or operand, not before parameters. -/
def controlWords : List String := [
  "if", "while", "for", "switch", "catch", "with", "return", "typeof", "function", "await",
  "yield", "new", "delete", "void", "in", "of", "instanceof", "case", "do", "else", "throw"]

/-- Whether a token can be the name of a method, or end one. -/
def endsMethodName (i : Nat) : Bool :=
  p.is i fun t =>
    match t.kind with
    | .ident => !controlWords.contains t.text
    | .string | .number | .privateName => true
    | .punct => t.text == "]" || t.text == ">"
    | _ => false

/-- Whether a property access leads to a token, so that it is no keyword. -/
def afterDot (i : Nat) : Bool := i != 0 && p.is (i - 1) (·.isDot)

/-- Whether something that can be bound starts at a token: a name or a pattern. -/
def bindsAt (i : Nat) : Bool := p.isName i || p.isPunct i openBrace || p.isPunct i "["

end Program

end ModuleLinker.Erase
