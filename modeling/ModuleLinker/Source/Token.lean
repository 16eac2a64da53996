/-!
# Tokens

What a source text consists of besides blanks and comments. A token knows its class, its text, where
it starts and whether a line ends before it; offsets count characters. A template literal is one
token, substitutions included, and keeps the text of each of its substitutions apart.
-/

set_option autoImplicit false

namespace ModuleLinker

/-- The class of a token. -/
inductive TokenKind where
  /-- A name or a keyword. -/
  | ident
  /-- A private name `#x`. -/
  | privateName
  /-- A quoted string. -/
  | string
  /-- A template literal, substitutions included. -/
  | template
  /-- A number. -/
  | number
  /-- A regular expression. -/
  | regex
  /-- A punctuator. -/
  | punct
  deriving DecidableEq, Repr

/-- The text between `${` and `}` of a substitution in a template literal. -/
structure Hole where
  /-- How many characters of the source come before it. -/
  start : Nat
  /-- The characters between the braces. -/
  text : List Char
  deriving DecidableEq, Repr

/-- A token of a source text. -/
structure Token where
  /-- The class of the token. -/
  kind : TokenKind
  /-- How many characters of the source come before it. -/
  start : Nat
  /-- The characters of the token. -/
  text : String
  /-- Whether a line ends between the token before and this one. -/
  newlineBefore : Bool
  /-- The substitutions of a template literal, in order. -/
  holes : List Hole
  deriving DecidableEq, Repr

/-- The punctuator that opens a block. -/
abbrev openBrace : String := "\x7b"

/-- The punctuator that closes a block. -/
abbrev closeBrace : String := "\x7d"

namespace Token

/-- The offset right after a token. -/
def stop (t : Token) : Nat := t.start + t.text.length

/-- Whether a token is the punctuator with this text. -/
def isPunct (t : Token) (text : String) : Bool := t.kind == .punct && t.text == text

/-- Whether a token is the name or keyword with this text. -/
def isWord (t : Token) (text : String) : Bool := t.kind == .ident && t.text == text

/-- Whether a token opens a bracket. -/
def isOpener (t : Token) : Bool :=
  t.kind == .punct && (t.text == "(" || t.text == "[" || t.text == openBrace)

/-- Whether a token closes a bracket. -/
def isCloser (t : Token) : Bool :=
  t.kind == .punct && (t.text == ")" || t.text == "]" || t.text == closeBrace)

end Token

/-- The closing bracket that goes with an opening one. -/
def closerOf (opener : String) : String :=
  if opener = "(" then ")" else if opener = "[" then "]" else closeBrace

end ModuleLinker
