import ModuleLinker.Text.Name
import ModuleLinker.Text.Blank
import ModuleLinker.Source.Complaint
import ModuleLinker.Source.Token

/-!
# How far a token reaches

For each class of token, how many characters it takes from a text that goes on after its first
character, and the same for what stands between tokens. Strings and regular expressions end on their
line; a template literal contains its substitutions, which may contain strings, comments and further
templates.
-/

set_option autoImplicit false

namespace ModuleLinker.Lexeme

open ModuleLinker.Text

/-- The mark that delimits a template literal. -/
def templateMark : Char := '\x60'

/-- How many characters come before the next line feed or carriage return. -/
def lineLength (cs : List Char) : Nat :=
  (cs.takeWhile fun c => c != '\n' && c != '\r').length

/-- How many characters a block comment takes after its opening `/*`, counting from `n`. -/
def blockLength? (n : Nat) : List Char → Option Nat
  | '*' :: '/' :: _ => some (n + 2)
  | _ :: cs => blockLength? (n + 1) cs
  | [] => none

/-- How many characters a string takes after its opening quote, counting from `n`: a backslash takes
the next character with it, and a line feed does not belong to a string otherwise. -/
def quotedLength? (quote : Char) (n : Nat) : List Char → Option Nat
  | [] => none
  | c :: cs =>
    if c = '\n' then none
    else if c = quote then some (n + 1)
    else if c = '\\' then
      match cs with
      | [] => none
      | _ :: rest => quotedLength? quote (n + 2) rest
    else quotedLength? quote (n + 1) cs

/-- How many characters the body of a regular expression takes after its opening slash, counting
from `n`; a slash inside a character class does not close it. -/
def regexLength? (inClass : Bool) (n : Nat) : List Char → Option Nat
  | [] => none
  | c :: cs =>
    if c = '\n' then none
    else if c = '\\' then
      match cs with
      | [] => none
      | _ :: rest => regexLength? inClass (n + 2) rest
    else if c = '[' then regexLength? true (n + 1) cs
    else if c = ']' then regexLength? false (n + 1) cs
    else if c = '/' && !inClass then some (n + 1)
    else regexLength? inClass (n + 1) cs

/-- How many characters a name takes after its first one. -/
def nameLength (cs : List Char) : Nat :=
  (cs.takeWhile fun c => isNamePart c || c == '\\').length

/-- How many characters a number takes after its first one, counting from `n`. A sign belongs to it
right after an `e`, unless the number is hexadecimal. -/
def numberLength (hex : Bool) (last : Char) (n : Nat) : List Char → Nat
  | [] => n
  | c :: cs =>
    if c.isAlphanum || c == '_' || c == '.' ||
        ((c == '+' || c == '-') && !hex && (last == 'e' || last == 'E')) then
      numberLength hex c (n + 1) cs
    else n

mutual

/-- The offset right after the template literal that starts at `start`, and its substitutions, where
`cs` is the text from the offset `pos` on, inside the literal but outside its substitutions. -/
def template (start pos : Nat) (holes : List Hole) (cs : List Char) :
    Except SourceError (Nat × List Hole) :=
  match cs with
  | [] => .error ⟨start, .unterminatedTemplate⟩
  | c :: cs =>
    if c = templateMark then .ok (pos + 1, holes.reverse)
    else if c = '\\' then template start (pos + 2) holes (cs.drop 1)
    else if c = '$' && cs.head? == some '{' then do
      let first := cs.drop 1
      let close ← substitution start (pos + 2) 0 first
      let length := close - (pos + 2)
      template start (close + 1) (⟨pos + 2, first.take length⟩ :: holes)
        (first.drop (length + 1))
    else template start (pos + 1) holes cs
termination_by cs.length

/-- The offset of the brace that closes the innermost substitution of the template literal that
starts at `start`, where `cs` is the text from the offset `pos` on, inside `depth` further braces of
that substitution. A block comment without an end reaches to the end of the text. -/
def substitution (start pos depth : Nat) (cs : List Char) : Except SourceError Nat :=
  match cs with
  | [] => .error ⟨start, .unterminatedTemplate⟩
  | c :: cs =>
    if c = '{' then substitution start (pos + 1) (depth + 1) cs
    else if c = '}' then
      match depth with
      | 0 => .ok pos
      | outer + 1 => substitution start (pos + 1) outer cs
    else if c = '"' || c = '\x27' then
      match quotedLength? c 0 cs with
      | none => .error ⟨pos, .unterminatedString⟩
      | some n => substitution start (pos + 1 + n) depth (cs.drop n)
    else if c = templateMark then do
      let (stop, _) ← template pos (pos + 1) [] cs
      substitution start stop depth (cs.drop (stop - (pos + 1)))
    else if c = '/' && cs.head? == some '/' then
      let n := lineLength cs
      substitution start (pos + 1 + n) depth (cs.drop n)
    else if c = '/' && cs.head? == some '*' then
      let n := 1 + ((blockLength? 0 (cs.drop 1)).getD cs.length)
      substitution start (pos + 1 + n) depth (cs.drop n)
    else substitution start (pos + 1) depth cs
termination_by cs.length

end

/-- What stands between two tokens. -/
structure Gap where
  /-- How many characters it takes. -/
  length : Nat
  /-- Whether a line ends in it. -/
  newline : Bool
  deriving DecidableEq, Repr

/-- The blanks and comments at the start of a text that lies at the offset `pos`, after a gap that
was met already. -/
def gap (pos : Nat) (before : Gap) (cs : List Char) : Except SourceError Gap :=
  match cs with
  | [] => .ok before
  | c :: cs =>
    if isLineEnd c then gap (pos + 1) ⟨before.length + 1, true⟩ cs
    else if isBlank c || c = '\ufeff' then gap (pos + 1) ⟨before.length + 1, before.newline⟩ cs
    else if c = '/' && cs.head? == some '/' then
      let n := lineLength cs
      gap (pos + 1 + n) ⟨before.length + 1 + n, before.newline⟩ (cs.drop n)
    else if c = '/' && cs.head? == some '*' then
      match blockLength? 1 (cs.drop 1) with
      | none => .error ⟨pos, .unterminatedComment⟩
      | some n =>
        let newline := (cs.take n).any fun c => c == '\n' || c == '\r'
        gap (pos + 1 + n) ⟨before.length + 1 + n, before.newline || newline⟩ (cs.drop n)
    else .ok before
termination_by cs.length

/-- The punctuators, longest first. A `>` never combines, so that nested type argument lists close
one level per token. -/
def operators : List String := [
  "...", "===", "!==", "**=", "<<=", "&&=", "||=", "??=", "=>", "==", "!=", "<=",
  "&&", "||", "??", "?.", "**", "++", "--", "+=", "-=", "*=", "/=", "%=", "&=", "|=", "^=",
  "<<", openBrace, closeBrace, "(", ")", "[", "]", ";", ",", ":", "?", ".", "=", "!", "<", ">", "+", "-",
  "*", "/", "%", "&", "|", "^", "~", "@"]

/-- The punctuator at the start of a text: the first of the table, except that a `?.` before a digit
is the `?` of a conditional. -/
def operator? (cs : List Char) : Option String :=
  match operators.find? fun op => op.toList.isPrefixOf cs with
  | none => none
  | some op =>
    if op = "?." && ((cs.drop 2).head?.any Char.isDigit) then some "?" else some op

/-- What a token is made of, without its place. -/
structure Extent where
  /-- The class of the token. -/
  kind : TokenKind
  /-- How many characters it takes after its first one. -/
  more : Nat
  /-- The substitutions of a template literal. -/
  holes : List Hole
  deriving DecidableEq, Repr

/-- The extent of the token that starts with the character `c` at the offset `pos` and goes on in
`cs`. -/
def extent (regexAllowed : Bool) (pos : Nat) (c : Char) (cs : List Char) :
    Except SourceError Extent :=
  if c = '"' || c = '\x27' then
    match quotedLength? c 0 cs with
    | none => .error ⟨pos, .unterminatedString⟩
    | some n => .ok ⟨.string, n, []⟩
  else if c = templateMark then do
    let (stop, holes) ← template pos (pos + 1) [] cs
    .ok ⟨.template, stop - (pos + 1), holes⟩
  else if c.isDigit || (c = '.' && cs.head?.any Char.isDigit) then
    let hex := c = '0' && (cs.head? == some 'x' || cs.head? == some 'X')
    .ok ⟨.number, numberLength hex c 0 cs, []⟩
  else if c = '#' then
    if cs.head?.any isNameStart then .ok ⟨.privateName, nameLength cs, []⟩
    else .error ⟨pos, .invalidCharacter '#'⟩
  else if c = '/' && regexAllowed then
    match regexLength? false 0 cs with
    | none => .error ⟨pos, .unterminatedRegex⟩
    | some n => .ok ⟨.regex, n + nameLength (cs.drop n), []⟩
  else if isNameStart c || c = '\\' then .ok ⟨.ident, nameLength cs, []⟩
  else
    match operator? (c :: cs) with
    | none => .error ⟨pos, .invalidCharacter c⟩
    | some op => .ok ⟨.punct, op.length - 1, []⟩

end ModuleLinker.Lexeme
