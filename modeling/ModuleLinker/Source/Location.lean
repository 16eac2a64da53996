/-!
# Lines and columns

The place of an offset in a source text as a line and a column, both counted from one, the column in
characters. Only `\n` ends a line here. Offsets count characters; where a place is given in bytes of
UTF-8, an offset inside a character stands for the end of the text.
-/

set_option autoImplicit false

namespace ModuleLinker

/-- How many bytes a text takes in UTF-8. -/
def byteLength (cs : List Char) : Nat :=
  cs.foldl (fun n c => n + c.utf8Size) 0

/-- How many bytes come before the character at an offset. -/
def byteOffset (cs : List Char) (offset : Nat) : Nat :=
  byteLength (cs.take offset)

/-- How many bytes come before each character of a text, and how many there are in all, where `n`
more come before the text. -/
def byteOffsets (n : Nat) : List Char → List Nat
  | [] => [n]
  | c :: cs => n :: byteOffsets (n + c.utf8Size) cs

/-- How many characters the first `bytes` bytes of a text hold; `none` where they end inside a
character or the text has fewer bytes. -/
def charOffset? : List Char → Nat → Option Nat
  | _, 0 => some 0
  | [], _ + 1 => none
  | c :: cs, n + 1 =>
    if c.utf8Size ≤ n + 1 then (charOffset? cs (n + 1 - c.utf8Size)).map (· + 1) else none

/-- A place in a source text. -/
structure Location where
  /-- The line, from one. -/
  line : Nat
  /-- The column in characters, from one. -/
  column : Nat
  deriving DecidableEq, Repr

namespace Location

/-- The place right after a text that starts at `place`. -/
def after (place : Location) : List Char → Location
  | [] => place
  | c :: cs =>
    if c = '\n' then after ⟨place.line + 1, 1⟩ cs else after ⟨place.line, place.column + 1⟩ cs

/-- The place of the character at an offset. -/
def ofOffset (source : List Char) (offset : Nat) : Location :=
  after ⟨1, 1⟩ (source.take offset)

/-- The place of a byte offset. -/
def ofByteOffset (source : List Char) (bytes : Nat) : Location :=
  ofOffset source ((charOffset? source bytes).getD source.length)

/-- A place as it is written in a message. -/
def text (place : Location) : String :=
  toString place.line ++ ":" ++ toString place.column

end Location

end ModuleLinker
