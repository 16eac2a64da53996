/-!
# Edits

What is to be changed in a source text: ranges that are overwritten with spaces, and ranges that are
replaced by code. Line ends survive both: an overwritten line end stays, and replacing code is
followed by the line feeds of the range it stands for. An empty range that is replaced is an
insertion. Offsets count characters.
-/

set_option autoImplicit false

namespace ModuleLinker.Erase

/-- A change of a source text. -/
structure Edit where
  /-- The offset where the changed range starts. -/
  start : Nat
  /-- The offset where the changed range stops. -/
  stop : Nat
  /-- The code that replaces the range; `none` overwrites it with spaces. -/
  code : Option String
  deriving DecidableEq, Repr

namespace Edit

/-- The same edit of a text that has `n` more characters in front. -/
def shifted (e : Edit) (n : Nat) : Edit := { e with start := e.start + n, stop := e.stop + n }

/-- Whether an edit lies within the range of another. -/
def within (e outer : Edit) : Bool := outer.start ≤ e.start && e.stop ≤ outer.stop

/-- What stands for a character that is overwritten. -/
def blankOut (c : Char) : Char := if c = '\n' || c = '\r' then c else ' '

/-- What stands for the characters of an edited range. -/
def apply (e : Edit) (range : List Char) : List Char :=
  match e.code with
  | none => range.map blankOut
  | some code => code.toList ++ List.replicate (range.count '\n') '\n'

end Edit

/-- A list of edits, newest first. -/
abbrev Edits := List Edit

namespace Edits

/-- Adds an edit; it takes the place of the edits within its range. -/
def absorb (edits : Edits) (e : Edit) : Edits := e :: edits.filter fun old => !old.within e

/-- Adds the edits of a text that lies at an offset. -/
def adopt (edits inner : Edits) (offset : Nat) : Edits := inner.map (·.shifted offset) ++ edits

/-- The edits by where they start, older before newer at one place. -/
def inOrder (edits : Edits) : List Edit :=
  edits.reverse.mergeSort fun a b => a.start ≤ b.start

/-- The text `cs`, which lies at an offset, with a list of edits carried out; an edit that starts
before the offset is left out. -/
def applyFrom (offset : Nat) (cs : List Char) : List Edit → List Char
  | [] => cs
  | e :: es =>
    if e.start < offset then applyFrom offset cs es
    else
      let rest := cs.drop (e.start - offset)
      let size := e.stop - e.start
      cs.take (e.start - offset) ++ e.apply (rest.take size) ++
        applyFrom e.stop (rest.drop size) es

/-- A source text with its edits carried out. -/
def applyTo (edits : Edits) (source : List Char) : List Char :=
  applyFrom 0 source edits.inOrder

end Edits

end ModuleLinker.Erase
