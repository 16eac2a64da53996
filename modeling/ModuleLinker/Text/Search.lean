/-!
# Searching and splitting texts

Whether one text occurs in another, and the pieces of a text between the places where a character
stands.
-/

set_option autoImplicit false

namespace ModuleLinker.Text

/-- Whether one text occurs in another. -/
def occursIn (pattern : List Char) : List Char → Bool
  | [] => pattern.isEmpty
  | c :: cs => pattern.isPrefixOf (c :: cs) || occursIn pattern cs

/-- The pieces of a text between the places where a character stands; there is one more piece than
such places. -/
def splitAt (mark : Char) : List Char → List (List Char)
  | [] => [[]]
  | c :: cs =>
    if c = mark then [] :: splitAt mark cs
    else
      match splitAt mark cs with
      | piece :: pieces => (c :: piece) :: pieces
      | [] => [[c]]

/-- The text after the last place where a character stands; `none` where there is none. -/
def afterLast? (mark : Char) (cs : List Char) : Option (List Char) :=
  if mark ∈ cs then (splitAt mark cs).getLast? else none

/-- A text with the ASCII capitals made small. -/
def lower (cs : List Char) : List Char := cs.map Char.toLower

end ModuleLinker.Text
