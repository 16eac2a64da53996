import ModuleLinker.Text.Percent

/-!
# Cache keys

The path of a specifier's entry in the cache, as a list of names, and the specifier that a path
belongs to. The specifier is percent-encoded and cut into pieces of 200 characters, the short piece
first; every name but the last is a directory and ends in a plus sign, which no piece contains.
-/

set_option autoImplicit false

namespace ModuleLinker.Cache

open Text

/-- Whether a character stands for itself in a key. -/
def isPlainKey (c : Char) : Bool := c.isAlphanum || "-_.~".toList.contains c

/-- How many characters of a key go into one name. -/
def pieceLength : Nat := 200

/-- What the name of a directory ends with. -/
def directoryMark : Char := '+'

/-- The pieces of a text that has a multiple of the piece length as its own length. -/
def pieces (cs : List Char) : List (List Char) :=
  if cs.isEmpty then [] else cs.take pieceLength :: pieces (cs.drop pieceLength)
termination_by cs.length
decreasing_by
  rename_i h
  cases cs with
  | nil => simp at h
  | cons c cs =>
    simp only [List.length_drop, List.length_cons, pieceLength]
    omega

/-- The names for some pieces: all but the last are directories. -/
def names : List (List Char) → List String
  | [] => []
  | [piece] => [String.ofList piece]
  | piece :: more => String.ofList (piece ++ [directoryMark]) :: names more

/-- The path of a specifier's entry. -/
def encodeKey (specifier : String) : List String :=
  let encoded := percentEncode isPlainKey specifier.toList
  if encoded.length ≤ pieceLength then [String.ofList encoded]
  else
    let head := encoded.length % pieceLength
    let rest := pieces (encoded.drop head)
    names (if head = 0 then rest else encoded.take head :: rest)

/-- The encoded specifier that a path belongs to. -/
def joinedKey? : List String → Option (List Char)
  | [] => none
  | [file] => if file.toList.getLast? = some directoryMark then none else some file.toList
  | directory :: more =>
    if directory.toList.getLast? = some directoryMark then
      (joinedKey? more).map (directory.toList.dropLast ++ ·)
    else none

/-- The specifier that a path belongs to, if it belongs to one. -/
def decodeKey? (path : List String) : Option String :=
  (joinedKey? path).bind fun encoded =>
    (ofBytes? (percentDecode encoded)).map String.ofList

end ModuleLinker.Cache
