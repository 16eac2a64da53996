import ModuleLinker.Text.Search

/-!
# Paths of the file system

The components of a path and how paths are put together. A path that starts with a slash has the
root as its first component; a single dot is a component only where a path starts with it.
-/

set_option autoImplicit false

namespace ModuleLinker.Files

open Text

/-- Whether a path starts at the root. -/
def isAbsolute (path : String) : Bool := path.toList.head? == some '/'

/-- The components of a path. -/
def components (path : String) : List String :=
  let names := (splitAt '/' path.toList).map String.ofList
  let root := if isAbsolute path then ["/"] else []
  let first := if names.head? == some "." then ["."] else []
  root ++ first ++ names.filter fun name => !(name.isEmpty || name == ".")

/-- The path of something in a directory; an absolute path stands for itself. -/
def join (directory path : String) : String :=
  if isAbsolute path then path
  else if directory.isEmpty || directory.toList.getLast? == some '/' then directory ++ path
  else directory ++ "/" ++ path

/-- The path that some names lead to from a directory. -/
def joinAll (directory : String) (names : List String) : String := names.foldl join directory

/-- A path without its last name. -/
def parent (path : String) : String :=
  let slash (c : Char) := c == '/'
  let name := (path.toList.reverse.dropWhile slash).dropWhile (! slash ·)
  match name.dropWhile slash with
  | [] => if isAbsolute path then "/" else ""
  | rest => String.ofList rest.reverse

end ModuleLinker.Files
