import ModuleLinker.Files.Disk

/-!
# A file system in memory

A tree of directories and files, kept as a list of entries under their names from the root. Every
name on the way to an entry has to be a directory, two dots lead to the directory above, and a path
that ends in a slash leads to a directory. Names and paths can be limited in length.
-/

set_option autoImplicit false

namespace ModuleLinker.Files

open Text

/-- What a path can lead to. -/
inductive Entry where
  /-- A directory. -/
  | directory
  /-- A file with a content. -/
  | file (content : ByteArray)

/-- How long names and paths can be, in bytes. -/
structure Limits where
  /-- The longest name. -/
  name : Option Nat
  /-- The longest path. -/
  path : Option Nat
  deriving DecidableEq

/-- No limits. -/
def Limits.none : Limits := ⟨.none, .none⟩

/-- The limits of a usual file system. -/
def Limits.usual : Limits := ⟨some 255, some 4095⟩

/-- Whether a text is longer than a limit. -/
def exceeds (limit : Option Nat) (text : String) : Bool :=
  limit.any fun n => decide (n < text.utf8ByteSize)

/-- A file system in memory. -/
structure Volume where
  /-- What is below the root, under its names from the root. -/
  entries : List (List String × Entry)
  /-- The directory that relative paths start from, by its names. -/
  start : List String
  /-- How long names and paths can be. -/
  limits : Limits

namespace Volume

/-- A file system with nothing in it. -/
def empty (start : List String) (limits : Limits) : Volume := ⟨[], start, limits⟩

/-- What is at a place. -/
def get? (v : Volume) (place : List String) : Option Entry :=
  if place.isEmpty then some .directory else v.entries.lookup place

/-- The file system with something at a place, instead of what was there. -/
def set (v : Volume) (place : List String) (entry : Entry) : Volume :=
  { v with entries := (place, entry) :: v.entries.filter (·.1 != place) }

/-- The file system without what is at a place and below it. -/
def erase (v : Volume) (place : List String) : Volume :=
  { v with entries := v.entries.filter fun e => !place.isPrefixOf e.1 }

/-- The names on a path. -/
def names (path : String) : List String :=
  ((splitAt '/' path.toList).map String.ofList).filter fun name => !(name.isEmpty || name == ".")

/-- Whether the way that a path is written says that it leads to a directory. -/
def namesDirectory (path : String) : Bool :=
  match (splitAt '/' path.toList).getLast? with
  | some [] | some ['.'] | some ['.', '.'] => true
  | _ => false

/-- The place that some names lead to from a place. All names but the last have to be directories. -/
def follow (v : Volume) (place : List String) : List String → Except FileFault (List String)
  | [] => .ok place
  | name :: more =>
    match v.get? place with
    | none => .error .notFound
    | some (.file _) => .error .notDirectory
    | some .directory =>
      if exceeds v.limits.name name then .error .nameTooLong
      else follow v (if name == ".." then place.dropLast else place ++ [name]) more

/-- The place that a path starts from. -/
def origin (v : Volume) (path : String) : List String := if isAbsolute path then [] else v.start

/-- Refuses the paths that no file system takes. -/
def checkPath (v : Volume) (path : String) : Except FileFault Unit :=
  if path.isEmpty then .error .notFound
  else if path.toList.contains '\x00' then .error .nulInPath
  else if exceeds v.limits.path path then .error .nameTooLong
  else .ok ()

/-- The place that a path leads to. -/
def locate (v : Volume) (path : String) : Except FileFault (List String) := do
  v.checkPath path
  v.follow (v.origin path) (names path)

/-- The place that a path leads to, and what is there. -/
def find (v : Volume) (path : String) : Except FileFault (List String × Entry) := do
  let place ← v.locate path
  match v.get? place with
  | none => .error .notFound
  | some (.file content) =>
    if namesDirectory path then .error .notDirectory else .ok (place, .file content)
  | some .directory => .ok (place, .directory)

/-- The content of a file. -/
def read (v : Volume) (path : String) : Except FileFault ByteArray := do
  match (← v.find path).2 with
  | .file content => .ok content
  | .directory => .error .isDirectory

/-- Makes the directories with some names, one below the other. -/
def makeBelow (v : Volume) (place : List String) : List String → Except FileFault Unit × Volume
  | [] => (.ok (), v)
  | name :: more =>
    if exceeds v.limits.name name then (.error .nameTooLong, v)
    else
      let next := if name == ".." then place.dropLast else place ++ [name]
      match v.get? next with
      | some .directory => makeBelow v next more
      | some (.file _) => (.error (if more.isEmpty then .alreadyExists else .notDirectory), v)
      | none => makeBelow (v.set next .directory) next more

/-- Makes a directory, and the directories above it that are missing. -/
def makeDirectories (v : Volume) (path : String) : Except FileFault Unit × Volume :=
  if path.isEmpty then (.ok (), v)
  else
    match v.checkPath path with
    | .error fault => (.error fault, v)
    | .ok _ => v.makeBelow (v.origin path) (names path)

/-- A name that nothing in a directory has: a number behind a mark. -/
def freshName (v : Volume) (place : List String) : String :=
  let name (n : Nat) := ".tmp" ++ toString n
  let free (n : Nat) := (v.get? (place ++ [name n])).isNone
  name (((List.range (v.entries.length + 1)).find? free).getD 0)

/-- Makes a file with a name of its own in a directory; gives its path. -/
def stage (v : Volume) (directory : String) (content : ByteArray) :
    Except FileFault String × Volume :=
  match v.find directory with
  | .error fault => (.error fault, v)
  | .ok (_, .file _) => (.error .notDirectory, v)
  | .ok (place, .directory) =>
    let name := v.freshName place
    (.ok (join directory name), v.set (place ++ [name]) (.file content))

/-- Gives a file another path, unless there is something at that path already. -/
def publish (v : Volume) (staged path : String) : Except FileFault Unit × Volume :=
  match v.find staged, v.locate path with
  | .error fault, _ => (.error fault, v)
  | _, .error fault => (.error fault, v)
  | .ok (place, entry), .ok target =>
    if (v.get? target).isSome then (.error .alreadyExists, v)
    else (.ok (), (v.erase place).set target entry)

/-- Removes a file. -/
def removeFile (v : Volume) (path : String) : Except FileFault Unit × Volume :=
  match v.find path with
  | .error fault => (.error fault, v)
  | .ok (_, .directory) => (.error .isDirectory, v)
  | .ok (place, .file _) => (.ok (), v.erase place)

/-- Removes a directory and everything in it. -/
def removeDirectory (v : Volume) (path : String) : Except FileFault Unit × Volume :=
  match v.find path with
  | .error fault => (.error fault, v)
  | .ok (_, .file _) => (.error .notDirectory, v)
  | .ok (place, .directory) => (.ok (), v.erase place)

/-- The names of an entry from a place above it. -/
def namesFrom? (place names : List String) : Option (List String) :=
  if place.isPrefixOf names && place.length < names.length then some (names.drop place.length)
  else none

/-- The files below a place, by their names from there, and their sizes. -/
def filesFrom (v : Volume) (place : List String) : List (List String × Nat) :=
  v.entries.filterMap fun
    | (names, .file content) => (namesFrom? place names).map (·, content.size)
    | (_, .directory) => none

/-- The files below a directory, by their names from there, and their sizes. -/
def filesBelow (v : Volume) (path : String) : Except FileFault (List (List String × Nat)) := do
  let (place, _) ← v.find path
  .ok (v.filesFrom place)

/-- Puts a file, or a directory where there is no content, at a path, whatever is there. -/
def put (v : Volume) (path : String) : Option ByteArray → Volume
  | none => (v.makeDirectories path).2
  | some content =>
    let v := (v.makeDirectories (parent path)).2
    match v.locate path with
    | .ok place => v.set place (.file content)
    | .error _ => v

instance : Disk (StateM Volume) where
  workingDirectory := do return "/" ++ "/".intercalate (← get).start
  holds path := do return ((← get).find path).toBool
  read path := do return (← get).read path
  makeDirectories path := modifyGet (·.makeDirectories path)
  stage directory content := modifyGet (·.stage directory content)
  publish staged path := modifyGet (·.publish staged path)
  removeFile path := modifyGet (·.removeFile path)
  removeDirectory path := modifyGet (·.removeDirectory path)
  filesBelow path := do return (← get).filesBelow path

end Volume

end ModuleLinker.Files
