import ModuleLinker.Cache.Key
import ModuleLinker.Files.Disk
import ModuleLinker.Specifier

/-!
# The content cache

The sources of remote modules, as they were retrieved, in files under a directory. The file of a
module is found by its key. Sources are written elsewhere first and then moved to their place, and
what is in the cache is never written over.
-/

set_option autoImplicit false

namespace ModuleLinker.Cache

open Files

/-- A cache, by the directory it lies in. -/
structure Store where
  /-- The directory. -/
  root : String
  deriving DecidableEq, Repr

/-- A module whose source is in a cache. -/
structure Item where
  /-- The specifier of the module. -/
  specifier : String
  /-- The file with the source. -/
  path : String
  /-- The number of bytes in the file. -/
  size : Nat
  deriving DecidableEq, Repr

/-- The number of bytes in the files of some modules. -/
def totalSize (items : List Item) : Nat := items.foldr (fun item size => item.size + size) 0

namespace Store

/-- The directory of the files. The name is a version of how they are laid out. -/
def base (c : Store) : String := join c.root "v1"

/-- The directory of the files that are being written. -/
def staging (c : Store) : String := join c.root "tmp"

/-- The file of a module. -/
def path (c : Store) (s : Specifier) : String := joinAll c.base (encodeKey s.text)

variable {m : Type → Type} [Monad m] [Disk m]

/-- An action of the file system whose failure is one of the file system at a path. -/
def orIo {α : Type} (path : String) (action : m (Except FileFault α)) : ExceptT LoadError m α := do
  match ← action with
  | .ok a => return a
  | .error fault => throw (.io path fault)

/-- An action of the file system whose failure is one of the cache at a path. -/
def orCache {α : Type} (path : String) (action : m (Except FileFault α)) :
    ExceptT LoadError m α := do
  match ← action with
  | .ok a => return a
  | .error fault => throw (.cache path fault.message)

/-- Makes a directory. -/
def makeDirectory (path : String) : ExceptT LoadError m Unit :=
  orIo path (Disk.makeDirectories path)

/-- Opens the cache in a directory, which is made where it is missing. -/
def create (root : String) : ExceptT LoadError m Store := do
  let c : Store := ⟨root⟩
  makeDirectory c.base
  makeDirectory c.staging
  return c

/-- The source of a module, if the cache has it. -/
def get (c : Store) (s : Specifier) : ExceptT LoadError m (Option String) := do
  match ← (readText (c.path s) : m _) with
  | .ok source => return some source
  | .error .notFound => return none
  | .error fault => throw (.cache (c.path s) fault.message)

/-- Puts the source of a module into the cache, unless there is something in its place. -/
def put (c : Store) (s : Specifier) (source : String) : ExceptT LoadError m Unit := do
  let path := c.path s
  makeDirectory (parent path)
  let staged ← orCache c.staging (Disk.stage c.staging source.toUTF8)
  match ← (Disk.publish staged path : m _) with
  | .ok () => return
  | .error fault =>
    let _ ← (Disk.removeFile staged : m _)
    if fault = .alreadyExists then return else throw (.cache path fault.message)

/-- Removes the source of a module; gives whether there was one. -/
def remove (c : Store) (s : Specifier) : ExceptT LoadError m Bool := do
  match ← (Disk.removeFile (c.path s) : m _) with
  | .ok () => return true
  | .error .notFound => return false
  | .error fault => throw (.io (c.path s) fault)

/-- Makes a directory empty. -/
def clearDirectory (path : String) : ExceptT LoadError m Unit := do
  match ← (Disk.removeDirectory path : m _) with
  | .ok () | .error .notFound => makeDirectory path
  | .error fault => throw (.io path fault)

/-- Removes everything from the cache. -/
def clear (c : Store) : ExceptT LoadError m Unit := do
  clearDirectory c.base
  clearDirectory c.staging

/-- The module whose source is in a file, where the names of the file are a key. -/
def item? (c : Store) (file : List String × Nat) : Option Item :=
  (decodeKey? file.1).map (⟨·, joinAll c.base file.1, file.2⟩)

/-- The modules whose sources are in the cache, in the order of their specifiers. Files that are not
named by a key are passed over. -/
def entries (c : Store) : ExceptT LoadError m (List Item) := do
  match ← (Disk.filesBelow c.base : m _) with
  | .ok files =>
    return (files.filterMap c.item?).mergeSort fun a b => a.specifier ≤ b.specifier
  | .error fault =>
    throw (.cache c.base ("IO error for operation on " ++ c.base ++ ": " ++ fault.message))

/-- The number of bytes in the cache. -/
def size (c : Store) : ExceptT LoadError m Nat := do
  return totalSize (← c.entries)

end Store

end ModuleLinker.Cache
