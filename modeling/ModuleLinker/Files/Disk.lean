import ModuleLinker.Error
import ModuleLinker.Files.Path

/-!
# What is asked of a file system

The requests that the cache, the settings and the reading of local modules make to a file system.
Files are made in two steps, under a name of their own and then under the name they are meant to
have, so that nobody sees a file that is only half written.
-/

set_option autoImplicit false

namespace ModuleLinker.Files

/-- A file system. -/
class Disk (m : Type → Type) where
  /-- The directory that relative paths start from. -/
  workingDirectory : m String
  /-- Whether there is anything at a path. -/
  holds : String → m Bool
  /-- The content of a file. -/
  read : String → m (Except FileFault ByteArray)
  /-- Makes a directory, and the directories above it that are missing. -/
  makeDirectories : String → m (Except FileFault Unit)
  /-- Makes a file with a name of its own in a directory; gives its path. -/
  stage : String → ByteArray → m (Except FileFault String)
  /-- Gives a file another path, unless there is something at that path already. -/
  publish : String → String → m (Except FileFault Unit)
  /-- Removes a file. -/
  removeFile : String → m (Except FileFault Unit)
  /-- Removes a directory and everything in it. -/
  removeDirectory : String → m (Except FileFault Unit)
  /-- The files below a directory, by their names from there, and their sizes. -/
  filesBelow : String → m (Except FileFault (List (List String × Nat)))

variable {m : Type → Type} [Monad m] [Disk m]

/-- The text that some bytes are. -/
def textOf (content : ByteArray) : Except FileFault String :=
  match String.fromUTF8? content with
  | some text => .ok text
  | none => .error .notText

/-- The text in a file. -/
def readText (path : String) : m (Except FileFault String) := do
  return (← Disk.read path).bind textOf

end ModuleLinker.Files
