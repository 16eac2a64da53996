import ModuleLinker.Command

/-!
# The program

The command line program on the file system of the machine: how the requests to a file system are
carried out there, and what the program writes where.
-/

set_option autoImplicit false

namespace ModuleLinker.Main

open Files

/-- What an error of the machine means. -/
def faultOf : IO.Error → FileFault
  | .noFileOrDirectory .. => .notFound
  | .alreadyExists .. => .alreadyExists
  | .inappropriateType _ code _ => if code = 21 then .isDirectory else .notDirectory
  | e => .other e.toString

/-- Carries out a request. -/
def attempt {α : Type} (action : IO α) : IO (Except FileFault α) := do
  match ← action.toBaseIO with
  | .ok a => return .ok a
  | .error e => return .error (faultOf e)

/-- Makes a file that is not there yet, under the first of some numbered names that is free. -/
def writeNew (directory : String) (content : ByteArray) : (names number : Nat) → IO String
  | 0, _ => throw (.userError "no name is free")
  | names + 1, number => do
    let path := join directory (".tmp" ++ toString number)
    match ← (IO.FS.Handle.mk path .writeNew).toBaseIO with
    | .ok handle =>
      handle.write content
      handle.flush
      return path
    | .error (.alreadyExists ..) => writeNew directory content names (number + 1)
    | .error e => throw e

/-- The files below a directory, behind some names. -/
partial def files (directory : String) (above : List String) :
    IO (List (List String × Nat)) := do
  let place := (← IO.currentDir) / directory
  let mut found := []
  for entry in ← place.readDir do
    let names := above ++ [entry.fileName]
    if ← entry.path.isDir then
      found := found ++ (← files (join directory entry.fileName) names)
    else
      found := found ++ [(names, (← entry.path.metadata).byteSize.toNat)]
  return found

instance : Disk IO where
  workingDirectory := do return toString (← IO.currentDir)
  holds path := do ((← IO.currentDir) / path).pathExists
  read path := attempt (IO.FS.readBinFile path)
  makeDirectories path := attempt (IO.FS.createDirAll path)
  stage directory content := attempt (writeNew directory content 1000 0)
  publish staged path := attempt do
    IO.FS.hardLink staged path
    IO.FS.removeFile staged
  removeFile path := attempt (IO.FS.removeFile path)
  removeDirectory path := attempt (IO.FS.removeDirAll path)
  filesBelow path := attempt (files path [])

/-- The names of the variables that the program looks at. -/
def variableNames : List String :=
  ["HOME", "XDG_CACHE_HOME", "XDG_CONFIG_HOME"] ++
    Config.Setting.all.map fun setting => Config.variableMark ++ setting.key.toUpper

/-- The environment of the program, as far as the program looks at it. -/
def environment : IO Command.Environment := do
  let values ← variableNames.mapM fun name => do return (← IO.getEnv name).map (name, ·)
  return values.filterMap id

end ModuleLinker.Main

/-- Calls the program. -/
def main (arguments : List String) : IO UInt32 := do
  let outcome : ModuleLinker.Command.Outcome ←
    ModuleLinker.Command.run (← ModuleLinker.Main.environment) arguments
  IO.print outcome.output
  IO.eprint outcome.errors
  return outcome.code.toUInt32
