import ModuleLinker.Source.Location
import ModuleLinker.Text.Search

/-!
# Errors of the loader

What can go wrong between a reference and a linked module graph, and how it is worded.
-/

set_option autoImplicit false

namespace ModuleLinker

/-- Why the file system does not do what it is asked for. -/
inductive FileFault where
  /-- There is nothing at the path. -/
  | notFound
  /-- There is something at the path already. -/
  | alreadyExists
  /-- The path goes through something that is no directory. -/
  | notDirectory
  /-- There is a directory at the path. -/
  | isDirectory
  /-- A name on the path is longer than the file system allows. -/
  | nameTooLong
  /-- The path cannot be passed to the file system. -/
  | nulInPath
  /-- The content is no text. -/
  | notText
  /-- Any other cause, in its own words. -/
  | other (cause : String)
  deriving DecidableEq, Repr

/-- The wording of a fault. -/
def FileFault.message : FileFault → String
  | notFound => "No such file or directory (os error 2)"
  | alreadyExists => "File exists (os error 17)"
  | notDirectory => "Not a directory (os error 20)"
  | isDirectory => "Is a directory (os error 21)"
  | nameTooLong => "File name too long (os error 36)"
  | nulInPath => "file name contained an unexpected NUL byte"
  | notText => "stream did not contain valid UTF-8"
  | other cause => cause

/-- What can go wrong while modules are loaded, linked or run. -/
inductive LoadError where
  /-- A reference leads to no module, relative to the specifier `base`. -/
  | malformedSpecifier (reference base reason : String)
  /-- There is no file for a local module. -/
  | localNotFound (specifier path : String)
  /-- A remote module could not be retrieved; the status is known where a server answered. -/
  | fetch (specifier : String) (status : Option Nat) (cause : String)
  /-- The types of a module could not be erased. -/
  | transpile (specifier : String) (location : Location) (message : String)
  /-- The engine refused a module. -/
  | link (specifier reason : String)
  /-- A module failed when it ran. -/
  | evaluation (specifier message : String)
  /-- The file system failed. -/
  | io (path : String) (fault : FileFault)
  /-- The cache failed. -/
  | cache (path reason : String)
  /-- A setting is wrong. -/
  | config (message : String)
  /-- The run was given up. -/
  | aborted
  /-- A counter went past the greatest 64-bit integer. -/
  | counterOverflow
  deriving DecidableEq, Repr

namespace LoadError

/-- The error for an answer with a status other than success. -/
def fetchStatus (specifier : String) (status : Nat) : LoadError :=
  .fetch specifier (some status) ("HTTP " ++ toString status)

/-- The error for a failure without an answer. -/
def fetchCause (specifier cause : String) : LoadError := .fetch specifier none cause

/-- The reason of a failed fetch: the cause, with the status in front unless the cause names it. -/
def fetchReason (status : Option Nat) (cause : String) : String :=
  match status with
  | none => cause
  | some code =>
    if Text.occursIn (toString code).toList cause.toList then cause
    else "HTTP " ++ toString code ++ " (" ++ cause ++ ")"

/-- The wording of an error. -/
def message : LoadError → String
  | malformedSpecifier reference base reason =>
    "Invalid module specifier '" ++ reference ++ "' (relative to '" ++ base ++ "'): " ++ reason
  | localNotFound specifier path => "Cannot find module '" ++ specifier ++ "' at " ++ path
  | fetch specifier status cause =>
    "Failed to fetch '" ++ specifier ++ "': " ++ fetchReason status cause
  | transpile specifier location message =>
    "TranspileError: " ++ message ++ " at " ++ specifier ++ ":" ++ location.text
  | link specifier reason => "LinkError: " ++ reason ++ " (" ++ specifier ++ ")"
  | evaluation specifier message => "Uncaught error in " ++ specifier ++ ": " ++ message
  | io path fault => "File system error at " ++ path ++ ": " ++ fault.message
  | cache path reason => "Cache error at " ++ path ++ ": " ++ reason
  | config message => "Configuration error: " ++ message
  | aborted => "Module loading aborted"
  | counterOverflow => "attempt to add with overflow"

/-- The status of a failed fetch, where a server answered. -/
def status? : LoadError → Option Nat
  | fetch _ status _ => status
  | _ => none

end LoadError

end ModuleLinker
