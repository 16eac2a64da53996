import ModuleLinker.Files.Disk
import ModuleLinker.Text.Blank
import ModuleLinker.Toml.Read

/-!
# Settings

The settings of a loader and the places they come from: single assignments, the variables of an
environment and settings files. Assignments take effect one after the other; the first one that is
refused ends the source it stands in and leaves what was assigned before it.
-/

set_option autoImplicit false

namespace ModuleLinker

open Text Files

/-- The settings of a loader. -/
structure Config where
  /-- The directory of the content cache, unless it is the usual one. -/
  cacheDirectory : Option String
  /-- How many seconds a fetch may take. -/
  fetchTimeout : Nat
  /-- How many seconds it may take to reach a server. -/
  connectTimeout : Nat
  /-- How many fetches may be under way. -/
  maxFetches : Nat
  /-- What the loader calls itself to servers. -/
  userAgent : String
  /-- Whether every access to the host is logged. -/
  traceAccess : Bool
  deriving DecidableEq, Repr

namespace Config

/-- The settings that hold unless others are given. -/
def initial (maxFetches : Nat) : Config := ⟨none, 30, 10, maxFetches, "spacey-deno/0.1.0", false⟩

/-- A setting that can be assigned. -/
inductive Setting where
  /-- The directory of the content cache. -/
  | cacheDirectory
  /-- How many seconds a fetch may take. -/
  | fetchTimeout
  /-- How many seconds it may take to reach a server. -/
  | connectTimeout
  /-- How many fetches may be under way. -/
  | maxFetches
  /-- What the loader calls itself to servers. -/
  | userAgent
  /-- Whether every access to the host is logged. -/
  | traceAccess
  deriving DecidableEq, Repr

namespace Setting

/-- All settings. -/
def all : List Setting :=
  [cacheDirectory, fetchTimeout, connectTimeout, maxFetches, userAgent, traceAccess]

/-- The key of a setting. -/
def key : Setting → String
  | cacheDirectory => "cache_dir"
  | fetchTimeout => "fetch_timeout_secs"
  | connectTimeout => "connect_timeout_secs"
  | maxFetches => "max_concurrent_fetches"
  | userAgent => "user_agent"
  | traceAccess => "trace_capabilities"

/-- The setting with a key. -/
def ofKey? (key : String) : Option Setting := all.find? (·.key == key)

end Setting

/-- The greatest count that a setting can have. -/
def greatestCount : Nat := Nat.pow 2 64 - 1

/-- The count that a text is: decimal digits, with or without a plus sign in front. -/
def readCount? (text : String) : Option Nat :=
  let cs := text.toList
  let digits := if cs.head? == some '+' then cs.drop 1 else cs
  if digits.isEmpty || !digits.all Char.isDigit then none
  else
    let n := digits.foldl (fun n c => 10 * n + (c.toNat - 48)) 0
    if n ≤ greatestCount then some n else none

/-- The truth value that a text is. -/
def readFlag? : String → Option Bool
  | "true" => some true
  | "false" => some false
  | _ => none

/-- A value read from a text without the blanks around it; `none` is an invalid value for the key. -/
def parsed {α : Type} (read? : String → Option α) (key value : String) : Except LoadError α :=
  match read? (trim value) with
  | some a => .ok a
  | none => .error (.config ("invalid value '" ++ value ++ "' for " ++ key))

/-- Assigns a setting. -/
def change (c : Config) (setting : Setting) (value : String) : Except LoadError Config :=
  match setting with
  | .cacheDirectory => .ok { c with cacheDirectory := some value }
  | .fetchTimeout => do .ok { c with fetchTimeout := ← parsed readCount? setting.key value }
  | .connectTimeout => do .ok { c with connectTimeout := ← parsed readCount? setting.key value }
  | .maxFetches => do
    let n ← parsed readCount? setting.key value
    if n = 0 then .error (.config "max_concurrent_fetches must be at least 1")
    else .ok { c with maxFetches := n }
  | .userAgent => .ok { c with userAgent := value }
  | .traceAccess => do .ok { c with traceAccess := ← parsed readFlag? setting.key value }

/-- Assigns the setting with a key; other keys have no effect. -/
def assign (c : Config) (key value : String) : Except LoadError Config :=
  match Setting.ofKey? key with
  | some setting => c.change setting value
  | none => .ok c

/-- Makes assignments one after the other, up to the first one that is refused. -/
def assignAll (c : Config) : List (String × String) → Config × Option LoadError
  | [] => (c, none)
  | (key, value) :: more =>
    match c.assign key value with
    | .ok c => assignAll c more
    | .error e => (c, some e)

/-- What the names of the variables with settings start with. -/
def variableMark : String := "SPACEY_DENO_"

/-- The key of the setting that a variable is for. -/
def variableKey? (name : String) : Option String :=
  if variableMark.toList.isPrefixOf name.toList then
    some (String.ofList (lower (name.toList.drop variableMark.length)))
  else none

/-- The assignments of an environment, in its order. -/
def variableAssignments (environment : List (String × String)) : List (String × String) :=
  environment.filterMap fun (name, value) => (variableKey? name).map (·, value)

/-- Makes the assignments of an environment. -/
def mergeEnvironment (c : Config) (environment : List (String × String)) :
    Config × Option LoadError :=
  c.assignAll (variableAssignments environment)

/-- The error for something wrong in a settings file. -/
def inFile (path : String) (e : LoadError) : LoadError := .config (path ++ ": " ++ e.message)

/-- Makes the assignments of a settings file with a text, in the order of their keys. -/
def mergeText (c : Config) (path text : String) : Config × Option LoadError :=
  match Toml.read? text with
  | none => (c, some (inFile path (.config "not a settings file")))
  | some entries =>
    let (c, refused) := c.assignAll (entries.map fun (key, value) => (key, value.plainText))
    (c, refused.map (inFile path))

/-- Makes the assignments of a settings file. -/
def mergeFile {m : Type → Type} [Monad m] [Disk m] (c : Config) (path : String) :
    m (Config × Option LoadError) := do
  match ← readText path with
  | .ok text => return c.mergeText path text
  | .error fault => return (c, some (.io path fault))

end Config

end ModuleLinker
