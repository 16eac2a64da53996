import ModuleLinker.Command.Arguments
import ModuleLinker.Link.Local
import ModuleLinker.Report.Json
import ModuleLinker.Report.Tree

/-!
# The command line program

What the program writes, and with which code it ends, when it is called with arguments in an
environment on a file system.
-/

set_option autoImplicit false

namespace ModuleLinker.Command

open Files Link Report

/-- The variables of an environment. -/
abbrev Environment := List (String × String)

/-- What a call of the program comes to. -/
structure Outcome where
  /-- The code that the program ends with. -/
  code : Nat
  /-- What it writes. -/
  output : String
  /-- What it writes as an error. -/
  errors : String
  deriving DecidableEq, Repr

/-- Why a command has failed. -/
structure Failure where
  /-- What the program was about to do, where that helps. -/
  context : Option String
  /-- What went wrong. -/
  error : LoadError
  deriving DecidableEq, Repr

/-- An error and what lies behind it. -/
def chainText (e : LoadError) : String :=
  match e with
  | .io _ fault => e.message ++ ": " ++ fault.message
  | _ => e.message

/-- How a failure is told. -/
def Failure.text (f : Failure) : String :=
  styled .bold (styled .red "error") ++ ": " ++ f.context.elim "" (· ++ ": ") ++
    chainText f.error ++ "\n"

/-- What a command has written, and the failure that has ended it. -/
abbrev Written := String × Option Failure

/-- What a command that writes all or nothing comes to. -/
def written : Except LoadError String → Written
  | .ok text => (text, none)
  | .error e => ("", some ⟨none, e⟩)

/-- The value of a variable. -/
def valueOf? (environment : Environment) (name : String) : Option String :=
  environment.lookup name

/-- The home directory. -/
def home? (environment : Environment) : Option String :=
  (valueOf? environment "HOME").filter fun path => !path.isEmpty

/-- The directory that a variable names by an absolute path, or else one in the home directory. -/
def userDirectory? (environment : Environment) (name below : String) : Option String :=
  ((valueOf? environment name).filter isAbsolute).or
    ((home? environment).map (join · below))

/-- The directory of the cache that is used unless another one is named. -/
def usualCacheDirectory (environment : Environment) : String :=
  joinAll ((userDirectory? environment "XDG_CACHE_HOME" ".cache").getD ".") ["spacey", "deno"]

/-- The settings files that are read where they exist: the one of the user and the one of the
project. -/
def usualConfigFiles (environment : Environment) : List String :=
  ((userDirectory? environment "XDG_CONFIG_HOME" ".config").map
    (joinAll · ["spacey", "deno.toml"])).toList ++ ["spacey-deno.toml"]

variable {m : Type → Type} [Monad m] [Disk m]

/-- The settings with the assignments of settings files, as far as they exist. -/
def mergeExisting (config : Config) : List String → ExceptT LoadError m Config
  | [] => return config
  | path :: more => do
    if ← (Disk.holds path : m Bool) then
      match ← (config.mergeFile path : m _) with
      | (config, none) => mergeExisting config more
      | (_, some e) => throw e
    else mergeExisting config more

/-- The settings from the usual places, the later ones winning: the file of the user, the file of the
project, the environment. -/
def usualConfig (environment : Environment) : ExceptT LoadError m Config := do
  let config ← mergeExisting (.initial 8) (usualConfigFiles environment)
  match config.mergeEnvironment environment with
  | (config, none) => return config
  | (_, some e) => throw e

/-- The settings for a call. -/
def configFor (environment : Environment) (call : Invocation) :
    m (Except Failure Config) := do
  match ← (usualConfig environment).run with
  | .error e => return .error ⟨none, e⟩
  | .ok config =>
    let (config, failed) ← match call.config with
      | none => pure (config, none)
      | some path => do
        let (config, refused) ← config.mergeFile path
        pure (config, refused.map (Failure.mk (some ("reading " ++ path))))
    match failed with
    | some failure => return .error failure
    | none =>
      return .ok { config with cacheDirectory := call.cacheDirectory <|> config.cacheDirectory }

/-- The module that an entry on the command line is: a specifier, or else a path. -/
def entrySpecifier (entry : String) : ExceptT LoadError m Specifier :=
  if ["http://", "https://", "file://"].any fun start => entry.startsWith start then
    ExceptT.mk (pure (Specifier.parse entry))
  else specifierOfPath entry

/-- What is shown of the modules that an entry imports. -/
def infoText (json : Bool) (linked : Linked Inspected) : String :=
  let report := linked.graph.report
  if json then jsonText report ++ "\n"
  else
    styled .bold "entry:" ++ " " ++ report.entry ++ "\n" ++
    styled .bold "modules:" ++ " " ++ toString report.modules.length ++ "\n" ++
    styled .bold "size:" ++ " " ++ sizeText report.size ++ "\n" ++
    styled .bold "loaded:" ++ " " ++ styled .dimmed linked.counts.summary ++ "\n\n" ++
    String.join ((treeLines report).map (·.text ++ "\n"))

/-- What is told of an entry that has been linked. -/
def cachedText (entry : String) (linked : Linked Inspected) : String :=
  let counts := linked.counts
  styled .green "Cached" ++ " " ++ styled .cyan entry ++ " (" ++ toString linked.graph.size ++
    " modules, " ++ toString counts.fetches ++ " downloaded, " ++ toString counts.cacheHits ++
    " already cached)\n"

/-- What is shown of a cache. -/
def listText (items : List Cache.Item) : String :=
  if items.isEmpty then styled .yellow "Cache is empty" ++ "\n"
  else
    String.join (items.map fun item =>
      styled .cyan item.specifier ++ " " ++ styled .dimmed (sizeText item.size) ++ "\n") ++
    "\n" ++ toString items.length ++ " modules, " ++ sizeText (Cache.totalSize items) ++ "\n"

/-- Links an entry on the command line. -/
def linkEntry (host : Host m) (entry : String) : ExceptT LoadError m (Linked Inspected) := do
  linkLocal Engine.inspector host (← entrySpecifier entry)

/-- Shows the modules that an entry imports. -/
def info (config : Config) (cacheDirectory entry : String) (json : Bool) :
    ExceptT LoadError m String := do
  let host ← openHost config cacheDirectory
  return infoText json (← linkEntry host entry)

/-- Links entries one after the other. -/
def cacheAll (host : Host m) : List String → m Written
  | [] => return ("", none)
  | entry :: more => do
    match ← (linkEntry host entry).run with
    | .error e => return ("", some ⟨none, e⟩)
    | .ok linked => do
      let (text, failure) ← cacheAll host more
      return (cachedText entry linked ++ text, failure)

/-- Lists the modules in a cache. -/
def list (cacheDirectory : String) : ExceptT LoadError m String := do
  let cache ← Cache.Store.create cacheDirectory
  return listText (← cache.entries)

/-- Makes a cache empty. -/
def clear (cacheDirectory : String) : ExceptT LoadError m String := do
  let cache ← Cache.Store.create cacheDirectory
  cache.clear
  return styled .green "Cache cleared" ++ "\n"

/-- Carries out a task. -/
def perform (config : Config) (cacheDirectory : String) : Task → m Written
  | .info entry json => do return written (← (info config cacheDirectory entry json).run)
  | .cache entries => do
    match ← (openHost config cacheDirectory).run with
    | .error e => return ("", some ⟨none, e⟩)
    | .ok host => cacheAll host entries
  | .list => do return written (← (list cacheDirectory).run)
  | .clear => do return written (← (clear cacheDirectory).run)
  | .directory => return (cacheDirectory ++ "\n", none)

/-- What a command comes to that has written something. -/
def outcomeOf : Written → Outcome
  | (text, none) => ⟨0, text, ""⟩
  | (text, some failure) => ⟨1, text, failure.text⟩

/-- How the program is called. -/
def usageText : String :=
  "Usage: spacey [OPTIONS] <COMMAND>\n\n" ++
  "Commands:\n" ++
  "  info <ENTRY> [--json]  Show the dependency tree of a module\n" ++
  "  cache <ENTRIES>...     Link modules, downloading remote dependencies into the cache\n" ++
  "  cache-list             List cached remote modules\n" ++
  "  cache-clear            Remove every cached module\n" ++
  "  cache-dir              Print the cache directory\n\n" ++
  "Options:\n" ++
  "  -v, --verbose          Enable verbose output\n" ++
  "      --config <FILE>    Read configuration from this file, after the default locations\n" ++
  "      --cache-dir <DIR>  Content cache directory\n"

/-- What a call comes to that is not carried out. -/
def refused : Refusal → Outcome
  | .help => ⟨0, usageText, ""⟩
  | .version program => ⟨0, program ++ " 0.1.0\n", ""⟩
  | .usage => ⟨2, "", usageText⟩

/-- What a call of the program comes to. -/
def run (environment : Environment) (arguments : List String) : m Outcome := do
  match Invocation.read (valueOf? environment "SPACEY_DENO_CACHE_DIR") arguments with
  | .error refusal => return refused refusal
  | .ok call =>
    match ← configFor environment call with
    | .error failure => return ⟨1, "", failure.text⟩
    | .ok config =>
      let directory := config.cacheDirectory.getD (usualCacheDirectory environment)
      return outcomeOf (← perform config directory call.task)

end ModuleLinker.Command
