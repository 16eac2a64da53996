import ModuleLinker.Config
import ModuleLinker.Link

/-!
# Linking on a file system

The host whose local modules are the files of a file system, set up as the settings say. There is no
way to a server from it, so remote modules have to be in the cache.
-/

set_option autoImplicit false

namespace ModuleLinker.Link

open Files Cache

variable {m : Type → Type} [Monad m] [Disk m]

/-- The source of a local module. -/
def readFile (s : Specifier) : m (Except LoadError String) := do
  match s.filePathText with
  | .error e => return .error e
  | .ok path =>
    match ← readText path with
    | .ok source => return .ok source
    | .error .notFound => return .error (.localNotFound s.text path)
    | .error fault => return .error (.io path fault)

/-- Whether a byte may stand in what a loader calls itself. -/
def isHeaderByte (b : UInt8) : Bool := b = 9 || (32 ≤ b && b != 127)

/-- Refuses what a loader cannot call itself. -/
def checkUserAgent (name : String) : Except LoadError Unit :=
  if name.toUTF8.toList.all isHeaderByte then .ok ()
  else .error (.config
    "failed to build HTTP client: builder error: failed to parse header value")

/-- What comes of asking a server. -/
def unreachable : Reply := .after 0 (.error "no server can be reached")

/-- The host that the settings say, with its cache in a directory. -/
def openHost (config : Config) (cacheDirectory : String) : ExceptT LoadError m (Host m) := do
  let cache ← Store.create cacheDirectory
  checkUserAgent config.userAgent
  return {
    read := readFile
    readsAtOnce := false
    reply := fun _ => unreachable
    timeout := 1000 * config.fetchTimeout
    maxFetches := config.maxFetches
    cache := cache }

/-- More events than a run on a file system has, whose paths are limited in length. -/
def manyEvents : Nat := Nat.pow 2 40

/-- Links the modules that an entry imports. -/
def linkLocal {U V : Type} (engine : Engine U V) (host : Host m) (entry : Specifier) :
    ExceptT LoadError m (Linked U) :=
  ExceptT.mk (ModuleLinker.link engine host manyEvents entry none none)

/-- The specifier of a path, which may start from the working directory. -/
def specifierOfPath (path : String) : ExceptT LoadError m Specifier := do
  let directory ← (Disk.workingDirectory : m String)
  Specifier.ofPath (join directory path)

/-- Links the modules that a local file imports. -/
def linkFile {U V : Type} (engine : Engine U V) (host : Host m) (path : String) :
    ExceptT LoadError m (Linked U) := do
  linkLocal engine host (← specifierOfPath path)

/-- Links the modules that a local file imports, and runs it. -/
def runFile {U V : Type} (engine : Engine U V) (host : Host m) (path : String) :
    ExceptT LoadError m V := do
  engine.evaluateEntry (← linkFile engine host path).graph

end ModuleLinker.Link
