import ModuleLinker.Files.Volume
import ModuleLinker.Link

/-!
# Hosts in memory

A host whose local modules and replies are listed by specifier. A specifier that is not listed has no
file, and servers answer 404 for it. The sources that a run can come across are listed too, so their
imports bound the number of events of the run.
-/

set_option autoImplicit false

namespace ModuleLinker.Link

open Files

/-- A host in memory. -/
structure MemoryHost where
  /-- The sources of the local modules, by specifier. -/
  files : List (String × String)
  /-- The replies of servers, by specifier. -/
  replies : List (String × Reply)
  /-- How long a fetch may take, in milliseconds. -/
  timeout : Nat
  /-- How many fetches may be under way. -/
  maxFetches : Nat
  /-- The cache of remote modules. -/
  cache : Cache.Store

namespace MemoryHost

/-- What comes of asking for a module that no server has. -/
def notServed : Reply := .after 0 (.ok ⟨404, ""⟩)

/-- A list with a value for a key, instead of the one that was there. -/
def assign {α : Type} (entries : List (String × α)) (key : String) (value : α) :
    List (String × α) := (key, value) :: entries.filter (·.1 != key)

/-- The source of a local module. -/
def read (h : MemoryHost) (s : Specifier) : Except LoadError String :=
  match h.files.lookup s.text with
  | some source => .ok source
  | none => .error (.localNotFound s.text s.pathText)

/-- The host, on which modules are linked. -/
def toHost (h : MemoryHost) : Host (StateM Volume) where
  read s := return h.read s
  readsAtOnce := true
  reply s := (h.replies.lookup s.text).getD notServed
  timeout := h.timeout
  maxFetches := h.maxFetches
  cache := h.cache

/-- The sources that servers send. -/
def bodies (h : MemoryHost) : List (String × String) :=
  h.replies.filterMap fun
    | (key, .after _ (.ok response)) => some (key, response.body)
    | _ => none

/-- The sources in a cache. -/
def cached (h : MemoryHost) (v : Volume) : List (String × String) :=
  match v.locate h.cache.base with
  | .error _ => []
  | .ok place => v.entries.filterMap fun
    | (names, .file content) => do
      let key ← Cache.decodeKey? (← Volume.namesFrom? place names)
      return (key, ← (textOf content).toOption)
    | (_, .directory) => none

variable {U V : Type}

/-- The number of modules that a source imports, as the source of a module. -/
def importCount (engine : Engine U V) (s : Specifier) (source : String) : Nat :=
  match (build engine s false source).1 with
  | .error _ => 0
  | .ok record =>
    match importsOf engine record with
    | .error _ => 0
    | .ok imports => imports.length

/-- The number of imports of listed sources. -/
def importTotal (engine : Engine U V) (sources : List (String × String)) : Nat :=
  let count (key source : String) : Nat :=
    match Specifier.parse key with
    | .ok s => importCount engine s source
    | .error _ => 0
  sources.foldr (fun (key, source) total => count key source + total) 0

/-- How many events there are at most for one load and for one import. -/
def eventsEach : Nat := 16

/-- A bound for the number of events of a run. -/
def eventBound (h : MemoryHost) (engine : Engine U V) (entry : Specifier)
    (source : Option String) (v : Volume) : Nat :=
  let given := source.toList.map (entry.text, ·)
  eventsEach * (importTotal engine (given ++ h.files ++ h.bodies ++ h.cached v) + 2)

/-- Links the modules that an entry imports. -/
def link (h : MemoryHost) (engine : Engine U V) (entry : Specifier) (source : Option String)
    (giveUp : Option Nat) : StateM Volume (Except LoadError (Linked U)) := do
  let events := h.eventBound engine entry source (← get)
  ModuleLinker.link engine h.toHost events entry source giveUp

end MemoryHost

end ModuleLinker.Link
