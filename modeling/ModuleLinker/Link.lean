import ModuleLinker.Link.Drive

/-!
# Linking

Linking the modules that an entry imports, directly or through others, on a host; and fetching a
single module.
-/

set_option autoImplicit false

namespace ModuleLinker

open Files Link

variable {U V : Type} {m : Type → Type} [Monad m] [Disk m]

/-- Links the modules that an entry imports. The source of the entry is loaded unless it is given.
The run is given up after some time, or else after some number of events. -/
def link (engine : Engine U V) (host : Host m) (events : Nat) (entry : Specifier)
    (source : Option String) (giveUp : Option Nat) : m (Except LoadError (Linked U)) :=
  (Run.begin engine entry source host.maxFetches).drive engine host giveUp events

/-- Fetches a remote module and puts it into the cache, whether or not the cache has it. -/
def fetch (host : Host m) (s : Specifier) : ExceptT LoadError m String := do
  if s.isLocal then throw (.malformedSpecifier s.text "" "not a network specifier")
  let reply := host.reply s
  match reply.outcome? s host.timeout (reply.duration host.timeout) with
  | some (.ok body) =>
    host.cache.put s body
    return body
  | some (.error e) => throw e
  | none => throw .aborted

end ModuleLinker
