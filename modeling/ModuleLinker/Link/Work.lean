import ModuleLinker.Specifier

/-!
# The work of a run

What a run has done so far, one entry for each access to the host and each call of the engine, and
the counts that are told of it.
-/

set_option autoImplicit false

namespace ModuleLinker.Link

/-- One piece of work, for one module. -/
inductive Work where
  /-- The local module is read. -/
  | read (s : Specifier)
  /-- The module is looked up in the cache. -/
  | lookUp (s : Specifier)
  /-- The cache has the module. -/
  | hit (s : Specifier)
  /-- The module has to be fetched. -/
  | fetch (s : Specifier)
  /-- The server is asked for the module. -/
  | get (s : Specifier)
  /-- The types of the module are erased. -/
  | transpile (s : Specifier)
  /-- The engine is asked to compile the module. -/
  | compile (s : Specifier)
  /-- The engine has compiled the module. -/
  | compiled (s : Specifier)
  deriving DecidableEq, Repr

namespace Work

/-- Whether a local module is read. -/
def isRead : Work → Bool
  | read _ => true
  | _ => false

/-- Whether a module is found in the cache. -/
def isHit : Work → Bool
  | hit _ => true
  | _ => false

/-- Whether a module has to be fetched. -/
def isFetch : Work → Bool
  | fetch _ => true
  | _ => false

/-- Whether the types of a module are erased. -/
def isTranspile : Work → Bool
  | transpile _ => true
  | _ => false

/-- Whether a module has been compiled. -/
def isCompiled : Work → Bool
  | compiled _ => true
  | _ => false

/-- How an access to the host is written down; other work is none. -/
def access? : Work → Option String
  | read s => some ("read " ++ s.text)
  | get s => some ("get " ++ s.text)
  | _ => none

/-- The module that the engine is asked to compile. -/
def compiling? : Work → Option String
  | compile s => some s.text
  | _ => none

end Work

/-- How often a run did what. -/
structure Counts where
  /-- Local modules read. -/
  localReads : Nat
  /-- Remote modules found in the cache. -/
  cacheHits : Nat
  /-- Remote modules that had to be fetched. -/
  fetches : Nat
  /-- Modules whose types were erased. -/
  transpiles : Nat
  /-- Modules compiled. -/
  compiled : Nat
  deriving DecidableEq, Repr

namespace Counts

/-- The counts of some work. -/
def ofWork (work : List Work) : Counts where
  localReads := work.countP (·.isRead)
  cacheHits := work.countP (·.isHit)
  fetches := work.countP (·.isFetch)
  transpiles := work.countP (·.isTranspile)
  compiled := work.countP (·.isCompiled)

/-- The counts in one line. -/
def summary (c : Counts) : String :=
  toString c.localReads ++ " local, " ++ toString c.cacheHits ++ " cached, " ++
    toString c.fetches ++ " fetched, " ++ toString c.transpiles ++ " transpiled"

end Counts

end ModuleLinker.Link
