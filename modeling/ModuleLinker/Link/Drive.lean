import ModuleLinker.Cache.Store
import ModuleLinker.Link.Reply
import ModuleLinker.Link.Run

/-!
# Driving a run

Which event comes next in a run on a host, and the loop that brings the events about. What goes on
between the run and the file system takes no time, but comes after everything that can be done at
once, in the order in which it was started. A host can have local modules at hand, though: then they
are read at once, depth first, in the order of the imports. Only when nothing else is left does time
go on, to the next reply or deadline.
-/

set_option autoImplicit false

namespace ModuleLinker.Link

open Files Cache

/-- What a run is linked on. -/
structure Host (m : Type → Type) where
  /-- Reads a local module. -/
  read : Specifier → m (Except LoadError String)
  /-- Whether local modules are read at once. -/
  readsAtOnce : Bool
  /-- What comes of asking the server of a remote module. -/
  reply : Specifier → Reply
  /-- How long a fetch may take, in milliseconds. -/
  timeout : Nat
  /-- How many fetches may be under way. -/
  maxFetches : Nat
  /-- The cache of remote modules. -/
  cache : Store

/-- The next event of a run. -/
inductive Action where
  /-- The first import that nothing has been done for is looked after. -/
  | start
  /-- A local module is read. -/
  | read (s : Specifier)
  /-- The server is asked for a module. -/
  | request (s : Specifier)
  /-- The fetch of a module has come to its end at the server. -/
  | reply (s : Specifier) (outcome : Except LoadError String)
  /-- A module is looked up in the cache. -/
  | lookUp (s : Specifier)
  /-- A module has been put into the cache. -/
  | store (s : Specifier) (body : String) (outcome : Except LoadError Unit)
  /-- Time goes on. -/
  | sleep (time : Nat)
  /-- Everything is linked. -/
  | done
  /-- The run has failed. -/
  | fail (e : LoadError)
  /-- The run is given up. -/
  | abort
  /-- Nothing will ever happen. -/
  | stuck

/-- What a run has linked. -/
structure Linked (U : Type) where
  /-- The modules. -/
  graph : Graph U
  /-- The work of linking them. -/
  work : List Work

/-- The counts of the work of a run. -/
def Linked.counts {U : Type} (linked : Linked U) : Counts := .ofWork linked.work

namespace Run

variable {U V : Type} {m : Type → Type}

/-- What can be done at once about an import. -/
def taskAction? (host : Host m) (run : Run U) : Task → Option Action
  | .idle _ => some .start
  | .waiting s _ =>
    match run.phase? s with
    | some .reading => if host.readsAtOnce then some (.read s) else none
    | some .granted => some (.request s)
    | some (.requested since) =>
      ((host.reply s).outcome? s host.timeout (run.now - since)).map (.reply s)
    | _ => none

/-- What comes next between the run and the file system for a module that is waited for. -/
def exchangeAction? (run : Run U) (s : Specifier) : Option Action :=
  if run.pending.awaited.contains s then
    match run.phase? s with
    | some .reading => some (.read s)
    | some .lookingUp => some (.lookUp s)
    | some (.storing body outcome) => some (.store s body outcome)
    | _ => none
  else none

/-- When the fetch of a module comes to its end. -/
def wakeTime? (host : Host m) (run : Run U) (s : Specifier) : Option Nat :=
  match run.phase? s with
  | some (.requested since) => some (since + (host.reply s).duration host.timeout)
  | _ => none

/-- The time at which the next thing happens. -/
def nextTime? (host : Host m) (giveUp : Option Nat) (run : Run U) : Option Nat :=
  (run.pending.awaited.filterMap (run.wakeTime? host) ++ giveUp.toList).min?

/-- The next event of a run that is given up after some time. -/
def next (host : Host m) (giveUp : Option Nat) (run : Run U) : Action :=
  match run.failure, run.pending with
  | some e, _ => .fail e
  | none, .nil => .done
  | none, pending =>
    match pending.tasks.findSome? (run.taskAction? host) with
    | some action => action
    | none =>
      if giveUp.any (· ≤ run.now) then .abort
      else
        match run.exchanges.findSome? run.exchangeAction? with
        | some action => action
        | none =>
          match run.nextTime? host giveUp with
          | some time => .sleep time
          | none => .stuck

variable [Monad m] [Disk m]

/-- Brings the events of a run about, up to some number of them. -/
def drive (engine : Engine U V) (host : Host m) (giveUp : Option Nat) :
    Nat → Run U → m (Except LoadError (Linked U))
  | 0, _ => return .error .aborted
  | steps + 1, run =>
    match run.next host giveUp with
    | .start => drive engine host giveUp steps run.start
    | .read s => do
      drive engine host giveUp steps (run.readDone engine s (← host.read s))
    | .request s => drive engine host giveUp steps (run.request s)
    | .reply s (.ok body) => do
      drive engine host giveUp steps (run.received s body (← host.cache.put s body))
    | .reply s (.error e) => drive engine host giveUp steps (run.fetchFailed engine s e)
    | .lookUp s => do
      drive engine host giveUp steps (run.lookedUp engine s (← host.cache.get s))
    | .store s body outcome =>
      drive engine host giveUp steps (run.stored engine s body outcome)
    | .sleep time => drive engine host giveUp steps { run with now := max time run.now }
    | .done => return .ok ⟨run.graph, run.work⟩
    | .fail e => return .error e
    | .abort | .stuck => return .error .aborted

end Run

end ModuleLinker.Link
