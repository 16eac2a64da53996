import ModuleLinker.Link.Build
import ModuleLinker.Link.Pending

/-!
# Runs

The state of a run that links the modules an entry imports, and what each event does to it. Every
module is loaded once: whoever imports it first owns the load, and whoever imports it while it is
under way waits for the same load. A local module is read. A remote one is looked up in the cache and
else fetched, which takes a permit that is given back when the fetch ends. What has been loaded is
put into the graph before its own imports are looked at, so that a module can import itself.
-/

set_option autoImplicit false

namespace ModuleLinker.Link

/-- How far the load of a module has come. -/
inductive Phase where
  /-- The file is being read. -/
  | reading
  /-- The module is being looked up in the cache. -/
  | lookingUp
  /-- The fetch waits for a permit. -/
  | queued
  /-- The fetch has a permit, and the server has not been asked yet. -/
  | granted
  /-- The server has been asked at some time. -/
  | requested (since : Nat)
  /-- The body is being put into the cache; the outcome is settled already. -/
  | storing (body : String) (outcome : Except LoadError Unit)
  /-- The module has been loaded. -/
  | loaded
  /-- The module could not be loaded. -/
  | failed (e : LoadError)

/-- The permits to ask a server, for fetches that have tickets. -/
structure Permits (κ : Type) where
  /-- How many are left. -/
  free : Nat
  /-- The fetches that wait for one, the longest waiting first. -/
  queue : List κ
  deriving DecidableEq, Repr

namespace Permits

variable {κ : Type}

/-- The permits for some number of fetches at a time; there is always one. -/
def ofCap (cap : Nat) : Permits κ := ⟨max cap 1, []⟩

/-- Takes a permit, or waits for one; gives how far the fetch has come. -/
def acquire (p : Permits κ) (k : κ) : Phase × Permits κ :=
  if p.free = 0 then (.queued, { p with queue := p.queue ++ [k] })
  else (.granted, { p with free := p.free - 1 })

/-- Gives a permit back; gives the fetch that gets it. -/
def release (p : Permits κ) : Option κ × Permits κ :=
  match p.queue with
  | [] => (none, { p with free := p.free + 1 })
  | k :: more => (some k, { p with queue := more })

end Permits

/-- The state of a run. -/
structure Run (U : Type) where
  /-- The modules that have been loaded. -/
  graph : Graph U
  /-- How far the loads have come, in the order in which they were started. -/
  loads : List (Specifier × Phase)
  /-- What is not settled. -/
  pending : Pending
  /-- The permits to ask a server; the ticket of a fetch is its module. -/
  permits : Permits Specifier
  /-- The modules that are being read, looked up in the cache or put into it, in the order in which
  that was started. -/
  exchanges : List Specifier
  /-- What has been done. -/
  work : List Work
  /-- The failure that has ended the run. -/
  failure : Option LoadError
  /-- The time since the run was started. -/
  now : Nat

namespace Run

variable {U V : Type}

/-- How far the load of a module has come; `none` where it has not been started. -/
def phase? (run : Run U) (s : Specifier) : Option Phase := run.loads.lookup s

/-- Writes down work. -/
def note (run : Run U) (work : List Work) : Run U := { run with work := run.work ++ work }

/-- Changes how far the load of a module has come. -/
def setPhase (run : Run U) (s : Specifier) (phase : Phase) : Run U :=
  { run with loads := run.loads.map fun load => if load.1 == s then (s, phase) else load }

/-- Writes down that the run waits for the file system. -/
def exchange (run : Run U) (s : Specifier) : Run U :=
  { run with exchanges := run.exchanges ++ [s] }

/-- Writes down that the run does not wait for the file system any more. -/
def endExchange (run : Run U) (s : Specifier) : Run U :=
  { run with exchanges := run.exchanges.erase s }

/-- Adds a load that has come as far as a phase. -/
def addLoad (run : Run U) (s : Specifier) (phase : Phase) : Run U :=
  { run with loads := run.loads ++ [(s, phase)] }

/-- Starts to load a module. -/
def startLoad (run : Run U) (s : Specifier) : Run U :=
  if s.isLocal then ((run.addLoad s .reading).note [.read s]).exchange s
  else ((run.addLoad s .lookingUp).note [.lookUp s]).exchange s

/-- A run that has only got its entry to look after. -/
def initial (entry : Specifier) (cap : Nat) : Run U where
  graph := .empty entry
  loads := []
  pending := .waiting entry true .nil
  permits := .ofCap cap
  exchanges := []
  work := []
  failure := none
  now := 0

/-- Sets what is left to do, or the failure that ends the run. -/
def swept (run : Run U) : Except LoadError Pending → Run U
  | .ok pending => { run with pending := pending }
  | .error e => { run with failure := some e }

/-- Marks a module as linked. -/
def finish (s : Specifier) (g : Graph U) : Graph U := g.setState s .linked

/-- Marks a module of a run as linked, beside a flag. -/
def finishFlagged (s : Specifier) (state : Run U × Bool) : Run U × Bool :=
  ({ state.1 with graph := finish s state.1.graph }, state.2)

/-- What becomes of the first import that nothing has been done for, when it is the turn of that
import: a module in the graph is settled, a load under way is joined, and else one is started. The
flag tells whether the import has been met. -/
def startVisit : Task → Run U × Bool → Verdict × (Run U × Bool)
  | .idle s, (run, false) =>
    if run.graph.contains s then (.settled, (run, true))
    else
      match run.phase? s with
      | some (.failed e) => (.fail e, (run, true))
      | some _ => (.wait false, (run, true))
      | none => (.wait true, (run.startLoad s, true))
  | _, state => (.stay, state)

/-- Goes on to the first import that nothing has been done for. -/
def start (run : Run U) : Run U :=
  let (pending, (run, _)) := run.pending.sweep startVisit finishFlagged .eager (run, false)
  run.swept pending

/-- What becomes of an import whose module has been loaded. The owner of the load goes on with the
imports of the module. -/
def deliverVisit (engine : Engine U V) (s : Specifier) (result : Except LoadError (Record U)) :
    Task → Graph U → Verdict × Graph U
  | .waiting s' owner, g =>
    if s' = s then
      match result with
      | .error e => (.fail e, g)
      | .ok record =>
        let g := g.insert record
        if owner then
          match importsOf engine record with
          | .error e => (.fail e, g)
          | .ok imports => (.link imports, g.setDependencies s imports)
        else (.settled, g)
    else (.stay, g)
  | .idle _, g => (.stay, g)

/-- Brings the outcome of a load to whoever waits for it. -/
def deliver (engine : Engine U V) (run : Run U) (s : Specifier)
    (result : Except LoadError (Record U)) : Run U :=
  let (pending, graph) :=
    run.pending.sweep (deliverVisit engine s result) finish .eager run.graph
  { run with graph := graph }.swept pending

/-- The end of a load that failed. -/
def fail (engine : Engine U V) (run : Run U) (s : Specifier) (e : LoadError) : Run U :=
  (run.setPhase s (.failed e)).deliver engine s (.error e)

/-- The end of a load that got a source. -/
def obtain (engine : Engine U V) (run : Run U) (s : Specifier) (source : String) : Run U :=
  let (record, work) := build engine s (s == run.graph.entry) source
  let run := run.note work
  match record with
  | .error e => run.fail engine s e
  | .ok record => (run.setPhase s .loaded).deliver engine s (.ok record)

/-- The end of a load, however it ends. -/
def conclude (engine : Engine U V) (run : Run U) (s : Specifier) :
    Except LoadError String → Run U
  | .ok source => run.obtain engine s source
  | .error e => run.fail engine s e

/-- A run for an entry whose source is given or has to be loaded. -/
def begin (engine : Engine U V) (entry : Specifier) (source : Option String) (cap : Nat) : Run U :=
  let run := initial entry cap
  match source with
  | some source => run.obtain engine entry source
  | none => run.startLoad entry

/-- Gives a permit back; the longest waiting fetch gets it. -/
def release (run : Run U) : Run U :=
  let (next, permits) := run.permits.release
  let run := { run with permits := permits }
  match next with
  | some s => run.setPhase s .granted
  | none => run

/-- The local module has been read. -/
def readDone (engine : Engine U V) (run : Run U) (s : Specifier)
    (answer : Except LoadError String) : Run U := (run.endExchange s).conclude engine s answer

/-- The module has been looked up in the cache. -/
def lookedUp (engine : Engine U V) (run : Run U) (s : Specifier)
    (answer : Except LoadError (Option String)) : Run U :=
  let run := run.endExchange s
  match answer with
  | .error e => run.fail engine s e
  | .ok (some source) => (run.note [.hit s]).obtain engine s source
  | .ok none =>
    let (phase, permits) := run.permits.acquire s
    ({ run with permits := permits }.note [.fetch s]).setPhase s phase

/-- The server is asked for a module. -/
def request (run : Run U) (s : Specifier) : Run U :=
  (run.note [.get s]).setPhase s (.requested run.now)

/-- The fetch of a module has failed. -/
def fetchFailed (engine : Engine U V) (run : Run U) (s : Specifier) (e : LoadError) : Run U :=
  run.release.fail engine s e

/-- The server has sent a module, and putting it into the cache has had some outcome. -/
def received (run : Run U) (s : Specifier) (body : String) (outcome : Except LoadError Unit) :
    Run U := (run.exchange s).setPhase s (.storing body outcome)

/-- The module has been put into the cache. -/
def stored (engine : Engine U V) (run : Run U) (s : Specifier) (body : String)
    (outcome : Except LoadError Unit) : Run U :=
  ((run.endExchange s).release).conclude engine s (outcome.map fun _ => body)

end Run

end ModuleLinker.Link
