import Mathlib.Data.List.Basic
import ModuleLinker.Link

/-!
# The events of a run

What can happen to a run that has not ended, in whatever order: an import is looked after, a file has
been read, the cache or a server has answered, a body has been stored, time goes on. `Run.Occurs` says
when an event is possible and what it does; the answers in events are arbitrary. `Run.Leads` is a
sequence of events.

The loop that brings events about in one particular order is an instance: whatever
`Run.drive` comes to on a host, it comes to by events (`Run.drive_leads`).
-/

set_option autoImplicit false

namespace ModuleLinker.Link

open Files

deriving instance DecidableEq for Phase

/-- What can happen to a run. -/
inductive Event where
  /-- The first import that nothing has been done for is looked after. -/
  | start
  /-- A local module has been read, with an answer. -/
  | read (s : Specifier) (answer : Except LoadError String)
  /-- A module has been looked up in the cache, with an answer. -/
  | lookUp (s : Specifier) (answer : Except LoadError (Option String))
  /-- The server is asked for a module. -/
  | request (s : Specifier)
  /-- The fetch of a module has come to its end at the server, and putting the body into the cache
  will have an outcome. -/
  | reply (s : Specifier) (answer : Except LoadError String) (outcome : Except LoadError Unit)
  /-- A module has been put into the cache. -/
  | store (s : Specifier)
  /-- Time goes on. -/
  | wait (time : Nat)

namespace Run

variable {U V : Type}

/-- Whether a module is waited for whose load has come as far as a phase. -/
def Awaits (run : Run U) (s : Specifier) (phase : Phase) : Prop :=
  s ∈ run.pending.awaited ∧ run.phase? s = some phase

/-- The events that are possible in a run, and the run after them. Only what somebody waits for goes
on. -/
inductive Occurs (engine : Engine U V) (run : Run U) : Event → Run U → Prop
  | start {s : Specifier} (idle : Task.idle s ∈ run.pending.tasks) :
      Occurs engine run .start run.start
  | read {s : Specifier} {answer : Except LoadError String} (awaits : run.Awaits s .reading) :
      Occurs engine run (.read s answer) (run.readDone engine s answer)
  | lookUp {s : Specifier} {answer : Except LoadError (Option String)}
      (awaits : run.Awaits s .lookingUp) :
      Occurs engine run (.lookUp s answer) (run.lookedUp engine s answer)
  | request {s : Specifier} (awaits : run.Awaits s .granted) :
      Occurs engine run (.request s) (run.request s)
  | receive {s : Specifier} {since : Nat} {body : String} {outcome : Except LoadError Unit}
      (awaits : run.Awaits s (.requested since)) :
      Occurs engine run (.reply s (.ok body) outcome) (run.received s body outcome)
  | refuse {s : Specifier} {since : Nat} {e : LoadError} {outcome : Except LoadError Unit}
      (awaits : run.Awaits s (.requested since)) :
      Occurs engine run (.reply s (.error e) outcome) (run.fetchFailed engine s e)
  | store {s : Specifier} {body : String} {outcome : Except LoadError Unit}
      (awaits : run.Awaits s (.storing body outcome)) :
      Occurs engine run (.store s) (run.stored engine s body outcome)
  | wait {time : Nat} : Occurs engine run (.wait time) { run with now := max time run.now }

/-- The events that lead from one run to another. Nothing happens to a run that has failed. -/
inductive Leads (engine : Engine U V) : Run U → List Event → Run U → Prop
  | nil (run : Run U) : Leads engine run [] run
  | cons {run next last : Run U} {event : Event} {events : List Event} (going : run.failure = none)
      (occurs : run.Occurs engine event next) (more : Leads engine next events last) :
      Leads engine run (event :: events) last

variable {engine : Engine U V}

/-- What every event keeps is kept by all events together. -/
theorem Leads.keeps {P : Run U → Prop} {run last : Run U} {events : List Event}
    (h : Leads engine run events last)
    (step : ∀ {run event next}, run.failure = none → run.Occurs engine event next → P run → P next)
    (start : P run) : P last := by
  induction h with
  | nil => exact start
  | cons going occurs _ ih => exact ih (step going occurs start)

/-- What every event keeps, of a run and of the events so far, is kept by all events together. -/
theorem Leads.keepsEvents {P : List Event → Run U → Prop} {run last : Run U} {events : List Event}
    (h : Leads engine run events last)
    (step : ∀ {done run event next}, run.failure = none → run.Occurs engine event next →
      P done run → P (done ++ [event]) next) {done : List Event} (start : P done run) :
    P (done ++ events) last := by
  induction h generalizing done with
  | nil =>
    rw [List.append_nil]
    exact start
  | cons going occurs _ ih =>
    have rest := ih (step going occurs start)
    rw [List.append_assoc] at rest
    exact rest

/-- Events can be followed by others. -/
theorem Leads.append {run middle last : Run U} {events more : List Event}
    (first : Leads engine run events middle) (second : Leads engine middle more last) :
    Leads engine run (events ++ more) last := by
  induction first with
  | nil => exact second
  | cons going occurs _ ih => exact .cons going occurs (ih second)

/-- A run in which everything is linked. -/
def Succeeded (run : Run U) : Prop := run.failure = none ∧ run.pending = .nil

/-- A run from an entry, with its source given or not, that some events have led to. -/
def Reached (engine : Engine U V) (entry : Specifier) (source : Option String) (cap : Nat)
    (events : List Event) (run : Run U) : Prop :=
  Leads engine (Run.begin engine entry source cap) events run

/-! ## A run -/

/-- A local module right below the root. -/
def rootModule (name : String) : Specifier :=
  ⟨.file, Specifier.noAuthority, '/' :: name.toList, none⟩

/-- The run in which two modules that import each other are linked. -/
def cycleRun : Run Inspected :=
  ((begin Engine.inspector (rootModule "a.js") (some "import './b.js';") 1).start.readDone
    Engine.inspector (rootModule "b.js") (.ok "import './a.js';")).start

/-- Two modules that import each other are linked by three events. -/
theorem reached_cycleRun :
    Reached Engine.inspector (rootModule "a.js") (some "import './b.js';") 1
      [.start, .read (rootModule "b.js") (.ok "import './a.js';"), .start] cycleRun :=
  .cons (by decide +kernel) (.start (s := rootModule "b.js") (by decide +kernel))
    (.cons (by decide +kernel)
      (.read (s := rootModule "b.js") ⟨by decide +kernel, by decide +kernel⟩)
      (.cons (by decide +kernel) (.start (s := rootModule "a.js") (by decide +kernel)) (.nil _)))

theorem succeeded_cycleRun : cycleRun.Succeeded := ⟨by decide +kernel, by decide +kernel⟩

end Run

end ModuleLinker.Link
