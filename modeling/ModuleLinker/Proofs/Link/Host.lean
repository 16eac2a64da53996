import ModuleLinker.Proofs.Cache.Store
import ModuleLinker.Proofs.Link.Event
import ModuleLinker.Proofs.Link.Loads

/-!
# Runs on a host

The events of a run on a host, in whatever order (`Host.Leads`): files, servers and the cache give the
answers that they have at the time, and the clock does not skip the deadline of a fetch whose reply
will be late.
-/

set_option autoImplicit false

namespace ModuleLinker.Link

open Files Cache

variable {U V : Type}

/-! ## Replies -/

/-- What arrives from a server before the deadline of a fetch. -/
def Reply.arrives? (timeout : Nat) : Reply → Option (Except String Response)
  | .hang => none
  | .after delay answer => if delay ≤ timeout then some answer else none

/-- What a fetch comes to. -/
def Reply.settled (s : Specifier) (timeout : Nat) (reply : Reply) : Except LoadError String :=
  match reply.arrives? timeout with
  | some answer => accept s answer
  | none => .error (timedOut s timeout)

/-- Whether a reply is still to come when it has been waited for some time, unless it arrives before
the deadline. -/
def Reply.IsAhead (timeout elapsed : Nat) (reply : Reply) : Prop :=
  ∀ delay answer, reply = .after delay answer → timeout < delay → elapsed < delay

/-- A fetch comes to the same, whenever its outcome is noticed before a late reply arrives. -/
theorem Reply.settled_of_outcome? {s : Specifier} {timeout elapsed : Nat} {reply : Reply}
    {answer : Except LoadError String} (ahead : reply.IsAhead timeout elapsed)
    (outcome : reply.outcome? s timeout elapsed = some answer) : answer = reply.settled s timeout := by
  unfold Reply.settled
  cases reply with
  | hang =>
    rw [outcome?] at outcome
    split at outcome
    · exact (Option.some.inj outcome).symm
    · cases outcome
  | after delay found =>
    rw [outcome?] at outcome
    rw [arrives?]
    by_cases late : timeout < delay
    · have early := ahead delay found rfl late
      rw [if_neg (by omega)] at outcome ⊢
      split at outcome
      · exact (Option.some.inj outcome).symm
      · cases outcome
    · rw [if_pos (by omega)]
      split at outcome
      · exact (Option.some.inj outcome).symm
      · rw [if_neg (by omega)] at outcome
        cases outcome

/-- A fetch has come to something after as long as it takes. -/
theorem Reply.outcome?_duration (s : Specifier) {timeout elapsed : Nat} {reply : Reply}
    (enough : reply.duration timeout ≤ elapsed) :
    ∃ answer, reply.outcome? s timeout elapsed = some answer := by
  cases reply with
  | hang =>
    rw [duration] at enough
    exact ⟨_, if_pos enough⟩
  | after delay answer =>
    rw [duration] at enough
    rw [outcome?]
    split
    · exact ⟨_, rfl⟩
    · rw [if_pos (by omega)]
      exact ⟨_, rfl⟩

/-- A fetch that has come to something has taken as long as it takes. -/
theorem Reply.duration_le {s : Specifier} {timeout elapsed : Nat} {reply : Reply}
    {answer : Except LoadError String} (outcome : reply.outcome? s timeout elapsed = some answer) :
    reply.duration timeout ≤ elapsed := by
  cases reply with
  | hang =>
    rw [outcome?] at outcome
    split at outcome
    case isTrue late => exact late
    case isFalse => cases outcome
  | after delay found =>
    rw [outcome?] at outcome
    rw [duration]
    split at outcome
    case isTrue late => exact (Nat.min_le_left ..).trans late
    case isFalse =>
      split at outcome
      case isTrue late => exact (Nat.min_le_right ..).trans late
      case isFalse => cases outcome

/-- While a fetch has not come to anything, its reply is still to come. -/
theorem Reply.isAhead_of_outcome? {s : Specifier} {timeout elapsed : Nat} {reply : Reply}
    (none : reply.outcome? s timeout elapsed = .none) : reply.IsAhead timeout elapsed := by
  rintro delay answer rfl -
  by_contra passed
  rw [outcome?, if_pos (by omega)] at none
  cases none

/-- A late reply is still to come at the deadline. -/
theorem Reply.isAhead_of_le {timeout elapsed : Nat} {reply : Reply}
    (early : elapsed ≤ reply.duration timeout) : reply.IsAhead timeout elapsed := by
  rintro delay answer rfl late
  rw [duration] at early
  omega

/-! ## Events on a host -/

namespace Host

/-- Whether every reply that is waited for in a run is still to come at some time, unless it arrives
before the deadline. -/
def IsPrompt (host : Host (StateM Volume)) (run : Run U) (time : Nat) : Prop :=
  ∀ s since, run.Awaits s (.requested since) →
    (host.reply s).IsAhead host.timeout (time - since)

/-- The events that a host can bring about in a run, and what becomes of the file system. -/
inductive Allows (host : Host (StateM Volume)) (run : Run U) (v : Volume) : Event → Volume → Prop
  | start : Allows host run v .start v
  | read {s : Specifier} {answer : Except LoadError String} {w : Volume}
      (given : host.read s v = (answer, w)) : Allows host run v (.read s answer) w
  | lookUp {s : Specifier} {answer : Except LoadError (Option String)} {w : Volume}
      (given : (host.cache.get s : ExceptT LoadError (StateM Volume) _) v = (answer, w)) :
      Allows host run v (.lookUp s answer) w
  | request {s : Specifier} : Allows host run v (.request s) v
  | receive {s : Specifier} {since : Nat} {body : String} {outcome : Except LoadError Unit}
      {w : Volume} (requested : run.phase? s = some (.requested since))
      (arrived : (host.reply s).outcome? s host.timeout (run.now - since) = some (.ok body))
      (put : (host.cache.put s body : ExceptT LoadError (StateM Volume) _) v = (outcome, w)) :
      Allows host run v (.reply s (.ok body) outcome) w
  | refuse {s : Specifier} {since : Nat} {e : LoadError} {outcome : Except LoadError Unit}
      (requested : run.phase? s = some (.requested since))
      (arrived : (host.reply s).outcome? s host.timeout (run.now - since) = some (.error e)) :
      Allows host run v (.reply s (.error e) outcome) v
  | store {s : Specifier} : Allows host run v (.store s) v
  | wait {time : Nat} (prompt : host.IsPrompt run (max time run.now)) :
      Allows host run v (.wait time) v

/-- Whether reading local modules leaves the file system as it is. -/
def OnlyReads (host : Host (StateM Volume)) : Prop := ∀ s v, (host.read s v).2 = v

/-- The text that is put into the cache in an event, and the module that it is put there for. -/
def text? : Event → Option (Specifier × String)
  | .reply s (.ok text) _ => some (s, text)
  | _ => none

/-- The events that lead from one run on a host to another. -/
inductive Leads (engine : Engine U V) (host : Host (StateM Volume)) :
    Run U → Volume → List Event → Run U → Volume → Prop
  | nil (run : Run U) (v : Volume) : Leads engine host run v [] run v
  | cons {run next last : Run U} {v w u : Volume} {event : Event} {events : List Event}
      (going : run.failure = none) (occurs : run.Occurs engine event next)
      (allows : host.Allows run v event w) (more : Leads engine host next w events last u) :
      Leads engine host run v (event :: events) last u

/-- A run on a host from an entry, with its source given or not, that some events have led to, and what
has become of the file system. -/
def Reached (engine : Engine U V) (host : Host (StateM Volume)) (entry : Specifier)
    (given : Option String) (v : Volume) (events : List Event) (run : Run U) (w : Volume) : Prop :=
  Leads engine host (Run.begin engine entry given host.maxFetches) v events run w

/-- A run on a host to which nothing can happen any more but that time goes on. -/
def Ended (engine : Engine U V) (host : Host (StateM Volume)) (run : Run U) (v : Volume) : Prop :=
  ∀ events last w, Leads engine host run v events last w →
    ∀ event ∈ events, ∃ time, event = .wait time

variable {engine : Engine U V} {host : Host (StateM Volume)} {run next last : Run U}
  {u v w : Volume} {events : List Event}

/-- What an event of a run makes of the file system: a text that a server has sent is put into the
cache, or nothing. -/
theorem Allows.puts {event : Event} (reads : host.OnlyReads) (allows : host.Allows run v event w) :
    (text? event = none ∧ w = v) ∨
      ∃ s since text outcome, event = .reply s (.ok text) outcome ∧
        run.phase? s = some (.requested since) ∧
        (host.reply s).outcome? s host.timeout (run.now - since) = some (.ok text) ∧
        (host.cache.put s text : ExceptT LoadError (StateM Volume) Unit) v = (outcome, w) := by
  cases allows with
  | start => exact .inl ⟨rfl, rfl⟩
  | request => exact .inl ⟨rfl, rfl⟩
  | store => exact .inl ⟨rfl, rfl⟩
  | wait => exact .inl ⟨rfl, rfl⟩
  | refuse => exact .inl ⟨rfl, rfl⟩
  | @read s answer _ given =>
    have same := reads s v
    rw [given] at same
    exact .inl ⟨rfl, same⟩
  | @lookUp s answer _ given =>
    rw [Store.get_apply] at given
    exact .inl ⟨rfl, (Prod.mk.inj given).2.symm⟩
  | @receive s since text outcome _ requested arrived put =>
    exact .inr ⟨s, since, text, outcome, rfl, requested, arrived, put⟩

/-- The events on a host are events. -/
theorem Leads.toLeads (h : Leads engine host run v events last w) :
    Run.Leads engine run events last := by
  induction h with
  | nil => exact .nil _
  | cons going occurs _ _ ih => exact .cons going occurs ih

theorem Reached.toReached {entry : Specifier} {given : Option String}
    (h : Reached engine host entry given v events run w) :
    Run.Reached engine entry given host.maxFetches events run := h.toLeads

/-- What every event on a host keeps is kept by all events together. -/
theorem Leads.keepsEvents {P : List Event → Run U → Volume → Prop}
    (h : Leads engine host run v events last w)
    (step : ∀ {done run v event next w}, run.failure = none → run.Occurs engine event next →
      host.Allows run v event w → P done run v → P (done ++ [event]) next w)
    {done : List Event} (start : P done run v) : P (done ++ events) last w := by
  induction h generalizing done with
  | nil =>
    rw [List.append_nil]
    exact start
  | cons going occurs allows _ ih =>
    have rest := ih (step going occurs allows start)
    rw [List.append_assoc] at rest
    exact rest

/-- Events on a host can be followed by one more. -/
theorem Leads.concat {event : Event} (h : Leads engine host run v events last w)
    (going : last.failure = none) (occurs : last.Occurs engine event next)
    (allows : host.Allows last w event u) : Leads engine host run v (events ++ [event]) next u := by
  induction h with
  | nil => exact .cons going occurs allows (.nil _ _)
  | cons going' occurs' allows' _ ih => exact .cons going' occurs' allows' (ih going occurs allows)

/-- What every event keeps in the runs from an entry holds of all of them. -/
theorem Reached.keeps {entry : Specifier} {given : Option String}
    {P : List Event → Run U → Volume → Prop}
    (h : Reached engine host entry given v events run w)
    (step : ∀ {done run u event next w}, Reached engine host entry given v done run u →
      run.failure = none → run.Occurs engine event next → host.Allows run u event w →
      P done run u → P (done ++ [event]) next w)
    (start : P [] (Run.begin engine entry given host.maxFetches) v) : P events run w := by
  have both := Leads.keepsEvents
    (P := fun done run u => Reached engine host entry given v done run u ∧ P done run u) h
    (fun going occurs allows ⟨reached, holds⟩ => ⟨Leads.concat reached going occurs allows,
      step reached going occurs allows holds⟩) ⟨.nil _ _, start⟩
  exact both.2

/-- Waiting until the first of the fetches that are waited for comes to an end is prompt while none of
them has. -/
theorem isPrompt_max {time : Nat}
    (none : ∀ s since, run.Awaits s (.requested since) →
      (host.reply s).outcome? s host.timeout (run.now - since) = none)
    (soon : ∀ s since, run.Awaits s (.requested since) →
      time ≤ since + (host.reply s).duration host.timeout) :
    host.IsPrompt run (max time run.now) := by
  intro s since awaits
  have soon := soon s since awaits
  rcases Nat.le_total time run.now with passed | ahead
  · rw [Nat.max_eq_right passed]
    exact Reply.isAhead_of_outcome? (none s since awaits)
  · rw [Nat.max_eq_left ahead]
    exact Reply.isAhead_of_le (by omega)

end Host

end ModuleLinker.Link
