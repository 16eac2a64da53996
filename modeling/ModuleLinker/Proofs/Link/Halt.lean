import Mathlib.Data.Nat.Find
import ModuleLinker.Proofs.Link.Host
import ModuleLinker.Proofs.Link.Starving

/-!
# Runs that have come to their end

A run on a host has come to its end when it has failed, when everything is linked, or when it starves
(`Host.ended_iff`): in all other runs something can happen, at the latest after the next deadline.
-/

set_option autoImplicit false

namespace ModuleLinker.Link

open Files

variable {U V : Type} {engine : Engine U V} {entry : Specifier} {given : Option String} {cap : Nat}
  {host : Host (StateM Volume)} {events : List Event} {run next : Run U} {v : Volume}

namespace Run

/-- Nothing but time goes on in an idle run. -/
theorem IsIdle.occurs (h : run.IsIdle) {event : Event} (occurs : run.Occurs engine event next) :
    (∃ time, event = .wait time) ∧ next.IsIdle := by
  have none {s : Specifier} {phase : Phase} (other : phase ≠ .queued) : ¬ run.Awaits s phase := by
    rintro ⟨awaited, found⟩
    exact other (Option.some.inj (found.symm.trans (h.queued awaited)))
  cases occurs with
  | start idle =>
    obtain ⟨s', owner, same, -⟩ := h _ idle
    cases same
  | read awaits => exact absurd awaits (none fun same => by cases same)
  | lookUp awaits => exact absurd awaits (none fun same => by cases same)
  | request awaits => exact absurd awaits (none fun same => by cases same)
  | receive awaits => exact absurd awaits (none fun same => by cases same)
  | refuse awaits => exact absurd awaits (none fun same => by cases same)
  | store awaits => exact absurd awaits (none fun same => by cases same)
  | wait => exact ⟨⟨_, rfl⟩, h⟩

end Run

namespace Host

/-- An idle run on a host has come to its end. -/
theorem ended_of_isIdle (host : Host (StateM Volume)) (v : Volume) (h : run.IsIdle) :
    Ended engine host run v := by
  intro events last w leads
  induction leads with
  | nil => exact fun event mem => by cases mem
  | cons _ occurs _ _ ih =>
    obtain ⟨wait, idle⟩ := h.occurs occurs
    exact List.forall_mem_cons.mpr ⟨wait, ih idle⟩

/-- A run on a host that can be led on by an event has not come to its end. -/
theorem Allows.not_ended {event : Event} {w : Volume} (allows : host.Allows run v event w)
    (going : run.failure = none) (occurs : run.Occurs engine event next)
    (other : ∀ time, event ≠ .wait time) : ¬ Ended engine host run v := by
  intro ended
  obtain ⟨time, same⟩ := ended _ _ _ (.cons going occurs allows (.nil next w)) _ List.mem_cons_self
  exact other time same

/-- A run in which a fetch has come to something has not come to its end. -/
theorem not_ended_of_outcome (going : run.failure = none) {s : Specifier} {since : Nat}
    (awaits : run.Awaits s (.requested since)) {answer : Except LoadError String}
    (outcome : (host.reply s).outcome? s host.timeout (run.now - since) = some answer) :
    ¬ Ended engine host run v := by
  cases answer with
  | ok body =>
    exact Allows.not_ended (.receive awaits.2 outcome (Prod.eta _).symm) going
      (.receive awaits) fun time same => by cases same
  | error e =>
    have occurs : run.Occurs engine (.reply s (.error e) (.ok ())) _ := .refuse awaits
    exact Allows.not_ended (.refuse awaits.2 outcome) going occurs fun time same => by cases same

/-- Before a run comes to its end, all fetches that are waited for do. -/
theorem not_ended_of_requested (going : run.failure = none) {s : Specifier} {since : Nat}
    (awaits : run.Awaits s (.requested since)) : ¬ Ended engine host run v := by
  by_cases now : ∃ s since answer, run.Awaits s (.requested since) ∧
      (host.reply s).outcome? s host.timeout (run.now - since) = some answer
  · obtain ⟨s, since, answer, awaits, outcome⟩ := now
    exact not_ended_of_outcome going awaits outcome
  · -- Nothing has arrived, and so time can go on until the first of them comes to its end.
    let wakes (time : Nat) : Prop := ∃ s since, run.Awaits s (.requested since) ∧
      time = since + (host.reply s).duration host.timeout
    have some : ∃ time, wakes time := ⟨_, s, since, awaits, rfl⟩
    classical
    obtain ⟨s, since, awaits, first⟩ := Nat.find_spec some
    have prompt : host.IsPrompt run (max (Nat.find some) run.now) := by
      apply isPrompt_max
      · intro s since awaits
        by_contra outcome
        obtain ⟨answer, outcome⟩ := Option.ne_none_iff_exists'.mp outcome
        exact now ⟨s, since, answer, awaits, outcome⟩
      · intro s since awaits
        exact Nat.find_min' some ⟨s, since, awaits, rfl⟩
    intro ended
    have enough : (host.reply s).duration host.timeout ≤ max (Nat.find some) run.now - since := by
      omega
    obtain ⟨answer, outcome⟩ := Reply.outcome?_duration s enough
    let later : Run U := { run with now := max (Nat.find some) run.now }
    have going : later.failure = none := going
    have awaits : later.Awaits s (.requested since) := awaits
    have ended : Ended engine host later v := fun events last w leads event mem =>
      ended _ _ _ (.cons going .wait (.wait prompt) leads) event (List.mem_cons_of_mem _ mem)
    exact not_ended_of_outcome going awaits outcome ended

/-- A run on a host has come to its end when it has failed, when everything is linked, or when it
starves. -/
theorem ended_iff (kept : run.Kept engine entry given cap events) :
    Ended engine host run v ↔ run.failure ≠ none ∨ run.pending = .nil ∨ run.Starved := by
  constructor
  · intro ended
    by_contra rest
    rw [not_or, not_or, not_not] at rest
    obtain ⟨going, unsettled, fed⟩ := rest
    rcases Run.exists_going going (kept.orderly going) unsettled fed with
      ⟨s, idle⟩ | ⟨s, phase, awaits, active, other⟩
    · exact Allows.not_ended .start going (.start idle) (fun time same => by cases same) ended
    · cases phase with
      | reading =>
        exact Allows.not_ended (.read (Prod.eta _).symm) going (.read awaits)
          (fun time same => by cases same) ended
      | lookingUp =>
        exact Allows.not_ended (.lookUp (Prod.eta _).symm) going (.lookUp awaits)
          (fun time same => by cases same) ended
      | queued => exact other rfl
      | granted =>
        exact Allows.not_ended .request going (.request awaits) (fun time same => by cases same) ended
      | requested since => exact not_ended_of_requested going awaits ended
      | storing body outcome =>
        exact Allows.not_ended .store going (.store awaits) (fun time same => by cases same) ended
      | loaded => cases active
      | failed e => cases active
  · rintro (failed | settled | starved)
    · intro events last w leads
      cases leads with
      | nil => exact fun event mem => by cases mem
      | cons going => exact absurd going failed
    · refine ended_of_isIdle host v fun t mem => ?_
      rw [settled] at mem
      cases mem
    · exact ended_of_isIdle host v starved.waits

end Host

end ModuleLinker.Link
