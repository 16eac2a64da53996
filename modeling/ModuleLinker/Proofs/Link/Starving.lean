import ModuleLinker.Proofs.Link.Hopeful

/-!
# Runs that starve

A failure that is held back behind other imports drops what its module was waiting for. A fetch among
that may have a permit, or get one later, and nobody goes on with it, so that the permit is lost. A run
starves when every import that is left waits for a permit (`Run.Starved`). It has lost a permit then
(`Run.Starved.lostPermit`); a run without failures never starves.
-/

set_option autoImplicit false

namespace ModuleLinker.Link

variable {U V : Type}

namespace Pending

/-- Among imports that are not settled, one is not being linked itself. -/
theorem Proper.tasks_ne_nil {told : Specifier → Join → Prop} {p : Pending}
    (proper : p.Proper told .eager) (unsettled : p ≠ .nil) : p.tasks ≠ [] := by
  have opens : p.opens = true := by
    cases p with
    | nil => exact absurd rfl unsettled
    | held e rest => cases proper.1
    | _ => rfl
  generalize Join.eager = join at proper
  clear unsettled
  induction p generalizing join with
  | nil => cases opens
  | idle s rest => exact List.cons_ne_nil _ _
  | waiting s owner rest => exact List.cons_ne_nil _ _
  | linking s inner imports rest ih _ =>
    obtain ⟨-, first, below, -⟩ := proper
    exact List.append_ne_nil_of_left_ne_nil (ih first inner below) _
  | held e rest => cases opens

/-- Failures are held back only where they are told in order. -/
theorem Proper.ordered_of_hopeless {told : Specifier → Join → Prop} {join : Join} {p : Pending}
    (proper : p.Proper told join) (hopeless : p.hopeless = true) :
    join = .ordered ∨ ∃ s, told s .ordered := by
  induction p generalizing join with
  | nil => cases hopeless
  | idle s rest ih => exact ih proper hopeless
  | waiting s owner rest ih => exact ih proper hopeless
  | linking s inner imports rest ihImports ihRest =>
    obtain ⟨tells, -, below, behind⟩ := proper
    rcases Bool.or_eq_true_iff.mp hopeless with here | here
    · rcases ihImports below here with rfl | other
      · exact .inr ⟨s, tells⟩
      · exact .inr other
    · exact ihRest behind here
  | held e rest => exact .inl proper.1

end Pending

/-- Failures are told in order among many imports. -/
theorem Join.ofCount_eq_ordered {count : Nat} : .ordered = Join.ofCount count ↔ eagerLimit < count := by
  unfold Join.ofCount
  split
  case isTrue few => exact ⟨fun same => (by cases same), fun many => by omega⟩
  case isFalse many => exact ⟨fun _ => by omega, fun _ => rfl⟩

namespace Run

/-- Whether every import that is left in a run waits for a permit. -/
def IsIdle (run : Run U) : Prop :=
  ∀ t ∈ run.pending.tasks, ∃ s owner, t = .waiting s owner ∧ run.phase? s = some .queued

/-- A run in which something is left, and all of that waits for a permit. -/
structure Starved (run : Run U) : Prop where
  going : run.failure = none
  unsettled : run.pending ≠ .nil
  waits : run.IsIdle

variable {engine : Engine U V} {entry : Specifier} {given : Option String} {cap : Nat}
  {events : List Event} {run : Run U} {s : Specifier}

theorem IsIdle.queued (h : run.IsIdle) (awaited : s ∈ run.pending.awaited) :
    run.phase? s = some .queued := by
  obtain ⟨owner, mem⟩ := mem_awaited.mp awaited
  obtain ⟨s', owner', same, queued⟩ := h _ mem
  cases same
  exact queued

/-- A run that has lost a permit: a failure is held back among more imports than are told at once, no
permit is left, and a fetch that nobody waits for has one. -/
structure LostPermit (run : Run U) : Prop where
  hopeless : run.pending.hopeless = true
  many : ∃ r ∈ run.graph.records, eagerLimit < r.dependencies.length
  free : run.permits.free = 0
  lost : ∃ s phase, run.phase? s = some phase ∧ phase.holds = true ∧ s ∉ run.pending.awaited

/-- A run starves only where it has lost a permit. -/
theorem Starved.lostPermit (h : run.Starved) (kept : run.Kept engine entry given cap events)
    (hopeful : run.Calm → run.Hopeful engine) : run.LostPermit := by
  have proper := (kept.orderly h.going).proper
  obtain ⟨t, mem⟩ := List.exists_mem_of_ne_nil _ (proper.tasks_ne_nil h.unsettled)
  obtain ⟨s, owner, rfl, queued⟩ := h.waits t mem
  have busy := kept.permitted.busy (List.ne_nil_of_mem ((kept.permitted.waiting s).mpr queued))
  obtain ⟨s', phase, found, holds⟩ := kept.permitted.exists_holds (by omega) queued
  have apart : s' ∉ run.pending.awaited := by
    intro awaited
    rw [h.waits.queued awaited] at found
    cases found
    cases holds
  have hopeless : run.pending.hopeless = true := by
    by_contra calm
    have owned := (hopeful ⟨h.going, Bool.eq_false_iff.mpr calm⟩).owned s' phase found
    have active : phase.isActive = true := by
      cases phase <;> first | rfl | cases holds
    exact apart (mem_awaited.mpr ⟨true, owned active⟩)
  constructor
  case hopeless => exact hopeless
  case many =>
    obtain ⟨s, r, mem, -, ordered⟩ :=
      (proper.ordered_of_hopeless hopeless).resolve_left fun same => by cases same
    exact ⟨r, mem, Join.ofCount_eq_ordered.mp ordered⟩
  case free => exact busy
  case lost => exact ⟨s', phase, found, holds, apart⟩

/-- A run without failures does not starve. -/
theorem Calm.not_starved (calm : run.Calm) (kept : run.Kept engine entry given cap events)
    (hopeful : run.Hopeful engine) : ¬ run.Starved := by
  intro starved
  have hopeless := (starved.lostPermit kept fun _ => hopeful).hopeless
  rw [calm.2] at hopeless
  cases hopeless

/-- What can go on in a run that has neither failed nor linked everything nor starves: an import that
nothing has been done for, or a load. -/
theorem exists_going (going : run.failure = none) (orderly : run.Orderly entry given)
    (unsettled : run.pending ≠ .nil) (starves : ¬ run.Starved) :
    (∃ s, .idle s ∈ run.pending.tasks) ∨
      ∃ s phase, run.Awaits s phase ∧ phase.isActive = true ∧ phase ≠ .queued := by
  by_contra stuck
  rw [not_or] at stuck
  refine starves ⟨going, unsettled, fun t mem => ?_⟩
  cases t with
  | idle s => exact absurd ⟨s, mem⟩ stuck.1
  | waiting s owner =>
    obtain ⟨phase, found, active⟩ := orderly.active s owner mem
    refine ⟨s, owner, rfl, ?_⟩
    by_contra other
    refine stuck.2 ⟨s, phase, ⟨mem_awaited.mpr ⟨owner, mem⟩, found⟩, active, ?_⟩
    rintro rfl
    exact other found

end Run

end ModuleLinker.Link
