import Mathlib.Data.List.Basic
import Mathlib.Data.List.Nodup
import Mathlib.Data.List.Perm.Subperm
import ModuleLinker.Proofs.Link.Event

/-!
# Loads and permits

How far the loads of a run have come, as a map from modules, and what the small operations on a run do
to that map. Besides the loads there are the permits to ask a server. `Run.Permitted` says that every
permit is either free or with a load, and that a load waits for a permit only while none is free.

The permits are told apart by a total, because an event that gives a permit back does so before the
load that had it has ended.
-/

set_option autoImplicit false

namespace ModuleLinker.Link

namespace Phase

/-- Whether a load has not ended. -/
def isActive : Phase → Bool
  | loaded | failed _ => false
  | _ => true

/-- Whether a load has a permit. -/
def holds : Phase → Bool
  | granted | requested _ | storing .. => true
  | _ => false

@[simp]
theorem holds_lookingUp : holds lookingUp = false := rfl

@[simp]
theorem holds_queued : holds queued = false := rfl

@[simp]
theorem holds_granted : holds granted = true := rfl

end Phase

namespace Run

variable {U V : Type}

/-- The modules whose load has been started. -/
def loading (run : Run U) : List Specifier := run.loads.map (·.1)

theorem phase?_eq_none_iff {run : Run U} {s : Specifier} :
    run.phase? s = none ↔ s ∉ run.loading := by
  rw [phase?, List.lookup_eq_none_iff, loading, List.mem_map]
  constructor
  · rintro fresh ⟨load, mem, rfl⟩
    simpa using fresh load mem
  · intro fresh load mem
    rw [bne_iff_ne]
    exact fun same => fresh ⟨load, mem, same.symm⟩

/-- The loads and the phases of a run are the same, as long as no module is loaded twice. -/
theorem mem_loads_iff {run : Run U} (unique : run.loading.Nodup) {s : Specifier} {phase : Phase} :
    (s, phase) ∈ run.loads ↔ run.phase? s = some phase := by
  unfold loading at unique
  unfold phase?
  generalize run.loads = loads at unique
  induction loads with
  | nil => simp
  | cons load loads ih =>
    obtain ⟨s', phase'⟩ := load
    rw [List.map_cons, List.nodup_cons] at unique
    rw [List.mem_cons, ih unique.2, List.lookup_cons]
    by_cases same : s = s'
    · subst same
      have fresh : loads.lookup s = none := by
        rw [List.lookup_eq_none_iff]
        intro load mem
        rw [bne_iff_ne]
        exact fun same => unique.1 (List.mem_map.mpr ⟨load, mem, same.symm⟩)
      simp [fresh, eq_comm]
    · have other : (s == s') = false := beq_eq_false_iff_ne.mpr same
      simp [same, other]

/-! ## The small operations -/

section Small

variable (run : Run U) (s t : Specifier) (phase : Phase)

theorem phase?_setPhase :
    (run.setPhase s phase).phase? t =
      if t = s then (run.phase? s).map fun _ => phase else run.phase? t := by
  unfold phase? setPhase
  dsimp only
  generalize run.loads = loads
  induction loads with
  | nil => simp
  | cons load loads ih =>
    obtain ⟨s', phase'⟩ := load
    rw [List.map_cons, List.lookup_cons, List.lookup_cons, List.lookup_cons, ih]
    by_cases this : s' = s
    · subst this
      by_cases same : t = s'
      · simp [same]
      · have other : (t == s') = false := beq_eq_false_iff_ne.mpr same
        simp [same, other]
    · have apart : (s == s') = false := beq_eq_false_iff_ne.mpr (Ne.symm this)
      by_cases same : t = s'
      · subst same
        simp [this]
      · have other : (t == s') = false := beq_eq_false_iff_ne.mpr same
        simp [this, other, apart]

@[simp]
theorem loading_setPhase : (run.setPhase s phase).loading = run.loading := by
  rw [loading, setPhase, List.map_map]
  refine List.map_congr_left fun load _ => ?_
  by_cases same : load.1 = s <;> simp [same]

theorem phase?_addLoad (fresh : run.phase? s = none) :
    (run.addLoad s phase).phase? t = if t = s then some phase else run.phase? t := by
  unfold phase? addLoad at *
  rw [List.lookup_append]
  by_cases same : t = s
  · subst same
    simp [fresh]
  · have other : (t == s) = false := beq_eq_false_iff_ne.mpr same
    simp [same, List.lookup_cons, other]

@[simp]
theorem loading_addLoad : (run.addLoad s phase).loading = run.loading ++ [s] := by
  rw [loading, addLoad, List.map_append]
  rfl

end Small

/-- The phase in which the load of a module starts. -/
def firstPhase (s : Specifier) : Phase := if s.isLocal then .reading else .lookingUp

/-- The work with which the load of a module starts. -/
def firstWork (s : Specifier) : Work := if s.isLocal then .read s else .lookUp s

theorem startLoad_eq (run : Run U) (s : Specifier) :
    run.startLoad s = ((run.addLoad s (firstPhase s)).note [firstWork s]).exchange s := by
  unfold startLoad firstPhase firstWork
  split <;> rfl

theorem isActive_firstPhase (s : Specifier) : (firstPhase s).isActive = true := by
  unfold firstPhase
  split <;> rfl

theorem phase?_startLoad (run : Run U) (s t : Specifier) (fresh : run.phase? s = none) :
    (run.startLoad s).phase? t = if t = s then some (firstPhase s) else run.phase? t := by
  rw [startLoad_eq]
  exact phase?_addLoad run s t (firstPhase s) fresh

/-! ## Permits -/

/-- The load of a module beside the others, before and after its phase is changed. -/
theorem exists_perm_setPhase {run : Run U} (unique : run.loading.Nodup) {s : Specifier} {old : Phase}
    (phase : Phase) (found : run.phase? s = some old) :
    ∃ others, run.loads.Perm ((s, old) :: others) ∧
      (run.setPhase s phase).loads.Perm ((s, phase) :: others) := by
  obtain ⟨before, after, split⟩ := List.append_of_mem ((mem_loads_iff unique).mpr found)
  unfold loading at unique
  rw [split, List.map_append, List.map_cons, List.nodup_middle, List.nodup_cons, ← List.map_append]
    at unique
  have still : ((before ++ after).map fun load => if load.1 == s then (s, phase) else load) =
      before ++ after := by
    refine (List.map_congr_left fun load mem => ?_).trans (List.map_id _)
    have other : (load.1 == s) = false :=
      beq_eq_false_iff_ne.mpr fun same => unique.1 (List.mem_map.mpr ⟨load, mem, same⟩)
    simp [other]
  refine ⟨before ++ after, split ▸ List.perm_middle, ?_⟩
  unfold setPhase
  rw [split, List.map_append, List.map_cons, beq_self_eq_true, if_pos rfl]
  refine List.perm_middle.trans ?_
  rw [← List.map_append, still]

/-- Changing the phase of a load changes the number of the loads with a property by one at most. -/
theorem countP_setPhase {run : Run U} (unique : run.loading.Nodup) {s : Specifier}
    {old : Phase} (phase : Phase) (found : run.phase? s = some old) (p : Phase → Bool) :
    (run.setPhase s phase).loads.countP (p ·.2) + (p old).toNat =
      run.loads.countP (p ·.2) + (p phase).toNat := by
  obtain ⟨others, before, after⟩ := exists_perm_setPhase unique phase found
  rw [before.countP_eq, after.countP_eq, List.countP_cons, List.countP_cons]
  cases p old <;> cases p phase <;> simp

/-- The permits of a run: how many there are, and who has them or waits for them. -/
structure Permitted (total : Nat) (run : Run U) : Prop where
  unique : run.loading.Nodup
  waiting : ∀ s, s ∈ run.permits.queue ↔ run.phase? s = some .queued
  once : run.permits.queue.Nodup
  total : run.loads.countP (·.2.holds) + run.permits.free = total
  busy : run.permits.queue ≠ [] → run.permits.free = 0

variable {total : Nat} {run : Run U}

/-- The permits depend on the loads only. -/
theorem Permitted.congr {run' : Run U} (h : run.Permitted total) (loads : run'.loads = run.loads)
    (permits : run'.permits = run.permits) : run'.Permitted total where
  unique := by rw [loading, loads]; exact h.unique
  waiting s := by rw [permits, phase?, loads]; exact h.waiting s
  once := by rw [permits]; exact h.once
  total := by rw [loads, permits]; exact h.total
  busy := by rw [permits]; exact h.busy

/-- No fetch waits for a permit where there are enough for all modules that are being loaded. -/
theorem Permitted.not_queued (h : run.Permitted total) {modules : List Specifier}
    (known : ∀ s phase, run.phase? s = some phase → phase.isActive = true → s ∈ modules)
    (few : modules.length ≤ total) (s : Specifier) : run.phase? s ≠ some .queued := by
  intro queued
  have busy := h.busy (List.ne_nil_of_mem ((h.waiting s).mpr queued))
  have total := h.total
  rw [busy, List.countP_eq_length_filter, Nat.add_zero] at total
  have unique : ((run.loads.filter (·.2.holds)).map Prod.fst).Nodup :=
    h.unique.sublist (List.filter_sublist.map _)
  have found {t : Specifier} {phase : Phase} (mem : (t, phase) ∈ run.loads.filter (·.2.holds)) :
      run.phase? t = some phase ∧ phase.holds = true := by
    obtain ⟨mem, holds⟩ := List.mem_filter.mp mem
    exact ⟨(mem_loads_iff h.unique).mp mem, holds⟩
  -- The module has no permit, so that all permits are had by the others.
  have fresh : s ∉ (run.loads.filter (·.2.holds)).map Prod.fst := by
    intro mem
    obtain ⟨⟨t, phase⟩, load, rfl⟩ := List.mem_map.mp mem
    obtain ⟨here, holds⟩ := found load
    cases queued.symm.trans here
    cases holds
  have all : s :: (run.loads.filter (·.2.holds)).map Prod.fst ⊆ modules := by
    refine List.cons_subset.mpr ⟨known s _ queued rfl, fun t mem => ?_⟩
    obtain ⟨⟨t, phase⟩, load, rfl⟩ := List.mem_map.mp mem
    obtain ⟨here, holds⟩ := found load
    refine known t phase here ?_
    cases phase <;> first | rfl | cases holds
  have less := (List.subperm_of_subset (List.nodup_cons.mpr ⟨fresh, unique⟩) all).length_le
  rw [List.length_cons, List.length_map] at less
  omega

/-- A load that does not wait for a permit can go on to a phase that does not wait for one either.
The total changes with whether the load has a permit. -/
theorem Permitted.setPhase (h : run.Permitted total) {s : Specifier} {old phase : Phase}
    (found : run.phase? s = some old) (was : old ≠ .queued) (becomes : phase ≠ .queued) :
    (run.setPhase s phase).Permitted (total + phase.holds.toNat - old.holds.toNat) := by
  have count := countP_setPhase h.unique phase found Phase.holds
  constructor
  case unique => rw [loading_setPhase]; exact h.unique
  case waiting =>
    intro t
    rw [phase?_setPhase]
    show t ∈ run.permits.queue ↔ _
    rw [h.waiting t]
    by_cases same : t = s
    · subst same
      simp [found, was, becomes]
    · simp [same]
  case once => exact h.once
  case total =>
    show _ + run.permits.free = _
    have total := h.total
    omega
  case busy => exact h.busy

/-- A load without a permit goes on without one. -/
theorem Permitted.setPhase_same (h : run.Permitted total) {s : Specifier} {old phase : Phase}
    (found : run.phase? s = some old) (was : old ≠ .queued) (becomes : phase ≠ .queued)
    (same : phase.holds = old.holds) : (run.setPhase s phase).Permitted total := by
  have next := h.setPhase found was becomes
  rw [same, Nat.add_sub_cancel] at next
  exact next

/-- A load gets a permit, or waits for one. -/
theorem Permitted.acquire (h : run.Permitted total) {s : Specifier}
    (found : run.phase? s = some .lookingUp) :
    (({ run with permits := (run.permits.acquire s).2 } : Run U).setPhase s
      (run.permits.acquire s).1).Permitted total := by
  have fresh : s ∉ run.permits.queue := by
    rw [h.waiting s, found]
    exact fun same => by cases same
  have total := h.total
  unfold Permits.acquire
  split
  case isTrue none =>
    have count := countP_setPhase h.unique .queued found Phase.holds
    constructor
    case unique => rw [loading_setPhase]; exact h.unique
    case waiting =>
      intro t
      rw [phase?_setPhase]
      show t ∈ run.permits.queue ++ [s] ↔ (if t = s then (run.phase? s).map _ else run.phase? t) = _
      rw [List.mem_append, h.waiting t]
      by_cases same : t = s
      · subst same
        simp [found]
      · simp [same]
    case once =>
      show (run.permits.queue ++ [s]).Nodup
      exact h.once.append (List.nodup_singleton s) (List.disjoint_singleton.mpr fresh)
    case total =>
      show (run.setPhase s .queued).loads.countP _ + run.permits.free = _
      rw [Phase.holds_queued, Phase.holds_lookingUp] at count
      omega
    case busy => exact fun _ => none
  case isFalse some =>
    have count := countP_setPhase h.unique .granted found Phase.holds
    constructor
    case unique => rw [loading_setPhase]; exact h.unique
    case waiting =>
      intro t
      rw [phase?_setPhase]
      show t ∈ run.permits.queue ↔ (if t = s then (run.phase? s).map _ else run.phase? t) = _
      rw [h.waiting t]
      by_cases same : t = s
      · subst same
        simp [found]
      · simp [same]
    case once => exact h.once
    case total =>
      show (run.setPhase s .granted).loads.countP _ + (run.permits.free - 1) = _
      rw [Phase.holds_granted, Phase.holds_lookingUp, Bool.toNat_true, Bool.toNat_false] at count
      omega
    case busy => exact fun busy => absurd (h.busy busy) some

theorem release_of_nil (none : run.permits.queue = []) :
    run.release = { run with permits := ⟨run.permits.free + 1, []⟩ } := by
  unfold Run.release Permits.release
  rw [none]

theorem release_of_cons {s : Specifier} {more : List Specifier}
    (split : run.permits.queue = s :: more) :
    run.release = ({ run with permits := ⟨run.permits.free, more⟩ } : Run U).setPhase s .granted := by
  unfold Run.release Permits.release
  rw [split]

/-- A permit that is given back goes to a load that waits for one, or is free. -/
theorem Permitted.release (h : run.Permitted total) : run.release.Permitted (total + 1) := by
  have total := h.total
  rcases split : run.permits.queue with _ | ⟨s, more⟩
  · rw [release_of_nil split]
    constructor
    case unique => exact h.unique
    case waiting =>
      intro s
      have waiting := h.waiting s
      rw [split] at waiting
      exact waiting
    case once => exact List.nodup_nil
    case total =>
      show run.loads.countP _ + (run.permits.free + 1) = _
      omega
    case busy => exact fun busy => absurd rfl busy
  · rw [release_of_cons split]
    have found : run.phase? s = some .queued := by
      rw [← h.waiting s, split]
      exact List.mem_cons_self
    have once := h.once
    rw [split, List.nodup_cons] at once
    have none : run.permits.free = 0 := h.busy (by rw [split]; exact List.cons_ne_nil s more)
    have count := countP_setPhase h.unique .granted found Phase.holds
    constructor
    case unique => rw [loading_setPhase]; exact h.unique
    case waiting =>
      intro t
      rw [phase?_setPhase]
      show t ∈ more ↔ (if t = s then (run.phase? s).map _ else run.phase? t) = _
      have waiting := h.waiting t
      rw [split, List.mem_cons] at waiting
      by_cases same : t = s
      · subst same
        simp [found, once.1]
      · simpa [same] using waiting
    case once => exact once.2
    case total =>
      show (run.setPhase s .granted).loads.countP _ + run.permits.free = _
      rw [Phase.holds_granted, Phase.holds_queued, Bool.toNat_true, Bool.toNat_false] at count
      omega
    case busy => exact fun _ => none

/-- A permit that is given back changes no load, but for one that has waited for it. -/
theorem Permitted.phase?_release (h : run.Permitted total) (t : Specifier) :
    run.release.phase? t = run.phase? t ∨
      (run.phase? t = some .queued ∧ run.release.phase? t = some .granted) := by
  rcases split : run.permits.queue with _ | ⟨s, more⟩
  · rw [release_of_nil split]
    exact .inl rfl
  · rw [release_of_cons split, phase?_setPhase]
    have found : run.phase? s = some .queued := by
      rw [← h.waiting s, split]
      exact List.mem_cons_self
    show (if t = s then (run.phase? s).map _ else run.phase? t) = _ ∨ _ ∧
      (if t = s then (run.phase? s).map _ else run.phase? t) = _
    by_cases same : t = s
    · subst same
      simp [found]
    · simp [same]

/-- While a load waits for a permit, another one has one. -/
theorem Permitted.exists_holds (h : run.Permitted total) (positive : 0 < total) {s : Specifier}
    (queued : run.phase? s = some .queued) :
    ∃ t phase, run.phase? t = some phase ∧ phase.holds = true := by
  have busy := h.busy (List.ne_nil_of_mem ((h.waiting s).mpr queued))
  have total := h.total
  have one : 0 < run.loads.countP (·.2.holds) := by omega
  obtain ⟨load, mem, holds⟩ := List.countP_pos_iff.mp one
  exact ⟨load.1, load.2, (mem_loads_iff h.unique).mp mem, holds⟩

end Run

end ModuleLinker.Link
