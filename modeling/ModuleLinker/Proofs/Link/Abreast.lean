import ModuleLinker.Proofs.Link.Steady

/-!
# Imports side by side

What is left of an entry whose imports have no imports of their own: a row of them, each as far as its
load has come (`Run.Abreast`). The row is there when the entry has been loaded (`Run.Opens.occurs`). Every
event keeps the row in step with the loads, unless it is the one in which a failure is told
(`Run.Abreast.occurs`): of few imports that of the first load that fails, of many that of the first import
that has failed when all imports before it have been loaded.
-/

set_option autoImplicit false

namespace ModuleLinker.Link

variable {U V : Type}

namespace Pending

/-- What is left of an import in front of others when its load has come as far as a phase. -/
def slot (s : Specifier) : Option Phase → Pending → Pending
  | none => .idle s
  | some .loaded => id
  | some (.failed e) => .held e
  | some _ => .waiting s true

/-- What is left of imports without imports of their own. -/
def row (phase? : Specifier → Option Phase) : List Specifier → Pending
  | [] => .nil
  | s :: more => slot s (phase? s) (row phase? more)

variable {phase? after? : Specifier → Option Phase} {s : Specifier} {imports : List Specifier}

theorem slot_of_isActive {phase : Phase} (active : phase.isActive = true) :
    slot s (some phase) = .waiting s true := by
  cases phase <;> first | rfl | cases active

/-- The four shapes of what is left of an import. -/
theorem slot_cases (s : Specifier) (phase : Option Phase) :
    (phase = none ∧ slot s phase = .idle s) ∨ (phase = some .loaded ∧ slot s phase = id) ∨
      (∃ e, phase = some (.failed e) ∧ slot s phase = .held e) ∨
      (∃ active, phase = some active ∧ active.isActive = true ∧ slot s phase = .waiting s true) := by
  rcases phase with _ | phase
  · exact .inl ⟨rfl, rfl⟩
  · cases phase with
    | loaded => exact .inr (.inl ⟨rfl, rfl⟩)
    | failed e => exact .inr (.inr (.inl ⟨e, rfl, rfl⟩))
    | _ => exact .inr (.inr (.inr ⟨_, rfl, rfl, rfl⟩))

/-- What is left depends on the loads of the imports only. -/
theorem row_congr (same : ∀ s ∈ imports, slot s (phase? s) = slot s (after? s)) :
    row phase? imports = row after? imports := by
  induction imports with
  | nil => rfl
  | cons s more ih =>
    obtain ⟨here, rest⟩ := List.forall_mem_cons.mp same
    rw [row, row, here, ih rest]

/-- Everything has been loaded; or something has failed behind imports that have been loaded; or what
comes first of the imports that have not been loaded has not failed. -/
theorem row_cases (phase? : Specifier → Option Phase) (imports : List Specifier) :
    (∀ s ∈ imports, phase? s = some .loaded) ∧ row phase? imports = .nil ∨
      (∃ before s e after, imports = before ++ s :: after ∧ (∀ t ∈ before, phase? t = some .loaded) ∧
        phase? s = some (.failed e) ∧ row phase? imports = .held e (row phase? after)) ∨
      (row phase? imports).opens = true := by
  induction imports with
  | nil => exact .inl ⟨fun _ mem => (by cases mem), rfl⟩
  | cons s more ih =>
    rw [row]
    rcases slot_cases s (phase? s) with
      ⟨-, same⟩ | ⟨loaded, same⟩ | ⟨e, failed, same⟩ | ⟨_, -, -, same⟩ <;> rw [same]
    · exact .inr (.inr rfl)
    · rcases ih with ⟨all, none⟩ | ⟨before, t, e, after, rfl, all, failed, held⟩ | opens
      · exact .inl ⟨List.forall_mem_cons.mpr ⟨loaded, all⟩, none⟩
      · exact .inr (.inl ⟨s :: before, t, e, after, rfl, List.forall_mem_cons.mpr ⟨loaded, all⟩, failed,
          held⟩)
      · exact .inr (.inr opens)
    · exact .inr (.inl ⟨[], s, e, more, rfl, fun _ mem => (by cases mem), failed, rfl⟩)
    · exact .inr (.inr rfl)

/-- Nothing has been done for the imports of a row at first. -/
theorem row_of_fresh (fresh : ∀ s ∈ imports, phase? s = none) : row phase? imports = ofList imports := by
  induction imports with
  | nil => rfl
  | cons s more ih =>
    obtain ⟨here, rest⟩ := List.forall_mem_cons.mp fresh
    rw [row, here, ih rest]
    rfl

/-- Nothing is left of imports that have been loaded. -/
theorem row_append_of_loaded {before : List Specifier} (loaded : ∀ t ∈ before, phase? t = some .loaded)
    (after : List Specifier) : row phase? (before ++ after) = row phase? after := by
  induction before with
  | nil => rfl
  | cons t more ih =>
    obtain ⟨here, rest⟩ := List.forall_mem_cons.mp loaded
    rw [List.cons_append, row, here, ih rest]
    rfl

theorem tasks_slot (s : Specifier) (phase : Option Phase) (rest : Pending) :
    (slot s phase rest).tasks = (slot s phase .nil).tasks ++ rest.tasks := by
  rcases slot_cases s phase with ⟨-, same⟩ | ⟨-, same⟩ | ⟨e, -, same⟩ | ⟨_, -, -, same⟩ <;>
    rw [same] <;> rfl

theorem tasks_row (phase? : Specifier → Option Phase) (imports : List Specifier) :
    (row phase? imports).tasks = imports.flatMap fun s => (slot s (phase? s) .nil).tasks := by
  induction imports with
  | nil => rfl
  | cons s more ih => rw [row, tasks_slot, ih, List.flatMap_cons]

/-- The imports that are left in a row are those that have not been started or are under way. -/
theorem mem_tasks_row {t : Task} : t ∈ (row phase? imports).tasks ↔ ∃ s ∈ imports,
    (t = .idle s ∧ phase? s = none) ∨
      (t = .waiting s true ∧ ∃ phase, phase? s = some phase ∧ phase.isActive = true) := by
  rw [tasks_row, List.mem_flatMap]
  refine exists_congr fun s => and_congr_right fun _ => ?_
  rcases slot_cases s (phase? s) with
    ⟨found, same⟩ | ⟨found, same⟩ | ⟨e, found, same⟩ | ⟨phase, found, active, same⟩ <;>
    rw [found] at same ⊢ <;> rw [same]
  · simp [tasks]
  · simp [tasks, Phase.isActive]
  · simp [tasks, Phase.isActive]
  · simp [tasks, active]

/-! ## Sweeps over a row -/

section Sweep

variable {σ : Type} {visit : Task → σ → Verdict × σ} {finish : Specifier → σ → σ} {join : Join}
  {a : σ}

/-- A sweep leaves a row as it is where every import stays. -/
theorem sweep_row_of_stays (stays : ∀ t, t.specifier ∈ imports → visit t a = (.stay, a)) :
    sweep visit finish join (row phase? imports) a = (.ok (row phase? imports), a) := by
  induction imports with
  | nil => rfl
  | cons s more ih =>
    have rest := ih fun t mem => stays t (List.mem_cons_of_mem _ mem)
    rw [row]
    rcases slot_cases s (phase? s) with ⟨-, same⟩ | ⟨-, same⟩ | ⟨e, -, same⟩ | ⟨_, -, -, same⟩ <;>
      rw [same]
    · rw [sweep, stays (.idle s) List.mem_cons_self, judge, andThen, rest]
      rfl
    · exact rest
    · rw [sweep, rest]
      rfl
    · rw [sweep, stays (.waiting s true) List.mem_cons_self, judge, andThen, rest]
      rfl

/-- A sweep goes on behind an import that stays as it is. -/
theorem sweep_slot_of_stays {phase : Option Phase} (idle : phase = none → visit (.idle s) a = (.stay, a))
    (waiting : visit (.waiting s true) a = (.stay, a)) (rest : Pending) :
    sweep visit finish join (slot s phase rest) a =
      prepend (slot s phase) (sweep visit finish join rest a) := by
  rcases slot_cases s phase with ⟨fresh, same⟩ | ⟨-, same⟩ | ⟨e, -, same⟩ | ⟨_, -, -, same⟩ <;> rw [same]
  · rw [sweep, idle fresh]
    rfl
  · show _ = ((sweep visit finish join rest a).1.map id, _)
    rw [Except.map_id]
    rfl
  · rfl
  · rw [sweep, waiting]
    rfl

/-- An entry is left as long as its first import is not settled. -/
theorem sweep_linking_of_opens {p q : Pending} {b : σ} (swept : sweep visit finish join p a = (.ok q, b))
    (opens : q.opens = true) :
    sweep visit finish .eager (.linking s join p .nil) a = (.ok (.linking s join q .nil), b) := by
  rw [sweep, swept, relink_of_opens opens]
  rfl

/-- A failure that is told among the imports of an entry is told. -/
theorem sweep_linking_of_error {p : Pending} {e : LoadError}
    (swept : (sweep visit finish join p a).1 = .error e) :
    (sweep visit finish .eager (.linking s join p .nil) a).1 = .error e := by
  rw [sweep]
  generalize sweep visit finish join p a = out at swept
  obtain ⟨left, b⟩ := out
  cases swept
  rfl

/-- A failure that is held back is told when no import before it is left. -/
theorem sweep_linking_of_held {p rest : Pending} {e : LoadError}
    (swept : (sweep visit finish join p a).1 = .ok (.held e rest)) :
    (sweep visit finish .eager (.linking s join p .nil) a).1 = .error e := by
  rw [sweep]
  generalize sweep visit finish join p a = out at swept
  obtain ⟨left, b⟩ := out
  cases swept
  rfl

end Sweep

end Pending

namespace Run

open Pending

variable {engine : Engine U V} {imports : List Specifier} {run next : Run U} {s : Specifier}
  {join : Join}

/-- Going on to the first import of a row that nothing has been done for starts its load. -/
theorem sweep_start_row (join : Join)
    (unmet : ∀ s ∈ imports, run.phase? s = none → run.graph.contains s = false)
    (unique : imports.Nodup) (idle : ∃ s ∈ imports, run.phase? s = none) :
    ∃ s ∈ imports, run.phase? s = none ∧
      sweep startVisit finishFlagged join (row run.phase? imports) (run, false) =
        (.ok (row (run.startLoad s).phase? imports), run.startLoad s, true) ∧
      (row (run.startLoad s).phase? imports).opens = (row run.phase? imports).opens := by
  induction imports with
  | nil =>
    obtain ⟨s, mem, -⟩ := idle
    cases mem
  | cons s more ih =>
    obtain ⟨fresh, unique⟩ := List.nodup_cons.mp unique
    by_cases here : run.phase? s = none
    · have visit : startVisit (.idle s) (run, false) = (.wait true, run.startLoad s, true) := by
        unfold startVisit
        simp only [unmet s List.mem_cons_self here, here]
        rfl
      have started := phase?_startLoad run s s here
      rw [if_pos rfl] at started
      have rest : row (run.startLoad s).phase? more = row run.phase? more :=
        row_congr fun t mem => by
          have other : t ≠ s := fun same => fresh (same ▸ mem)
          rw [phase?_startLoad run s t here, if_neg other]
      refine ⟨s, List.mem_cons_self, here, ?_, ?_⟩
      · rw [row, row, here, started, slot_of_isActive (isActive_firstPhase s), rest]
        show sweep startVisit finishFlagged join (.idle s (row run.phase? more)) (run, false) = _
        rw [sweep, visit, judge, andThen,
          sweep_row_of_stays fun t _ => startVisit_flagged t (run.startLoad s)]
        rfl
      · rw [row, row, here, started, slot_of_isActive (isActive_firstPhase s)]
        rfl
    · have later : ∃ s ∈ more, run.phase? s = none := by
        obtain ⟨t, mem, none⟩ := idle
        rcases List.mem_cons.mp mem with rfl | mem
        · exact absurd none here
        · exact ⟨t, mem, none⟩
      obtain ⟨t, mem, none, swept, opens⟩ := ih
        (fun t mem => unmet t (List.mem_cons_of_mem _ mem)) unique later
      have same : (run.startLoad t).phase? s = run.phase? s := by
        have other : s ≠ t := fun same => fresh (same ▸ mem)
        rw [phase?_startLoad run t s none, if_neg other]
      refine ⟨t, List.mem_cons_of_mem _ mem, none, ?_, ?_⟩
      · rw [row, row, same, sweep_slot_of_stays (fun none => absurd none here) rfl, swept]
        rfl
      · rw [row, row, same]
        rcases slot_cases s (run.phase? s) with ⟨-, same⟩ | ⟨-, same⟩ | ⟨e, -, same⟩ | ⟨_, -, -, same⟩ <;>
          rw [same]
        · rfl
        · exact opens
        · rfl
        · rfl

/-- Bringing the outcome of a load to its import in a row. -/
theorem sweep_deliver_row (join : Join) {phase? after? : Specifier → Option Phase} {old : Phase}
    {result : Except LoadError (Record U)} (unique : imports.Nodup) (mem : s ∈ imports)
    (found : phase? s = some old) (active : old.isActive = true)
    (ended : after? s = some (.ended result))
    (others : ∀ t ∈ imports, t ≠ s → slot t (after? t) = slot t (phase? t))
    (leaf : ∀ r, result = .ok r → importsOf engine r = .ok []) (g : Graph U) :
    (join = .eager ∧ ∃ e, result = .error e ∧
        (sweep (deliverVisit engine s result) finish join (row phase? imports) g).1 = .error e) ∨
      ((join = .eager → ∃ r, result = .ok r) ∧
        (sweep (deliverVisit engine s result) finish join (row phase? imports) g).1 =
          .ok (row after? imports)) := by
  have skips {more : List Specifier} (fresh : s ∉ more) (g : Graph U) :
      sweep (deliverVisit engine s result) finish join (row phase? more) g = (.ok (row phase? more), g) :=
    sweep_row_of_stays fun t mem => by
      cases t with
      | idle t => rfl
      | waiting t owner =>
        have other : t ≠ s := fun same => fresh (same ▸ mem)
        exact if_neg other
  induction imports generalizing g with
  | nil => cases mem
  | cons t more ih =>
    obtain ⟨fresh, unique⟩ := List.nodup_cons.mp unique
    by_cases same : t = s
    · subst same
      have rest : row after? more = row phase? more := row_congr fun t' mem =>
        others t' (List.mem_cons_of_mem _ mem) fun same => fresh (same ▸ mem)
      rw [row, row, found, ended, slot_of_isActive active, rest, sweep]
      cases result with
      | error e =>
        have visit : deliverVisit engine t (.error e) (.waiting t true) g = (.fail e, g) := if_pos rfl
        rw [visit, judge]
        cases join with
        | eager => exact .inl ⟨rfl, e, rfl, rfl⟩
        | ordered =>
          refine .inr ⟨fun same => (by cases same), ?_⟩
          rw [andThen, skips fresh]
          rfl
      | ok r =>
        have visit : deliverVisit engine t (.ok r) (.waiting t true) g =
            (.link [], (g.insert r).setDependencies t []) := by
          unfold deliverVisit
          simp only [leaf r rfl, if_true]
        refine .inr ⟨fun _ => ⟨r, rfl⟩, ?_⟩
        rw [visit]
        show (sweep _ _ join (row phase? more) (finish t ((g.insert r).setDependencies t []))).1 = _
        rw [skips fresh]
        rfl
    · have mem := (List.mem_cons.mp mem).resolve_left fun here => same here.symm
      have visit : deliverVisit engine s result (.waiting t true) g = (.stay, g) := if_neg same
      rw [row, row, others t List.mem_cons_self same, sweep_slot_of_stays (fun _ => rfl) visit]
      rcases ih unique mem (fun t mem => others t (List.mem_cons_of_mem _ mem)) g with
        ⟨eager, e, failed, swept⟩ | ⟨ok, swept⟩
      · exact .inl ⟨eager, e, failed, by rw [prepend, swept]; rfl⟩
      · exact .inr ⟨ok, by rw [prepend, swept]; rfl⟩

/-- A run in which an entry is left with imports that have no imports of their own. -/
structure Abreast (entry : Specifier) (join : Join) (imports : List Specifier) (run : Run U) : Prop where
  going : run.failure = none
  pending : run.pending = .linking entry join (row run.phase? imports) .nil
  opens : (row run.phase? imports).opens = true
  unfailed : join = .eager → ∀ s ∈ imports, ∀ e, run.phase? s ≠ some (.failed e)

/-- The failures that are told of imports whose loads have come as far as some phases: of few imports any,
and of many the first one if all imports before it have been loaded. -/
inductive Prevails (phase? : Specifier → Option Phase) (imports : List Specifier) :
    Join → LoadError → Prop
  | eager {s : Specifier} {e : LoadError} (mem : s ∈ imports) (failed : phase? s = some (.failed e)) :
      Prevails phase? imports .eager e
  | ordered {before after : List Specifier} {s : Specifier} {e : LoadError}
      (split : imports = before ++ s :: after) (loaded : ∀ t ∈ before, phase? t = some .loaded)
      (failed : phase? s = some (.failed e)) : Prevails phase? imports .ordered e

/-- The imports of an entry stay side by side, or all of them have been loaded, or a failure is told. -/
inductive Advances (entry : Specifier) (join : Join) (imports : List Specifier) (run : Run U) : Prop
  | abreast (h : run.Abreast entry join imports)
  | loaded (all : ∀ s ∈ imports, run.phase? s = some .loaded)
  | failed {e : LoadError} (fails : run.failure = some e) (prevails : Prevails run.phase? imports join e)

variable {entry : Specifier} {given : Option String} {cap : Nat} {events : List Event} {event : Event}

/-- What is left of the imports is those that have not been started or are under way. -/
theorem Abreast.mem_tasks (h : run.Abreast entry join imports) {t : Task} :
    t ∈ run.pending.tasks ↔ ∃ s ∈ imports, (t = .idle s ∧ run.phase? s = none) ∨
      (t = .waiting s true ∧ ∃ phase, run.phase? s = some phase ∧ phase.isActive = true) := by
  rw [h.pending, tasks, tasks, List.append_nil]
  exact mem_tasks_row

/-- An import that is under way is waited for. -/
theorem Abreast.awaits (h : run.Abreast entry join imports) (mem : s ∈ imports) {phase : Phase}
    (found : run.phase? s = some phase) (active : phase.isActive = true) : run.Awaits s phase :=
  ⟨mem_awaited.mpr ⟨true, h.mem_tasks.mpr ⟨s, mem, .inr ⟨rfl, phase, found, active⟩⟩⟩, found⟩

/-- Events that leave the imports and their loads in step. -/
theorem Abreast.congr (h : run.Abreast entry join imports) (going : next.failure = run.failure)
    (pending : next.pending = run.pending)
    (same : ∀ s ∈ imports, slot s (run.phase? s) = slot s (next.phase? s))
    (unfailed : ∀ s ∈ imports, ∀ e, next.phase? s = some (.failed e) → run.phase? s = some (.failed e)) :
    next.Abreast entry join imports := by
  have row := row_congr same
  exact ⟨going.trans h.going, by rw [pending, h.pending, row], row ▸ h.opens,
    fun eager s mem e failed => h.unfailed eager s mem e (unfailed s mem e failed)⟩

/-! ## The entry -/

/-- A run in which nothing but the entry is loaded. -/
structure Opens (entry : Specifier) (run : Run U) : Prop where
  going : run.failure = none
  pending : run.pending = .waiting entry true .nil
  loads : ∀ s phase, run.phase? s = some phase → s = entry ∧ phase.isActive = true

/-- When the entry has been loaded, its imports are side by side. -/
theorem abreast_deliver {base : Run U} {r : Record U} (pending : base.pending = .waiting entry true .nil)
    (going : base.failure = none) (fresh : ∀ s ∈ imports, base.phase? s = none)
    (resolved : importsOf engine r = .ok imports) (filled : imports ≠ []) :
    (base.deliver engine entry (.ok r)).Abreast entry (.ofCount imports.length) imports := by
  have visit (g : Graph U) : deliverVisit engine entry (.ok r) (.waiting entry true) g =
      (.link imports, (g.insert r).setDependencies entry imports) := by
    unfold deliverVisit
    simp only [resolved, if_true]
  have opens : (ofList imports).opens = true := by
    cases imports with
    | nil => exact absurd rfl filled
    | cons s more => rfl
  have swept (g : Graph U) :
      sweep (deliverVisit engine entry (.ok r)) finish .eager (.waiting entry true .nil) g =
        (.ok (.linking entry (.ofCount imports.length) (ofList imports) .nil),
          (g.insert r).setDependencies entry imports) := by
    rw [sweep, visit, judge, relink_of_opens opens]
    rfl
  rw [← pending] at swept
  rw [deliver_eq (swept base.graph)]
  have row : row base.phase? imports = ofList imports := row_of_fresh fresh
  refine ⟨going, congrArg (linking entry _ · .nil) row.symm, row.symm ▸ opens, ?_⟩
  intro _ s mem e failed
  cases (fresh s mem).symm.trans failed

/-- A run begins with the load of an entry whose source is not given. -/
theorem opens_begin (engine : Engine U V) (entry : Specifier) (cap : Nat) :
    (begin engine entry none cap).Opens entry := by
  have same : begin engine entry none cap = (initial entry cap).startLoad entry := rfl
  rw [same]
  refine ⟨?_, ?_, fun s phase found => ?_⟩
  · rw [startLoad_eq]
    rfl
  · rw [startLoad_eq]
    rfl
  · rw [phase?_startLoad (initial entry cap) entry s rfl] at found
    split at found
    case isTrue here =>
      rw [← Option.some.inj found]
      exact ⟨here, isActive_firstPhase entry⟩
    case isFalse => cases found

/-- An entry whose source is given begins with its imports side by side. -/
theorem abreast_begin {source : String} {r : Record U}
    (built : (build engine entry true source).1 = .ok r) (resolved : importsOf engine r = .ok imports)
    (filled : imports ≠ []) (cap : Nat) :
    (begin engine entry (some source) cap).Abreast entry (.ofCount imports.length) imports ∧
      ∀ s, (begin engine entry (some source) cap).phase? s = none := by
  have same : begin engine entry (some source) cap =
    (initial entry cap).conclude engine entry (.ok source) := rfl
  have own : (outcome engine entry (entry == (initial entry cap : Run U).graph.entry)
      (.ok source)).1 = .ok r := by
    show (build engine entry (entry == entry) source).1 = _
    rw [beq_self_eq_true, built]
  rw [same, conclude_eq, own]
  exact ⟨abreast_deliver rfl rfl (fun _ _ => rfl) resolved filled, fun s => phase?_deliver ..⟩

/-- The entry goes on being loaded, or its imports are side by side. -/
theorem Opens.occurs (h : run.Opens entry) (kept : run.Kept engine entry given cap events)
    (filled : imports ≠ []) (other : entry ∉ imports)
    (own : ∀ old work answer, run.phase? entry = some old → Ends entry event old work answer →
      ∃ r, (outcome engine entry true answer).1 = .ok r ∧ importsOf engine r = .ok imports)
    (occurs : run.Occurs engine event next) :
    next.Opens entry ∨ (next.Abreast entry (.ofCount imports.length) imports ∧
      ∀ s phase, next.phase? s = some phase → s = entry ∧ phase = .loaded) := by
  have alone {s : Specifier} (other : s ≠ entry) : run.phase? s = none := by
    cases found : run.phase? s with
    | none => rfl
    | some phase => exact absurd (h.loads s phase found).1 other
  have phases {phase : Phase} {work : List Work} {base : Run U}
      (books : run.Books entry phase work base) {s : Specifier} (other : s ≠ entry) :
      base.phase? s = none := by
    rcases books.others s other with same | ⟨queued, -⟩
    · exact same.trans (alone other)
    · cases (alone other).symm.trans queued
  cases occurs.steps kept.permitted with
  | wait => exact .inl ⟨h.going, h.pending, h.loads⟩
  | start idle =>
    rw [h.pending] at idle
    cases List.mem_singleton.mp idle
  | @move _ s old phase work base awaits moves books =>
    obtain ⟨rfl, -⟩ := h.loads s old awaits.2
    refine .inl ⟨books.failure.trans h.going, books.pending.trans h.pending, fun t phase' found => ?_⟩
    by_cases same : t = s
    · subst same
      rw [books.here] at found
      exact ⟨rfl, Option.some.inj found ▸ moves.isActive.2.1⟩
    · cases (phases books same).symm.trans found
  | @close _ s old work answer base awaits ends books =>
    obtain ⟨rfl, -⟩ := h.loads s old awaits.2
    rw [kept.sound.root, beq_self_eq_true] at books ⊢
    obtain ⟨r, built, resolved⟩ := own old work answer awaits.2 ends
    rw [built] at books ⊢
    refine .inr ⟨abreast_deliver (books.pending.trans h.pending) (books.failure.trans h.going)
      (fun t mem => phases books fun same => other (same ▸ mem)) resolved filled,
      fun t phase found => ?_⟩
    rw [phase?_deliver] at found
    by_cases same : t = s
    · subst same
      rw [books.here] at found
      exact ⟨rfl, (Option.some.inj found).symm⟩
    · cases (phases books same).symm.trans found

/-! ## The imports -/

/-- Going on to the first import keeps the imports side by side. -/
theorem Abreast.start (h : run.Abreast entry join imports)
    (unmet : ∀ s ∈ imports, run.phase? s = none → run.graph.contains s = false)
    (unique : imports.Nodup) (idle : .idle s ∈ run.pending.tasks) :
    run.start.Abreast entry join imports ∧ ∀ t ∈ run.start.loading, t ∈ run.loading ∨ t ∈ imports := by
  have waits : ∃ s ∈ imports, run.phase? s = none := by
    obtain ⟨t, mem, ⟨same, fresh⟩ | ⟨same, -⟩⟩ := h.mem_tasks.mp idle
    · exact ⟨t, mem, fresh⟩
    · cases same
  obtain ⟨t, mem, fresh, swept, opens⟩ := sweep_start_row join unmet unique waits
  have same : run.start = { run.startLoad t with
      pending := .linking entry join (row (run.startLoad t).phase? imports) .nil } := by
    have outer := sweep_linking_of_opens (s := entry) swept (opens.trans h.opens)
    unfold Run.start
    rw [h.pending, outer]
    rfl
  have phases (t' : Specifier) : run.start.phase? t' =
      if t' = t then some (firstPhase t) else run.phase? t' := by
    rw [same, ← phase?_startLoad run t t' fresh]
    rfl
  constructor
  · have row : (row run.start.phase? imports) = row (run.startLoad t).phase? imports := by rw [same]; rfl
    refine ⟨?_, ?_, row ▸ opens.trans h.opens, fun eager t' mem e failed => ?_⟩
    · rw [same, startLoad_eq]
      exact h.going
    · rw [row, same]
    · rw [phases] at failed
      split at failed
      · have active := isActive_firstPhase t
        rw [Option.some.inj failed] at active
        cases active
      · exact h.unfailed eager t' mem e failed
  · intro t' loading
    rw [same, startLoad_eq] at loading
    rcases List.mem_append.mp (loading_addLoad run t _ ▸ loading) with before | here
    · exact .inl before
    · exact .inr (List.mem_singleton.mp here ▸ mem)

/-- The end of a load keeps the imports side by side, or the last of them has been loaded, or a failure is
told. -/
theorem Abreast.deliver (h : run.Abreast entry join imports) {base : Run U} {old : Phase}
    {result : Except LoadError (Record U)} (pending : base.pending = run.pending)
    (going : base.failure = run.failure) (unique : imports.Nodup) (mem : s ∈ imports)
    (found : run.phase? s = some old) (active : old.isActive = true)
    (ended : base.phase? s = some (.ended result))
    (others : ∀ t ∈ imports, t ≠ s → slot t (base.phase? t) = slot t (run.phase? t))
    (unfailed : ∀ t ∈ imports, t ≠ s → ∀ e, base.phase? t = some (.failed e) →
      run.phase? t = some (.failed e))
    (leaf : ∀ r, result = .ok r → importsOf engine r = .ok []) :
    (base.deliver engine s result).Advances entry join imports := by
  have phases : (base.deliver engine s result).phase? = base.phase? :=
    funext fun t => phase?_deliver engine base s result t
  rcases sweep_deliver_row join unique mem found active ended others leaf base.graph with
    ⟨rfl, e, rfl, swept⟩ | ⟨ok, swept⟩
  · have fails : (base.deliver engine s (.error e)).failure = some e := failure_deliver (by
      rw [pending, h.pending]
      exact sweep_linking_of_error swept)
    refine .failed fails (.eager mem ?_)
    rw [phases, ended]
    rfl
  · have calm : join = .eager → ∀ t ∈ imports, ∀ e, base.phase? t ≠ some (.failed e) := by
      intro eager t mem e failed
      by_cases same : t = s
      · subst same
        obtain ⟨r, rfl⟩ := ok eager
        rw [ended] at failed
        cases failed
      · exact h.unfailed eager t mem e (unfailed t mem same e failed)
    rcases row_cases base.phase? imports with
      ⟨all, -⟩ | ⟨before, t, e, after, split, loaded, failed, held⟩ | opens
    · exact .loaded fun t mem => by rw [phases, all t mem]
    · rw [held] at swept
      have fails : (base.deliver engine s result).failure = some e := failure_deliver (by
        rw [pending, h.pending]
        exact sweep_linking_of_held swept)
      refine .failed fails ?_
      rw [phases]
      cases join with
      | eager => exact absurd failed (calm rfl t (split ▸ List.mem_append_right _ List.mem_cons_self) e)
      | ordered => exact .ordered split loaded failed
    · have outer := sweep_linking_of_opens (s := entry) (Prod.ext swept rfl) opens
      rw [← h.pending, ← pending] at outer
      rw [deliver_eq outer]
      exact .abreast ⟨going.trans h.going, rfl, opens, calm⟩

theorem Books.slot {phase : Phase} {work : List Work} {base : Run U} (books : run.Books s phase work base)
    {t : Specifier} (other : t ≠ s) : Pending.slot t (base.phase? t) = Pending.slot t (run.phase? t) := by
  rcases books.others t other with same | ⟨queued, granted⟩
  · rw [same]
  · rw [queued, granted]
    rfl

theorem Books.failed {phase : Phase} {work : List Work} {base : Run U} (books : run.Books s phase work base)
    {t : Specifier} (other : t ≠ s) {e : LoadError} (failed : base.phase? t = some (.failed e)) :
    run.phase? t = some (.failed e) := by
  rcases books.others t other with same | ⟨-, granted⟩
  · rw [← same, failed]
  · rw [granted] at failed
    cases failed

/-- Every event keeps the imports of an entry side by side, until the last of them has been loaded or a
failure is told. -/
theorem Abreast.occurs (h : run.Abreast entry join imports)
    (kept : run.Kept engine entry given cap events) (unique : imports.Nodup) (other : entry ∉ imports)
    (leaf : ∀ s ∈ imports, ∀ old work answer, run.phase? s = some old → Ends s event old work answer →
      ∀ r, (outcome engine s false answer).1 = .ok r → importsOf engine r = .ok [])
    (occurs : run.Occurs engine event next) :
    next.Advances entry join imports ∧ ∀ t ∈ next.loading, t ∈ run.loading ∨ t ∈ imports := by
  have mem_of_awaits {s : Specifier} {phase : Phase} (awaits : run.Awaits s phase) : s ∈ imports := by
    obtain ⟨owner, mem⟩ := mem_awaited.mp awaits.1
    obtain ⟨t, listed, ⟨same, -⟩ | ⟨same, -⟩⟩ := h.mem_tasks.mp mem
    · cases same
    · cases same
      exact listed
  cases occurs.steps kept.permitted with
  | wait =>
    exact ⟨.abreast (h.congr rfl rfl (fun _ _ => rfl) fun _ _ _ failed => failed), fun _ => .inl⟩
  | start idle =>
    have unmet (s : Specifier) (mem : s ∈ imports) (fresh : run.phase? s = none) :
        run.graph.contains s = false := by
      by_contra met
      rw [Bool.not_eq_false, Graph.contains_iff] at met
      rcases kept.sound.known s met with loaded | ⟨rfl, -⟩
      · rw [fresh] at loaded
        cases loaded
      · exact other mem
    obtain ⟨abreast, loads⟩ := h.start unmet unique idle
    exact ⟨.abreast abreast, loads⟩
  | @move _ s old phase work _ awaits moves books =>
    refine ⟨.abreast (h.congr books.failure books.pending (fun t _ => ?_) fun t _ e failed => ?_),
      fun t loading => .inl (books.loading ▸ loading)⟩
    · by_cases same : t = s
      · subst same
        rw [awaits.2, books.here, slot_of_isActive moves.isActive.1, slot_of_isActive moves.isActive.2.1]
      · exact (books.slot same).symm
    · by_cases same : t = s
      · subst same
        rw [books.here] at failed
        have active := moves.isActive.2.1
        rw [Option.some.inj failed] at active
        cases active
      · exact books.failed same failed
  | @close _ s old work answer base awaits ends books =>
    have mem := mem_of_awaits awaits
    have plain : (s == run.graph.entry) = false := by
      rw [kept.sound.root]
      exact beq_false_of_ne fun same => other (same ▸ mem)
    rw [plain] at books ⊢
    refine ⟨h.deliver books.pending books.failure unique mem awaits.2 ends.isActive.1 books.here
      (fun t _ other => books.slot other) (fun t _ other e failed => books.failed other failed)
      (leaf s mem old work answer awaits.2 ends), fun t loading => .inl ?_⟩
    rw [Run.loading, loads_deliver] at loading
    exact books.loading ▸ loading

end Run

end ModuleLinker.Link
