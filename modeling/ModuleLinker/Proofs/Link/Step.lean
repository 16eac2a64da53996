import ModuleLinker.Proofs.Link.Deliver

/-!
# Steps

Every event of a run in one of four forms (`Run.Occurs.steps`): time goes on, an import is looked
after, the load of a module moves on (`Moves`), or it ends and its outcome is brought to whoever waits
for it (`Ends`). In the last two forms `Run.Books` says all that changes in the books of the run.
-/

set_option autoImplicit false

namespace ModuleLinker.Link

variable {U V : Type}

/-- The phase in which a load with an outcome has ended. -/
def Phase.ended : Except LoadError (Record U) → Phase
  | .ok _ => .loaded
  | .error e => .failed e

/-- The outcome of a load that has got a source or a failure, and the work of making it. -/
def outcome (engine : Engine U V) (s : Specifier) (isEntry : Bool) :
    Except LoadError String → Except LoadError (Record U) × List Work
  | .ok source => build engine s isEntry source
  | .error e => (.error e, [])

theorem outcome_ok (engine : Engine U V) (s : Specifier) (isEntry : Bool) (source : String) :
    outcome engine s isEntry (.ok source) = build engine s isEntry source := rfl

/-- How an event moves the load of a module from one phase to another, and the work of it. -/
inductive Moves (now : Nat) (s : Specifier) : Event → Phase → Phase → List Work → Prop
  | queue : Moves now s (.lookUp s (.ok none)) .lookingUp .queued [.fetch s]
  | grant : Moves now s (.lookUp s (.ok none)) .lookingUp .granted [.fetch s]
  | request : Moves now s (.request s) .granted (.requested now) [.get s]
  | receive {since : Nat} {body : String} {outcome : Except LoadError Unit} :
      Moves now s (.reply s (.ok body) outcome) (.requested since) (.storing body outcome) []

/-- How an event ends the load of a module that is in a phase: the work of it, before a record is
built, and the answer. -/
inductive Ends (s : Specifier) : Event → Phase → List Work → Except LoadError String → Prop
  | read {answer : Except LoadError String} : Ends s (.read s answer) .reading [] answer
  | unreadable {e : LoadError} : Ends s (.lookUp s (.error e)) .lookingUp [] (.error e)
  | hit {source : String} :
      Ends s (.lookUp s (.ok (some source))) .lookingUp [.hit s] (.ok source)
  | refuse {since : Nat} {e : LoadError} {outcome : Except LoadError Unit} :
      Ends s (.reply s (.error e) outcome) (.requested since) [] (.error e)
  | store {body : String} {outcome : Except LoadError Unit} :
      Ends s (.store s) (.storing body outcome) [] (outcome.map fun _ => body)

/-- A load goes on only while it has not ended. -/
theorem Moves.isActive {now : Nat} {s : Specifier} {event : Event} {old phase : Phase}
    {work : List Work} (h : Moves now s event old phase work) :
    old.isActive = true ∧ phase.isActive = true ∧ old ≠ .queued := by
  cases h <;> exact ⟨rfl, rfl, fun same => by cases same⟩

theorem Ends.isActive {s : Specifier} {event : Event} {old : Phase} {work : List Work}
    {answer : Except LoadError String} (h : Ends s event old work answer) :
    old.isActive = true ∧ old ≠ .queued := by
  cases h <;> exact ⟨rfl, fun same => by cases same⟩

@[simp]
theorem isActive_ended (result : Except LoadError (Record U)) :
    (Phase.ended result).isActive = false := by
  cases result <;> rfl

namespace Run

/-- A run with the same modules and imports as another one, but with the load of a module in a phase
and some more work done. A load that has waited for a permit may have got it. -/
structure Books (run : Run U) (s : Specifier) (phase : Phase) (work : List Work) (base : Run U) :
    Prop where
  graph : base.graph = run.graph
  pending : base.pending = run.pending
  failure : base.failure = run.failure
  now : base.now = run.now
  work : base.work = run.work ++ work
  loading : base.loading = run.loading
  here : base.phase? s = some phase
  others : ∀ t, t ≠ s → base.phase? t = run.phase? t ∨
    (run.phase? t = some .queued ∧ base.phase? t = some .granted)

/-- The events of a run in four forms. -/
inductive Steps (engine : Engine U V) (run : Run U) : Event → Run U → Prop
  | wait {time : Nat} : Steps engine run (.wait time) { run with now := max time run.now }
  | start {s : Specifier} (idle : .idle s ∈ run.pending.tasks) : Steps engine run .start run.start
  | move {event : Event} {s : Specifier} {old phase : Phase} {work : List Work} {base : Run U}
      (awaits : run.Awaits s old) (moves : Moves run.now s event old phase work)
      (books : run.Books s phase work base) : Steps engine run event base
  | close {event : Event} {s : Specifier} {old : Phase} {work : List Work}
      {answer : Except LoadError String} {base : Run U} (awaits : run.Awaits s old)
      (ends : Ends s event old work answer)
      (books : run.Books s (.ended (outcome engine s (s == run.graph.entry) answer).1)
        (work ++ (outcome engine s (s == run.graph.entry) answer).2) base) :
      Steps engine run event
        (base.deliver engine s (outcome engine s (s == run.graph.entry) answer).1)

theorem mem_awaited {p : Pending} {s : Specifier} :
    s ∈ p.awaited ↔ ∃ owner, .waiting s owner ∈ p.tasks := by
  unfold Pending.awaited
  rw [List.mem_filterMap]
  constructor
  · rintro ⟨t, mem, same⟩
    cases t with
    | idle _ => cases same
    | waiting _ owner => cases same; exact ⟨owner, mem⟩
  · rintro ⟨owner, mem⟩
    exact ⟨_, mem, rfl⟩

/-- The end of a load: its outcome is written down and brought to whoever waits for it. -/
theorem conclude_eq (engine : Engine U V) (run : Run U) (s : Specifier)
    (answer : Except LoadError String) :
    run.conclude engine s answer =
      ((run.note (outcome engine s (s == run.graph.entry) answer).2).setPhase s
        (.ended (outcome engine s (s == run.graph.entry) answer).1)).deliver engine s
        (outcome engine s (s == run.graph.entry) answer).1 := by
  cases answer with
  | error e =>
    show run.fail engine s e = _
    simp only [outcome, note, List.append_nil]
    rfl
  | ok source =>
    show run.obtain engine s source = _
    unfold Run.obtain outcome
    dsimp only
    cases (build engine s (s == run.graph.entry) source).1 <;> rfl

/-- Changing the phase of a load, after changes in the books that leave it alone. -/
theorem Books.ofSetPhase {run base : Run U} {s : Specifier} {old phase : Phase} {work : List Work}
    (found : run.phase? s = some old) (was : old ≠ .queued) (graph : base.graph = run.graph)
    (pending : base.pending = run.pending) (failure : base.failure = run.failure)
    (now : base.now = run.now) (done : base.work = run.work ++ work)
    (loading : base.loading = run.loading)
    (phases : ∀ t, base.phase? t = run.phase? t ∨
      (run.phase? t = some .queued ∧ base.phase? t = some .granted)) :
    run.Books s phase work (base.setPhase s phase) where
  graph := graph
  pending := pending
  failure := failure
  now := now
  work := done
  loading := by rw [loading_setPhase, loading]
  here := by
    rw [phase?_setPhase, if_pos rfl]
    rcases phases s with same | ⟨queued, -⟩
    · rw [same, found]
      rfl
    · rw [found] at queued
      exact absurd (Option.some.inj queued) was
  others t other := by
    rw [phase?_setPhase, if_neg other]
    exact phases t

section Frame

variable (engine : Engine U V) (run : Run U) (s : Specifier) (result : Except LoadError (Record U))

/-- Sweeping leaves the books alone. -/
theorem swept_books (left : Except LoadError Pending) :
    (run.swept left).loads = run.loads ∧ (run.swept left).permits = run.permits ∧
      (run.swept left).work = run.work ∧ (run.swept left).now = run.now ∧
      (run.swept left).graph = run.graph := by
  cases left <;> exact ⟨rfl, rfl, rfl, rfl, rfl⟩

@[simp]
theorem loads_deliver : (run.deliver engine s result).loads = run.loads := (swept_books _ _).1

@[simp]
theorem permits_deliver : (run.deliver engine s result).permits = run.permits :=
  (swept_books _ _).2.1

@[simp]
theorem work_deliver : (run.deliver engine s result).work = run.work := (swept_books _ _).2.2.1

@[simp]
theorem now_deliver : (run.deliver engine s result).now = run.now := (swept_books _ _).2.2.2.1

@[simp]
theorem phase?_deliver (t : Specifier) : (run.deliver engine s result).phase? t = run.phase? t := by
  rw [phase?, loads_deliver, phase?]

end Frame

/-! ## Permits along events -/

variable {engine : Engine U V} {total : Nat} {run : Run U}

/-- A load that is started has no permit and waits for none. -/
theorem Permitted.startLoad (h : run.Permitted total) {s : Specifier}
    (fresh : run.phase? s = none) : (run.startLoad s).Permitted total := by
  have first : firstPhase s ≠ .queued ∧ (firstPhase s).holds = false := by
    unfold firstPhase
    split <;> exact ⟨fun same => (by cases same), rfl⟩
  rw [startLoad_eq]
  have added : (run.addLoad s (firstPhase s)).Permitted total := by
    constructor
    case unique =>
      rw [loading_addLoad]
      exact h.unique.append (List.nodup_singleton s)
        (List.disjoint_singleton.mpr (phase?_eq_none_iff.mp fresh))
    case waiting =>
      intro t
      rw [phase?_addLoad run s t _ fresh]
      show t ∈ run.permits.queue ↔ _
      rw [h.waiting t]
      by_cases same : t = s
      · subst same
        simp [fresh, first.1]
      · simp [same]
    case once => exact h.once
    case total =>
      show (run.loads ++ [(s, firstPhase s)]).countP _ + run.permits.free = _
      rw [List.countP_append, List.countP_singleton]
      simp only [first.2, Bool.false_eq_true, if_false, Nat.add_zero]
      exact h.total
    case busy => exact h.busy
  exact added.congr rfl rfl

theorem Permitted.startBase (h : run.Permitted total) (s : Specifier) :
    (run.startBase s).Permitted total := by
  unfold Run.startBase
  split
  · exact h
  · split
    · exact h
    case _ fresh => exact h.startLoad fresh

theorem Permitted.start (h : run.Permitted total) : run.start.Permitted total := by
  obtain ⟨acts, account⟩ := Pending.exists_account startVisit finishFlagged .eager
    run.pending (run, false)
  have kept := account.passes.keeps (P := fun a => a.1.Permitted total) ?_ ?_ h
  · obtain ⟨loads, permits, -⟩ := swept_books
      (run.pending.sweep startVisit finishFlagged .eager (run, false)).2.1
      (run.pending.sweep startVisit finishFlagged .eager (run, false)).1
    exact kept.congr loads permits
  · rintro t ⟨run, flag⟩ h
    cases flag with
    | true => rw [startVisit_flagged]; exact h
    | false =>
      cases t with
      | waiting s owner => exact h
      | idle s => rw [startVisit_idle]; exact h.startBase s
  · exact fun s a h => h.congr rfl rfl

/-- A load that ends without a permit. -/
theorem Permitted.conclude (engine : Engine U V) (h : run.Permitted total) {s : Specifier} {old : Phase}
    (found : run.phase? s = some old) (was : old ≠ .queued) (answer : Except LoadError String) :
    (run.conclude engine s answer).Permitted (total - old.holds.toNat) := by
  rw [conclude_eq]
  refine Permitted.congr ?_ (loads_deliver ..) (permits_deliver ..)
  generalize (outcome engine s (s == run.graph.entry) answer).1 = result
  have becomes : Phase.ended result ≠ .queued := by cases result <;> exact fun same => by cases same
  have none : (Phase.ended result).holds = false := by cases result <;> rfl
  have noted : (run.note (outcome engine s (s == run.graph.entry) answer).2).Permitted total :=
    h.congr rfl rfl
  have next := noted.setPhase found was becomes
  rw [none, Bool.toNat_false, Nat.add_zero] at next
  exact next

/-- A load that gives its permit back and ends. -/
theorem Permitted.release_conclude (engine : Engine U V) (h : run.Permitted total) {s : Specifier} {old : Phase}
    (found : run.phase? s = some old) (holds : old.holds = true) (answer : Except LoadError String) :
    (run.release.conclude engine s answer).Permitted total := by
  have was : old ≠ .queued := fun same => by rw [same] at holds; cases holds
  have found : run.release.phase? s = some old := by
    rcases h.phase?_release s with same | ⟨queued, -⟩
    · rw [same, found]
    · rw [found] at queued
      exact absurd (Option.some.inj queued) was
  have next := h.release.conclude engine found was answer
  rw [holds, Bool.toNat_true, Nat.add_sub_cancel] at next
  exact next

/-- The number of permits stays the same. -/
theorem Permitted.occurs (h : run.Permitted total) {event : Event} {next : Run U}
    (occurs : run.Occurs engine event next) : next.Permitted total := by
  cases occurs with
  | start _ => exact h.start
  | @read s _ awaits =>
    have h : (run.endExchange s).Permitted total := h.congr rfl rfl
    exact h.conclude engine awaits.2 (fun same => by cases same) _
  | @lookUp s answer awaits =>
    have h : (run.endExchange s).Permitted total := h.congr rfl rfl
    have was : Phase.lookingUp ≠ .queued := fun same => by cases same
    match answer with
    | .error e => exact h.conclude engine awaits.2 was (.error e)
    | .ok (some source) =>
      have h : ((run.endExchange s).note [.hit s]).Permitted total := h.congr rfl rfl
      exact h.conclude engine awaits.2 was (.ok source)
    | .ok none => exact (h.acquire awaits.2).congr rfl rfl
  | @request s awaits =>
    have h : (run.note [.get s]).Permitted total := h.congr rfl rfl
    exact h.setPhase_same awaits.2 (fun same => by cases same) (fun same => by cases same) rfl
  | @receive s _ _ _ awaits =>
    have h : (run.exchange s).Permitted total := h.congr rfl rfl
    exact h.setPhase_same awaits.2 (fun same => by cases same) (fun same => by cases same) rfl
  | refuse awaits => exact h.release_conclude engine awaits.2 rfl (.error _)
  | @store s _ _ awaits =>
    have h : (run.endExchange s).Permitted total := h.congr rfl rfl
    exact h.release_conclude engine awaits.2 rfl _
  | wait => exact h.congr rfl rfl

/-- Giving a permit back leaves everything but loads and permits alone. -/
theorem release_books (run : Run U) : run.release.graph = run.graph ∧
    run.release.pending = run.pending ∧ run.release.failure = run.failure ∧
    run.release.now = run.now ∧ run.release.work = run.work ∧ run.release.loading = run.loading := by
  rcases split : run.permits.queue with _ | ⟨t, more⟩
  · rw [release_of_nil split]
    exact ⟨rfl, rfl, rfl, rfl, rfl, rfl⟩
  · rw [release_of_cons split]
    exact ⟨rfl, rfl, rfl, rfl, rfl, loading_setPhase ..⟩

/-- A load that gives its permit back and ends has one of the four forms, also where the run does not
wait for the file system any more. -/
theorem Permitted.release_steps (h : run.Permitted total) {event : Event} {s : Specifier}
    {old : Phase} (answer : Except LoadError String) (exchanges : List Specifier)
    (awaits : run.Awaits s old) (ends : Ends s event old [] answer) :
    run.Steps engine event
      (({ run with exchanges := exchanges } : Run U).release.conclude engine s answer) := by
  have h : ({ run with exchanges := exchanges } : Run U).Permitted total := h.congr rfl rfl
  obtain ⟨graph, pending, failure, now, work, loading⟩ :=
    release_books { run with exchanges := exchanges }
  rw [conclude_eq, graph]
  refine .close awaits ends (.ofSetPhase awaits.2 ends.isActive.2 graph pending failure now ?_
    loading h.phase?_release)
  show Run.work (Run.release _) ++ _ = _
  rw [work, List.nil_append]

/-- Every event has one of the four forms. -/
theorem Occurs.steps {event : Event} {next : Run U} (occurs : run.Occurs engine event next)
    (h : run.Permitted total) : run.Steps engine event next := by
  have still (t : Specifier) : run.phase? t = run.phase? t ∨
      (run.phase? t = some .queued ∧ run.phase? t = some .granted) := .inl rfl
  cases occurs with
  | start idle => exact .start idle
  | wait => exact .wait
  | @read s answer awaits =>
    have same : run.readDone engine s answer = (run.endExchange s).conclude engine s answer := rfl
    rw [same, conclude_eq]
    exact .close awaits .read (.ofSetPhase awaits.2 (fun same => by cases same) rfl rfl rfl rfl rfl
      rfl still)
  | @lookUp s answer awaits =>
    have was : Phase.lookingUp ≠ .queued := fun same => by cases same
    match answer with
    | .error e =>
      have same : run.lookedUp engine s (.error e) =
        (run.endExchange s).conclude engine s (.error e) := rfl
      rw [same, conclude_eq]
      exact .close awaits .unreadable (.ofSetPhase awaits.2 was rfl rfl rfl rfl rfl rfl still)
    | .ok (some source) =>
      have same : run.lookedUp engine s (.ok (some source)) =
        ((run.endExchange s).note [.hit s]).conclude engine s (.ok source) := rfl
      rw [same, conclude_eq]
      refine .close awaits .hit (.ofSetPhase awaits.2 was rfl rfl rfl rfl ?_ rfl still)
      exact List.append_assoc ..
    | .ok none =>
      unfold Run.lookedUp Permits.acquire
      dsimp only
      split
      · exact .move awaits .queue (.ofSetPhase awaits.2 was rfl rfl rfl rfl rfl rfl still)
      · exact .move awaits .grant (.ofSetPhase awaits.2 was rfl rfl rfl rfl rfl rfl still)
  | @request s awaits =>
    exact .move awaits .request (.ofSetPhase awaits.2 (fun same => by cases same) rfl rfl rfl rfl rfl
      rfl still)
  | receive awaits =>
    refine .move awaits .receive (.ofSetPhase awaits.2 (fun same => by cases same) rfl rfl rfl rfl ?_
      rfl still)
    exact (List.append_nil _).symm
  | refuse awaits => exact h.release_steps (.error _) run.exchanges awaits .refuse
  | store awaits => exact h.release_steps _ _ awaits .store

end Run

end ModuleLinker.Link
