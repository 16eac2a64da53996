import ModuleLinker.Proofs.Link.Orderly

/-!
# What is done for a module

The work that a run has done for a module, and the accesses to the host that events have made for it,
in each phase of its load. A load is started only for a module that is neither in the graph nor under
way, so that the work for a module is that of one load (`Run.Ledger`), and everything that is done for a
module is done once (`Run.Ledger.nodup_work`).
-/

set_option autoImplicit false

namespace ModuleLinker.Link

variable {U V : Type}

/-- The module that some work is for. -/
def Work.specifier : Work → Specifier
  | .read s | .lookUp s | .hit s | .fetch s | .get s | .transpile s | .compile s | .compiled s => s

/-- The access to the host that an event is. -/
def Event.access? : Event → Option Work
  | .read s _ => some (.read s)
  | .lookUp s _ => some (.lookUp s)
  | .request s => some (.get s)
  | .start | .reply .. | .store _ | .wait _ => none

/-- The accesses to the host among some events. -/
def accesses (events : List Event) : List Work := events.filterMap Event.access?

/-- The work for a module. -/
def workFor (work : List Work) (s : Specifier) : List Work := work.filter (·.specifier == s)

@[simp]
theorem workFor_append (work more : List Work) (s : Specifier) :
    workFor (work ++ more) s = workFor work s ++ workFor more s := List.filter_append ..

@[simp]
theorem accesses_append (events more : List Event) :
    accesses (events ++ more) = accesses events ++ accesses more := List.filterMap_append

/-- Work for one module only. -/
def IsFor (s : Specifier) (work : List Work) : Prop := ∀ w ∈ work, w.specifier = s

theorem IsFor.workFor_self {s : Specifier} {work : List Work} (h : IsFor s work) :
    workFor work s = work :=
  List.filter_eq_self.mpr fun w mem => beq_iff_eq.mpr (h w mem)

theorem IsFor.workFor_other {s t : Specifier} {work : List Work} (h : IsFor s work) (other : t ≠ s) :
    workFor work t = [] :=
  List.filter_eq_nil_iff.mpr fun w mem same => other ((beq_iff_eq.mp same).symm.trans (h w mem))

/-- The work of building the record of a module. -/
theorem build_work (engine : Engine U V) (s : Specifier) (isEntry : Bool) (raw : String) :
    ((build engine s isEntry raw).2).Sublist [.transpile s, .compile s, .compiled s] ∧
      ∀ r, (build engine s isEntry raw).1 = .ok r → (build engine s isEntry raw).2 =
        (if s.media.needsTranspile then [.transpile s] else []) ++ [.compile s, .compiled s] := by
  have made : (executable s raw).2 = if s.media.needsTranspile then [.transpile s] else [] := by
    unfold executable
    split <;> rfl
  have few : ((executable s raw).2).Sublist [.transpile s] := by
    rw [made]
    split
    · exact .refl _
    · exact List.nil_sublist _
  unfold build
  generalize executable s raw = result at made few
  obtain ⟨_ | code, work⟩ := result
  · exact ⟨few.trans (List.sublist_append_left [Work.transpile s] _), fun _ ok => by cases ok⟩
  · simp only [compile]
    cases engine.compile code s.text ⟨s, isEntry⟩ with
    | error message =>
      refine ⟨few.append (List.sublist_append_left [Work.compile s] [Work.compiled s]), ?_⟩
      exact fun _ ok => by cases ok
    | ok unit => exact ⟨few.append (.refl [Work.compile s, Work.compiled s]), fun _ _ => by rw [← made]⟩

theorem outcome_work (engine : Engine U V) (s : Specifier) (isEntry : Bool)
    (answer : Except LoadError String) :
    ((outcome engine s isEntry answer).2).Sublist [.transpile s, .compile s, .compiled s] := by
  cases answer with
  | error e => exact List.nil_sublist _
  | ok source => exact (build_work engine s isEntry source).1

theorem isFor_outcome (engine : Engine U V) (s : Specifier) (isEntry : Bool)
    (answer : Except LoadError String) : IsFor s (outcome engine s isEntry answer).2 := by
  intro w mem
  have mem := (outcome_work engine s isEntry answer).subset mem
  simp only [List.mem_cons, List.not_mem_nil, or_false] at mem
  rcases mem with rfl | rfl | rfl <;> rfl

/-! ## The work of a load -/

/-- How the source of a module is looked for: the work, the accesses to the host, and the answer. -/
inductive Route (events : List Event) (s : Specifier) :
    List Work → List Work → Except LoadError String → Prop
  | read {answer : Except LoadError String} (isLocal : s.isLocal = true) :
      Route events s [.read s] [.read s] answer
  | unreadable {e : LoadError} (isRemote : s.isLocal = false)
      (lookUp : .lookUp s (.error e) ∈ events) : Route events s [.lookUp s] [.lookUp s] (.error e)
  | hit {source : String} (isRemote : s.isLocal = false)
      (lookUp : .lookUp s (.ok (some source)) ∈ events) :
      Route events s [.lookUp s, .hit s] [.lookUp s] (.ok source)
  | fetch {answer : Except LoadError String} (isRemote : s.isLocal = false)
      (lookUp : .lookUp s (.ok none) ∈ events) :
      Route events s [.lookUp s, .fetch s, .get s] [.lookUp s, .get s] answer

/-- The work and the accesses for a module whose load has come as far as a phase. -/
inductive Logged (engine : Engine U V) (isEntry : Bool) (events : List Event) (s : Specifier) :
    Phase → List Work → List Work → Prop
  | reading (isLocal : s.isLocal = true) : Logged engine isEntry events s .reading [.read s] []
  | lookingUp (isRemote : s.isLocal = false) :
      Logged engine isEntry events s .lookingUp [.lookUp s] []
  | queued (isRemote : s.isLocal = false) (lookUp : .lookUp s (.ok none) ∈ events) :
      Logged engine isEntry events s .queued [.lookUp s, .fetch s] [.lookUp s]
  | granted (isRemote : s.isLocal = false) (lookUp : .lookUp s (.ok none) ∈ events) :
      Logged engine isEntry events s .granted [.lookUp s, .fetch s] [.lookUp s]
  | requested {since : Nat} (isRemote : s.isLocal = false)
      (lookUp : .lookUp s (.ok none) ∈ events) : Logged engine isEntry events s (.requested since)
        [.lookUp s, .fetch s, .get s] [.lookUp s, .get s]
  | storing {body : String} {result : Except LoadError Unit} (isRemote : s.isLocal = false)
      (lookUp : .lookUp s (.ok none) ∈ events) : Logged engine isEntry events s (.storing body result)
        [.lookUp s, .fetch s, .get s] [.lookUp s, .get s]
  | ended {phase : Phase} {log seen : List Work} {answer : Except LoadError String}
      (route : Route events s log seen answer)
      (same : phase = .ended (outcome engine s isEntry answer).1) :
      Logged engine isEntry events s phase (log ++ (outcome engine s isEntry answer).2) seen

section Logged

variable {engine : Engine U V} {isEntry : Bool} {events : List Event} {s : Specifier}
  {old phase : Phase} {log seen work : List Work} {answer : Except LoadError String}

theorem Route.append (h : Route events s log seen answer) (more : List Event) :
    Route (events ++ more) s log seen answer := by
  cases h with
  | read isLocal => exact .read isLocal
  | unreadable isRemote lookUp => exact .unreadable isRemote (List.mem_append_left _ lookUp)
  | hit isRemote lookUp => exact .hit isRemote (List.mem_append_left _ lookUp)
  | fetch isRemote lookUp => exact .fetch isRemote (List.mem_append_left _ lookUp)

theorem Logged.append (h : Logged engine isEntry events s phase log seen) (more : List Event) :
    Logged engine isEntry (events ++ more) s phase log seen := by
  cases h with
  | reading isLocal => exact .reading isLocal
  | lookingUp isRemote => exact .lookingUp isRemote
  | queued isRemote lookUp => exact .queued isRemote (List.mem_append_left _ lookUp)
  | granted isRemote lookUp => exact .granted isRemote (List.mem_append_left _ lookUp)
  | requested isRemote lookUp => exact .requested isRemote (List.mem_append_left _ lookUp)
  | storing isRemote lookUp => exact .storing isRemote (List.mem_append_left _ lookUp)
  | ended route same => exact .ended (route.append more) same

theorem ne_ended (active : phase.isActive = true) (result : Except LoadError (Record U)) :
    phase ≠ .ended result := by
  rintro rfl
  rw [isActive_ended] at active
  cases active

/-- A load that waits for a permit has done the same as one that has just got it. -/
theorem Logged.grant (h : Logged engine isEntry events s .queued log seen) :
    Logged engine isEntry events s .granted log seen := by
  cases h with
  | queued isRemote lookUp => exact .granted isRemote lookUp
  | ended _ same => exact absurd same (ne_ended rfl _)

/-- The work of a load that moves on. -/
theorem Logged.moves {now : Nat} {event : Event} (h : Logged engine isEntry events s old log seen)
    (moves : Moves now s event old phase work) :
    Logged engine isEntry (events ++ [event]) s phase (log ++ work)
      (seen ++ accesses [event]) := by
  have last : event ∈ events ++ [event] := List.mem_append_right _ List.mem_cons_self
  cases moves with
  | queue =>
    cases h with
    | lookingUp isRemote => exact .queued isRemote last
    | ended _ same => exact absurd same (ne_ended rfl _)
  | grant =>
    cases h with
    | lookingUp isRemote => exact .granted isRemote last
    | ended _ same => exact absurd same (ne_ended rfl _)
  | request =>
    cases h with
    | granted isRemote lookUp => exact .requested isRemote (List.mem_append_left _ lookUp)
    | ended _ same => exact absurd same (ne_ended rfl _)
  | receive =>
    cases h with
    | requested isRemote lookUp => exact .storing isRemote (List.mem_append_left _ lookUp)
    | ended _ same => exact absurd same (ne_ended rfl _)

/-- The work of a load that ends. -/
theorem Logged.ends {event : Event} (h : Logged engine isEntry events s old log seen)
    (ends : Ends s event old work answer) :
    Logged engine isEntry (events ++ [event]) s (.ended (outcome engine s isEntry answer).1)
      (log ++ (work ++ (outcome engine s isEntry answer).2)) (seen ++ accesses [event]) := by
  have last : event ∈ events ++ [event] := List.mem_append_right _ List.mem_cons_self
  have active := ends.isActive.1
  rw [← List.append_assoc]
  refine .ended ?_ rfl
  cases ends with
  | read =>
    cases h with
    | reading isLocal => exact .read isLocal
    | ended _ same => exact absurd same (ne_ended active _)
  | unreadable =>
    cases h with
    | lookingUp isRemote => exact .unreadable isRemote last
    | ended _ same => exact absurd same (ne_ended active _)
  | hit =>
    cases h with
    | lookingUp isRemote => exact .hit isRemote last
    | ended _ same => exact absurd same (ne_ended active _)
  | refuse =>
    cases h with
    | requested isRemote lookUp => exact .fetch isRemote (List.mem_append_left _ lookUp)
    | ended _ same => exact absurd same (ne_ended active _)
  | store =>
    cases h with
    | storing isRemote lookUp => exact .fetch isRemote (List.mem_append_left _ lookUp)
    | ended _ same => exact absurd same (ne_ended active _)

theorem Route.spec (h : Route events s log seen answer) : log.Nodup ∧ seen.Nodup ∧
    IsFor s seen ∧ ∀ w ∈ log, w ∉ [.transpile s, .compile s, .compiled s] := by
  cases h <;> simp [IsFor, Work.specifier]

/-- A load does nothing twice. -/
theorem Logged.nodup (h : Logged engine isEntry events s phase log seen) :
    log.Nodup ∧ seen.Nodup := by
  cases h with
  | @ended _ log _ answer route _ =>
    obtain ⟨first, seen, -, apart⟩ := route.spec
    have work := outcome_work engine s isEntry answer
    have build : [Work.transpile s, .compile s, .compiled s].Nodup := by simp
    exact ⟨first.append (build.sublist work) fun w mem built => apart w mem (work.subset built), seen⟩
  | _ => simp

end Logged

/-- The work of an event is for the module that it is about. -/
theorem Moves.isFor {now : Nat} {s : Specifier} {event : Event} {old phase : Phase} {work : List Work}
    (h : Moves now s event old phase work) : IsFor s work ∧ IsFor s (accesses [event]) := by
  cases h <;> simp [IsFor, Work.specifier, accesses, Event.access?]

theorem Ends.isFor {s : Specifier} {event : Event} {old : Phase} {work : List Work}
    {answer : Except LoadError String} (h : Ends s event old work answer) :
    IsFor s work ∧ IsFor s (accesses [event]) := by
  cases h <;> simp [IsFor, Work.specifier, accesses, Event.access?]

namespace Run

/-- The work for a module that is not loaded: building the record of an entry whose source is given. -/
def givenWork (engine : Engine U V) (entry : Specifier) (given : Option String) (s : Specifier) :
    List Work :=
  match given with
  | some source => if s = entry then (build engine s (s == entry) source).2 else []
  | none => []

/-- The work of a run for each module is that of its load, or of building the record of an entry whose
source is given. -/
structure Ledger (engine : Engine U V) (entry : Specifier) (given : Option String)
    (events : List Event) (run : Run U) : Prop where
  begun : ∀ s phase, run.phase? s = some phase →
    Logged engine (s == entry) events s phase (workFor run.work s) (workFor (accesses events) s)
  unbegun : ∀ s, run.phase? s = none →
    workFor (accesses events) s = [] ∧ workFor run.work s = givenWork engine entry given s

variable {engine : Engine U V} {entry : Specifier} {given : Option String} {events : List Event}
  {run : Run U} {s : Specifier}

/-- Nothing is done twice. -/
theorem Ledger.nodup (h : run.Ledger engine entry given events) (s : Specifier) :
    (workFor run.work s).Nodup ∧ (workFor (accesses events) s).Nodup := by
  cases found : run.phase? s with
  | some phase => exact (h.begun s phase found).nodup
  | none =>
    obtain ⟨seen, work⟩ := h.unbegun s found
    rw [seen, work]
    refine ⟨?_, List.nodup_nil⟩
    unfold givenWork
    split
    case h_1 source =>
      split
      · have build : [Work.transpile s, .compile s, .compiled s].Nodup := by simp
        exact build.sublist (build_work engine s (s == entry) source).1
      · exact List.nodup_nil
    case h_2 => exact List.nodup_nil

/-- Work that is done once for each module is done once. -/
theorem count_le_one_of_workFor {work : List Work} (h : ∀ s, (workFor work s).Nodup) (w : Work) :
    work.count w ≤ 1 := by
  have once := List.nodup_iff_count_le_one.mp (h w.specifier) w
  rwa [workFor, List.count_filter (by simp)] at once

/-! ## Events -/

/-- The ledger after the load of a module has gone on. -/
theorem Ledger.books (h : run.Ledger engine entry given events) {event : Event} {old phase : Phase}
    {work : List Work} {base : Run U} (found : run.phase? s = some old)
    (books : run.Books s phase work base) (isFor : IsFor s work)
    (seen : IsFor s (accesses [event]))
    (logged : ∀ log seen, Logged engine (s == entry) events s old log seen →
      Logged engine (s == entry) (events ++ [event]) s phase (log ++ work)
        (seen ++ accesses [event])) : base.Ledger engine entry given (events ++ [event]) where
  begun t phase' at_ := by
    rw [books.work, accesses_append, workFor_append, workFor_append]
    by_cases same : t = s
    · subst same
      rw [books.here] at at_
      cases at_
      rw [isFor.workFor_self, seen.workFor_self]
      exact logged _ _ (h.begun t old found)
    · rw [isFor.workFor_other same, seen.workFor_other same, List.append_nil, List.append_nil]
      rcases books.others t same with same | ⟨queued, granted⟩
      · exact (h.begun t phase' (same.symm.trans at_)).append _
      · rw [granted] at at_
        cases at_
        exact ((h.begun t .queued queued).grant).append _
  unbegun t none := by
    have other : t ≠ s := by
      rintro rfl
      rw [books.here] at none
      cases none
    rw [books.work, accesses_append, workFor_append, workFor_append, isFor.workFor_other other,
      seen.workFor_other other, List.append_nil, List.append_nil]
    rcases books.others t other with same | ⟨-, granted⟩
    · exact h.unbegun t (same.symm.trans none)
    · rw [granted] at none
      cases none

/-- A ledger depends on the loads and the work only. -/
theorem Ledger.congr (h : run.Ledger engine entry given events) {run' : Run U}
    (loads : run'.loads = run.loads) (work : run'.work = run.work) :
    run'.Ledger engine entry given events where
  begun s phase at_ := by
    rw [phase?, loads] at at_
    rw [work]
    exact h.begun s phase at_
  unbegun s at_ := by
    rw [phase?, loads] at at_
    rw [work]
    exact h.unbegun s at_

/-- Events that are no accesses to the host do not matter. -/
theorem Ledger.append (h : run.Ledger engine entry given events) {more : List Event}
    (none : accesses more = []) : run.Ledger engine entry given (events ++ more) where
  begun s phase at_ := by
    rw [accesses_append, none, List.append_nil]
    exact (h.begun s phase at_).append more
  unbegun s at_ := by
    rw [accesses_append, none, List.append_nil]
    exact h.unbegun s at_

/-- The work of a load that starts. -/
theorem logged_first (engine : Engine U V) (isEntry : Bool) (events : List Event) (s : Specifier) :
    Logged engine isEntry events s (firstPhase s) [firstWork s] [] := by
  unfold firstPhase firstWork
  split
  case isTrue isLocal => exact .reading isLocal
  case isFalse isRemote => exact .lookingUp (Bool.eq_false_iff.mpr isRemote)

/-- The ledger after a load has been started of a module for which nothing has been done. -/
theorem Ledger.startLoad (h : run.Ledger engine entry given events) (fresh : run.phase? s = none)
    (other : given.isSome = true → s ≠ entry) :
    (run.startLoad s).Ledger engine entry given events := by
  have work : (run.startLoad s).work = run.work ++ [firstWork s] := by
    rw [startLoad_eq]
    rfl
  have isFor : IsFor s [firstWork s] := by
    intro w mem
    rw [List.mem_singleton.mp mem]
    unfold firstWork
    split <;> rfl
  obtain ⟨seen, none⟩ := h.unbegun s fresh
  have none : workFor run.work s = [] := by
    rw [none]
    cases given with
    | none => rfl
    | some source => exact if_neg (other rfl)
  constructor
  case begun =>
    intro t phase at_
    rw [phase?_startLoad run s t fresh] at at_
    rw [work, workFor_append]
    by_cases same : t = s
    · subst same
      rw [if_pos rfl] at at_
      cases at_
      rw [none, seen, isFor.workFor_self]
      exact logged_first engine _ events t
    · rw [if_neg same] at at_
      rw [isFor.workFor_other same, List.append_nil]
      exact h.begun t phase at_
  case unbegun =>
    intro t at_
    rw [phase?_startLoad run s t fresh] at at_
    have apart : t ≠ s := by
      rintro rfl
      rw [if_pos rfl] at at_
      cases at_
    rw [if_neg apart] at at_
    rw [work, workFor_append, isFor.workFor_other apart, List.append_nil]
    exact h.unbegun t at_

/-- The ledger after a load has been started where there has to be a new one. -/
theorem Ledger.startBase (h : run.Ledger engine entry given events)
    (orderly : run.Orderly entry given) (s : Specifier) :
    (run.startBase s).Ledger engine entry given events := by
  unfold Run.startBase
  by_cases mem : s ∈ run.graph.keys
  · rw [if_pos (Graph.contains_iff.mpr mem)]
    exact h
  · rw [if_neg (mt Graph.contains_iff.mp mem)]
    cases found : run.phase? s with
    | some phase => exact h
    | none => exact h.startLoad found fun some same => mem (same ▸ orderly.given some)

theorem ledger_initial (engine : Engine U V) (entry : Specifier) (cap : Nat) :
    (initial entry cap : Run U).Ledger engine entry none [] :=
  ⟨fun _ _ at_ => (by cases at_), fun _ _ => ⟨rfl, rfl⟩⟩

/-- The ledger of a run for an entry whose source is given, right before its record is brought. -/
theorem ledger_given {engine : Engine U V} {entry : Specifier} {source : String} {work : List Work}
    (built : work = (build engine entry (entry == entry) source).2) (isFor : IsFor entry work)
    (cap : Nat) (phase : Phase) :
    (((initial entry cap : Run U).note work).setPhase entry phase).Ledger engine entry
      (some source) [] where
  begun s phase' at_ := by
    have none : (none : Option Phase) = some phase' := at_
    cases none
  unbegun s _ := by
    refine ⟨rfl, ?_⟩
    show workFor work s = givenWork engine entry (some source) s
    unfold givenWork
    by_cases same : s = entry
    · subst same
      rw [isFor.workFor_self, built]
      exact (if_pos rfl).symm
    · rw [isFor.workFor_other same]
      exact (if_neg same).symm

theorem ledger_begin (engine : Engine U V) (entry : Specifier) (given : Option String) (cap : Nat) :
    (begin engine entry given cap).Ledger engine entry given [] := by
  cases given with
  | none => exact (ledger_initial engine entry cap).startLoad rfl fun some => by cases some
  | some source =>
    have same : begin engine entry (some source) cap =
      (initial entry cap).conclude engine entry (.ok source) := rfl
    have root : (initial entry cap : Run U).graph.entry = entry := rfl
    have built := congrArg Prod.snd (outcome_ok engine entry (entry == entry) source)
    rw [same, conclude_eq, root]
    exact (ledger_given built (isFor_outcome engine entry _ (.ok source)) cap _).congr
      (loads_deliver ..) (work_deliver ..)

/-- The ledger is kept by every event. -/
theorem Ledger.occurs {cap : Nat} (h : run.Ledger engine entry given events)
    (kept : run.Kept engine entry given cap events) (going : run.failure = none) {event : Event}
    {next : Run U} (occurs : run.Occurs engine event next) :
    next.Ledger engine entry given (events ++ [event]) := by
  have orderly := kept.orderly going
  cases occurs.steps kept.permitted with
  | wait => exact (h.append rfl).congr rfl rfl
  | start idle =>
    obtain ⟨before, s, after, left, g, -, -, -, same⟩ := start_account orderly.proper idle
    have books := swept_books ({ run.startBase s with graph := g } : Run U) left
    rw [← same] at books
    exact ((h.startBase orderly s).append rfl).congr books.1 books.2.2.1
  | move awaits moves books =>
    obtain ⟨isFor, seen⟩ := moves.isFor
    exact h.books awaits.2 books isFor seen fun _ _ logged => logged.moves moves
  | @close _ s _ _ answer _ awaits ends books =>
    obtain ⟨isFor, seen⟩ := ends.isFor
    rw [kept.sound.root] at books ⊢
    have next := h.books awaits.2 books ((List.forall_mem_append).mpr
      ⟨isFor, isFor_outcome engine s (s == entry) answer⟩) seen fun _ _ logged => logged.ends ends
    exact next.congr (loads_deliver ..) (work_deliver ..)

/-- The ledger holds whatever events have led to a run. -/
theorem Reached.ledger {cap : Nat} (h : Reached engine entry given cap events run) :
    run.Ledger engine entry given events := by
  have both := h.keepsEvents
    (P := fun events run => run.Kept engine entry given cap events ∧
      run.Ledger engine entry given events)
    (fun going occurs ⟨kept, ledger⟩ =>
      ⟨kept.occurs going occurs, ledger.occurs kept going occurs⟩)
    ⟨kept_begin engine entry given cap, ledger_begin engine entry given cap⟩
  exact both.2

end Run

end ModuleLinker.Link
