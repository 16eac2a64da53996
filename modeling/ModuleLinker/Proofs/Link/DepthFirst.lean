import ModuleLinker.Files.Volume
import ModuleLinker.Proofs.Link.Frames
import ModuleLinker.Proofs.Link.Imports
import ModuleLinker.Proofs.Link.Sequential
import ModuleLinker.Proofs.Link.Step

/-!
# Local modules at hand

On a host that has local modules at hand, linking local modules is linking them one after another:
`link_eq_linkAll` says so of the graph, of the failure and of the order in which modules are read. What
is left of a run then always is a stack of modules with the import that comes next in the innermost one
(`Run.Facing`), and an event takes the run to where linking one module after another goes on
(`Run.exists_comes`).
-/

set_option autoImplicit false

namespace ModuleLinker.Link

open Files Pending

variable {U V : Type} {m : Type → Type}

/-- A host that has some modules at hand, so that they are read at once by some access. -/
structure Sources.AtHand [Monad m] (l : Sources) (access : Specifier → m PUnit) (host : Host m) :
    Prop where
  now : host.readsAtOnce = true
  read : ∀ s, host.read s = do access s; return l.read s

/-- Whether every reference in the modules that can be read is to a local module, if to any. -/
def Sources.StaysLocal (l : Sources) (engine : Engine U V) (entry : Specifier)
    (given : Option String) : Prop :=
  ∀ s source r references reference t, (l.sourceOf entry given s).1 = .ok source →
    (build engine s (s == entry) source).1 = .ok r → engine.imports r.unit = .ok references →
    reference ∈ references → Specifier.resolve reference s = .ok t → t.isLocal = true

/-! ## Loads -/

section Load

variable {l : Sources} {engine : Engine U V} {entry : Specifier} {given : Option String}
  {s : Specifier} {p p' : Progress U}

/-- Loading a module, by the outcome for what has been read. -/
theorem Sources.load_eq (l : Sources) (engine : Engine U V) (entry : Specifier)
    (given : Option String) (s : Specifier) (p : Progress U) :
    l.load engine entry given s p =
      let found := l.sourceOf entry given s
      let out := outcome engine s (s == entry) found.1
      let work := p.work ++ found.2 ++ out.2
      match out.1 with
      | .error e => (.error e, ⟨p.graph, work⟩)
      | .ok r =>
        match importsOf engine r with
        | .error e => (.error e, ⟨p.graph.insert r, work⟩)
        | .ok imports => (.ok imports, ⟨(p.graph.insert r).setDependencies s imports, work⟩) := by
  rw [Sources.load]
  rcases l.sourceOf entry given s with ⟨_ | source, reading⟩
  · simp only [outcome, List.append_nil]
  · dsimp only [outcome]
    rcases build engine s (s == entry) source with ⟨_ | r, building⟩
    · rfl
    · cases importsOf engine r <;> rfl

theorem readings_append (work more : List Work) :
    readings (work ++ more) = readings work ++ readings more := List.filterMap_append

/-- No module is read for making a record. -/
theorem readings_outcome (engine : Engine U V) (s : Specifier) (isEntry : Bool)
    (answer : Except LoadError String) : readings (outcome engine s isEntry answer).2 = [] := by
  cases answer with
  | error e => rfl
  | ok source =>
    have making : readings (executable s source).2 = [] := by
      unfold executable
      split <;> rfl
    rw [outcome_ok]
    unfold build
    rcases made : executable s source with ⟨_ | code, work⟩
    · rw [made] at making
      exact making
    · rw [made] at making
      dsimp only
      rw [readings_append, making]
      unfold compile
      split <;> rfl

/-- A module is read when its source is not given. -/
theorem Sources.readings_load (l : Sources) (engine : Engine U V) (entry : Specifier)
    (given : Option String) (s : Specifier) (p : Progress U) :
    readings (l.load engine entry given s p).2.work =
      readings p.work ++ readings (l.sourceOf entry given s).2 := by
  rw [l.load_eq]
  have same : readings (p.work ++ (l.sourceOf entry given s).2 ++
      (outcome engine s (s == entry) (l.sourceOf entry given s).1).2) =
        readings p.work ++ readings (l.sourceOf entry given s).2 := by
    rw [readings_append, readings_outcome, List.append_nil, readings_append]
  dsimp only
  split
  · exact same
  · split <;> exact same

/-- What a local module imports is local. -/
theorem Sources.StaysLocal.imports (h : l.StaysLocal engine entry given) {imports : List Specifier}
    (loaded : l.load engine entry given s p = (.ok imports, p')) {t : Specifier}
    (mem : t ∈ imports) : t.isLocal = true := by
  rw [l.load_eq] at loaded
  dsimp only at loaded
  cases read : (l.sourceOf entry given s).1 with
  | error e =>
    rw [read] at loaded
    cases loaded
  | ok source =>
    rw [read, outcome_ok] at loaded
    cases built : (build engine s (s == entry) source).1 with
    | error e =>
      rw [built] at loaded
      cases loaded
    | ok r =>
      rw [built] at loaded
      dsimp only at loaded
      cases resolved : importsOf engine r with
      | error e =>
        rw [resolved] at loaded
        cases loaded
      | ok found =>
        rw [resolved] at loaded
        cases loaded
        obtain ⟨references, leads, told, mapped, rfl⟩ := importsOf_eq_ok resolved
        obtain ⟨reference, here, same⟩ := (mem_of_mapM_eq_ok mapped).mp (List.mem_eraseDups.mp mem)
        rw [(build_spec built).1] at same
        exact h s source r references reference t read built told here same

end Load

namespace Run

/-! ## Where a run has come to -/

/-- A run with some imports left in the innermost of some modules that are being linked, where linking
one module after another has come as far. -/
structure Facing (entry : Specifier) (given : Option String) (frames : List Frame)
    (left : List Specifier) (p : Progress U) (run : Run U) : Prop where
  left : (run.pending, run.graph) = settle finish frames left p.graph
  work : run.work = p.work
  going : run.failure = none
  started : ∀ {s phase}, run.phase? s = some phase → s ∈ p.graph.keys
  root : p.graph.entry = entry
  given : given.isSome = true → entry ∈ p.graph.keys

/-- A run in which a module is being loaded whose source is as it is found, in front of some imports in
the innermost of some modules. -/
structure Obtaining (l : Sources) (entry : Specifier) (given : Option String) (frames : List Frame)
    (s : Specifier) (more : List Specifier) (p : Progress U) (run : Run U) : Prop where
  left : run.pending = within frames (front (.waiting s true) (ofList more))
  graph : run.graph = p.graph
  work : run.work = p.work ++ (l.sourceOf entry given s).2
  going : run.failure = none
  started : ∀ {t phase}, run.phase? t = some phase → t = s ∨ t ∈ p.graph.keys
  root : p.graph.entry = entry
  given : given.isSome = true → entry = s ∨ entry ∈ p.graph.keys

variable {l : Sources} {engine : Engine U V} {entry : Specifier} {given : Option String}
  {frames : List Frame} {s : Specifier} {more left : List Specifier} {p : Progress U} {run : Run U}

/-- Where no imports are left, the innermost module is linked, and it is the turn of the imports behind
it. -/
theorem Facing.finish {f : Frame} (h : run.Facing entry given (f :: frames) [] p) :
    run.Facing entry given frames f.rest (p.finish f.module) where
  left := h.left
  work := h.work
  going := h.going
  started found := by
    rw [Progress.finish, Graph.keys_setState]
    exact h.started found
  root := h.root
  given some := by
    rw [Progress.finish, Graph.keys_setState]
    exact h.given some

theorem Facing.pending (h : run.Facing entry given frames (s :: more) p) :
    run.pending = within frames (front (.idle s) (ofList more)) ∧ run.graph = p.graph := by
  have left := h.left
  rw [settle_cons] at left
  exact Prod.mk.inj left

/-- An import that is in the graph is passed over. -/
theorem Facing.skip (h : run.Facing entry given frames (s :: more) p)
    (mem : p.graph.contains s = true) : run.start.Facing entry given frames more p := by
  obtain ⟨pending, graph⟩ := h.pending
  have verdict : startVisit (.idle s) (run, false) = (.settled, run, true) := by
    unfold startVisit
    simp only [graph, mem, if_true]
  have swept := skipping_start.sweep_settled frames more verdict rfl
  have same : run.start = { run with
      graph := (settle Run.finish frames more run.graph).2
      pending := (settle Run.finish frames more run.graph).1 } := by
    rw [start, pending]
    rw [swept, settle_finishFlagged]
    rfl
  rw [same]
  refine ⟨?_, h.work, h.going, h.started, h.root, h.given⟩
  rw [graph]

/-- A local import that is not in the graph is loaded. -/
theorem Facing.load (h : run.Facing entry given frames (s :: more) p)
    (fresh : ¬ p.graph.contains s = true) (here : s.isLocal = true) :
    run.start.Obtaining l entry given frames s more p ∧ run.start.phase? s = some .reading ∧
      l.sourceOf entry given s = (l.read s, [.read s]) := by
  obtain ⟨pending, graph⟩ := h.pending
  have absent : s ∉ p.graph.keys := mt Graph.contains_iff.mpr fresh
  have unmet : run.phase? s = none :=
    Option.eq_none_iff_forall_ne_some.mpr fun phase found => absent (h.started found)
  have found : l.sourceOf entry given s = (l.read s, [.read s]) := by
    unfold Sources.sourceOf
    cases given with
    | none => rfl
    | some source =>
      have other : s ≠ entry := fun same => absent (same ▸ h.given rfl)
      exact if_neg other
  have verdict : startVisit (.idle s) (run, false) = (.wait true, run.startLoad s, true) := by
    unfold startVisit
    simp only [graph, fresh, unmet]
    rfl
  have swept := skipping_start.sweep_wait frames more verdict rfl
  have same : run.start = { run.startLoad s with
      pending := within frames (front (.waiting s true) (ofList more)) } := by
    rw [start, pending]
    rw [swept]
    rfl
  have phases (t : Specifier) :
      run.start.phase? t = if t = s then some .reading else run.phase? t := by
    rw [same]
    have := phase?_startLoad run s t unmet
    rw [show firstPhase s = .reading from if_pos here] at this
    exact this
  refine ⟨⟨?_, ?_, ?_, ?_, ?_, h.root, fun some => .inr (h.given some)⟩, ?_, found⟩
  · rw [same]
  · rw [same, startLoad_eq]
    exact graph
  · rw [same, found, startLoad_eq, show firstWork s = .read s from if_pos here, ← h.work]
    rfl
  · rw [same, startLoad_eq]
    exact h.going
  · intro t phase found
    rw [phases] at found
    split at found
    case isTrue this => exact .inl this
    case isFalse => exact .inr (h.started found)
  · rw [phases, if_pos rfl]

/-- A run in which loading a module in front of some imports has failed, or what the module imports
comes next. -/
def Loaded (entry : Specifier) (given : Option String) (frames : List Frame) (s : Specifier)
    (more : List Specifier) (run : Run U) : Except LoadError (List Specifier) × Progress U → Prop
  | (.error e, _) => run.failure = some e
  | (.ok imports, p) =>
    run.Facing entry given (⟨s, .ofCount imports.length, more⟩ :: frames) imports p

/-- When a module has been obtained, what it imports comes next, or its failure ends the run. -/
theorem Obtaining.conclude (h : run.Obtaining l entry given frames s more p) :
    (run.conclude engine s (l.sourceOf entry given s).1).Loaded entry given frames s more
      (l.load engine entry given s p) := by
  rw [l.load_eq, conclude_eq, h.graph, h.root]
  dsimp only
  generalize made : outcome engine s (s == entry) (l.sourceOf entry given s).1 = out
  obtain ⟨result, building⟩ := out
  dsimp only
  set base := (run.note building).setPhase s (.ended result)
  have pending : base.pending = within frames (front (.waiting s true) (ofList more)) := h.left
  have graph : base.graph = p.graph := h.graph
  have visit := deliverVisit_eq engine s result (.waiting s true) base.graph
  rw [deliverVerdict, deliverGraph, if_pos rfl, if_pos rfl] at visit
  have skipping := skipping_deliver engine s result
  cases result with
  | error e =>
    refine failure_deliver ?_
    rw [pending]
    exact skipping.sweep_fail frames more visit trivial
  | ok r =>
    dsimp only
    cases resolved : importsOf engine r with
    | error e =>
      refine failure_deliver ?_
      simp only [outcomeVerdict, resolved, if_true] at visit
      rw [pending]
      exact skipping.sweep_fail frames more visit trivial
    | ok imports =>
      have own : r.specifier = s := by
        cases found : (l.sourceOf entry given s).1 with
        | error e =>
          rw [found] at made
          cases made
        | ok source =>
          rw [found, outcome_ok] at made
          exact (build_spec (congrArg Prod.fst made)).1
      simp only [outcomeVerdict, outcomeGraph, resolved, if_true] at visit
      have swept := skipping.sweep_link frames more visit trivial
      rw [← pending] at swept
      rw [deliver_eq swept]
      refine ⟨?_, ?_, h.going, ?_, ?_, fun some => ?_⟩
      · rw [← graph]
        rfl
      · rw [← h.work]
        rfl
      · intro t phase found
        rw [Graph.keys_setDependencies, Graph.mem_keys_insert, own]
        have found : base.phase? t = some phase := found
        rw [phase?_setPhase] at found
        split at found
        case isTrue this => exact .inl this
        case isFalse => exact h.started found
      · show (p.graph.insert r).entry = entry
        rw [Graph.entry_insert, h.root]
      · rw [Graph.keys_setDependencies, Graph.mem_keys_insert, own]
        exact h.given some

theorem Obtaining.readDone (h : run.Obtaining l entry given frames s more p) :
    (run.readDone engine s (l.sourceOf entry given s).1).Loaded entry given frames s more
      (l.load engine entry given s p) := by
  have ended : (run.endExchange s).Obtaining l entry given frames s more p :=
    ⟨h.left, h.graph, h.work, h.going, h.started, h.root, h.given⟩
  exact ended.conclude

/-! ## The loop -/

theorem tasks_within (frames : List Frame) (p : Pending) :
    ∃ behind, (within frames p).tasks = p.tasks ++ behind := by
  induction frames generalizing p with
  | nil => exact ⟨[], (List.append_nil _).symm⟩
  | cons f outer ih =>
    obtain ⟨behind, same⟩ := ih (.linking f.module f.join p (ofList f.rest))
    exact ⟨(ofList f.rest).tasks ++ behind, by rw [within, same, tasks, List.append_assoc]⟩

/-- What can be done at once about the first import is done next. -/
theorem next_within {host : Host m} {giveUp : Option Nat} {t : Task} {action : Action}
    (going : run.failure = none) (pending : run.pending = within frames (front t (ofList more)))
    (found : run.taskAction? host t = some action) : run.next host giveUp = action := by
  obtain ⟨behind, same⟩ := tasks_within frames (front t (ofList more))
  have front : (front t (ofList more)).tasks = t :: (ofList more).tasks := by cases t <;> rfl
  have first : run.pending.tasks.findSome? (run.taskAction? host) = some action := by
    rw [pending, same, front, List.cons_append, List.findSome?_cons, found]
  unfold next
  rw [going]
  cases left : run.pending with
  | nil =>
    rw [left] at first
    cases first
  | _ =>
    rw [left] at first
    dsimp only
    rw [first]

section Drive

variable [Monad m] [Disk m] {host : Host m} {access : Specifier → m PUnit}

/-- A run comes to another one by some events in which some modules are read. -/
def Comes (engine : Engine U V) (host : Host m) (access : Specifier → m PUnit) (run : Run U)
    (reads : List Specifier) (last : Run U) : Prop :=
  ∃ k, ∀ n, run.drive engine host none (n + k) = do
    forM reads access
    last.drive engine host none n

/-- A run that has linked some imports, or in which a failure has ended that. -/
def Visited (entry : Specifier) (given : Option String) (frames : List Frame) (run : Run U) :
    Option LoadError × Progress U → Prop
  | (none, p) => run.Facing entry given frames [] p
  | (some e, _) => run.failure = some e

/-- A run in which everything is linked, or which has failed, ends. -/
theorem Visited.drive_eq {out : Option LoadError × Progress U}
    (h : run.Visited entry given [] out) (n : Nat) :
    run.drive engine host none (n + 1) = return Sources.result out := by
  rw [drive]
  obtain ⟨_ | e, p⟩ := out
  · have h : run.Facing entry given [] [] p := h
    obtain ⟨pending, graph⟩ := Prod.mk.inj h.left
    have next : run.next host none = .done := by
      unfold next
      rw [h.going, pending]
    rw [next]
    dsimp only
    rw [graph, h.work]
    rfl
  · have failed : run.failure = some e := h
    have next : run.next host none = .fail e := by
      unfold next
      rw [failed]
    rw [next]
    rfl

variable [LawfulMonad m]

theorem Comes.refl (run : Run U) : Comes engine host access run [] run :=
  ⟨0, fun n => by simp⟩

theorem Comes.trans {middle last : Run U} {reads more : List Specifier}
    (first : Comes engine host access run reads middle)
    (second : Comes engine host access middle more last) :
    Comes engine host access run (reads ++ more) last := by
  obtain ⟨k, first⟩ := first
  obtain ⟨k', second⟩ := second
  refine ⟨k' + k, fun n => ?_⟩
  rw [← Nat.add_assoc, first, second, List.forM_append, bind_assoc]

/-- The first import that nothing has been done for is looked after by one event. -/
theorem Facing.comes_start (h : run.Facing entry given frames (s :: more) p) :
    Comes engine host access run [] run.start := by
  have next : run.next host none = .start := next_within h.going h.pending.1 rfl
  exact ⟨1, fun n => by simp [drive, next]⟩

/-- A module that is being read is obtained by one event. -/
theorem Obtaining.comes_read (h : run.Obtaining l entry given frames s more p)
    (atHand : l.AtHand access host) (phase : run.phase? s = some .reading) :
    Comes engine host access run [s] (run.readDone engine s (l.read s)) := by
  have next : run.next host none = .read s := by
    refine next_within h.going h.left ?_
    unfold taskAction?
    simp only [phase, atHand.now, if_true]
  exact ⟨1, fun n => by simp [drive, next, atHand.read]⟩

/-- A local import that is not in the graph is read, and what comes of it is the same as when modules
are linked one after another. -/
theorem Facing.comes_load (h : run.Facing entry given frames (s :: more) p)
    (atHand : l.AtHand access host) (fresh : ¬ p.graph.contains s = true)
    (here : s.isLocal = true) :
    ∃ next, Comes engine host access run [s] next ∧
      next.Loaded entry given frames s more (l.load engine entry given s p) ∧
      readings (l.load engine entry given s p).2.work = readings p.work ++ [s] := by
  obtain ⟨obtaining, phase, found⟩ := h.load (l := l) fresh here
  refine ⟨_, h.comes_start.trans (obtaining.comes_read atHand phase), ?_, ?_⟩
  · have ends : (Run.readDone engine _ s _).Loaded entry given frames s more _ := obtaining.readDone
    rw [found] at ends
    exact ends
  · rw [l.readings_load, found]
    rfl

/-- Where linking one module after another goes on, a run goes on to the same. -/
theorem exists_comes (atHand : l.AtHand access host) (stays : l.StaysLocal engine entry given)
    (h : run.Facing entry given frames left p) (here : ∀ s ∈ left, s.isLocal = true) :
    ∃ reads last, Comes engine host access run reads last ∧
      last.Visited entry given frames (l.visitAll engine entry given left p).1 ∧
      readings (l.visitAll engine entry given left p).1.2.work = readings p.work ++ reads := by
  induction left, p using Sources.visitAll.induct l engine entry given generalizing frames run with
  | case1 p =>
    rw [Sources.visitAll_nil]
    exact ⟨[], run, .refl run, h, (List.append_nil _).symm⟩
  | case2 s more p mem ih =>
    rw [Sources.visitAll_of_contains mem]
    obtain ⟨reads, last, comes, ends, read⟩ :=
      ih (h.skip mem) fun t mem => here t (List.mem_cons_of_mem s mem)
    exact ⟨reads, last, h.comes_start.trans comes, ends, read⟩
  | case3 s more p fresh e p₁ loaded =>
    obtain ⟨next, comes, ends, read⟩ := h.comes_load atHand fresh (here s List.mem_cons_self)
    rw [loaded] at ends read
    rw [Sources.visitAll_of_error fresh loaded]
    exact ⟨[s], next, comes, ends, read⟩
  | case4 s more p fresh imports p₁ loaded e p₂ _ below ih =>
    obtain ⟨next, comes, goes, read⟩ := h.comes_load atHand fresh (here s List.mem_cons_self)
    rw [loaded] at goes read
    obtain ⟨reads, last, comesBelow, ends, readBelow⟩ := ih goes fun t mem => stays.imports loaded mem
    rw [below] at readBelow ends
    rw [Sources.visitAll_of_ok fresh loaded, below]
    refine ⟨[s] ++ reads, last, comes.trans comesBelow, ends, ?_⟩
    rw [readBelow, read, List.append_assoc]
  | case5 s more p fresh imports p₁ loaded p₂ _ below _ ihImports ihMore =>
    obtain ⟨next, comes, goes, read⟩ := h.comes_load atHand fresh (here s List.mem_cons_self)
    rw [loaded] at goes read
    obtain ⟨reads, middle, comesBelow, linked, readBelow⟩ :=
      ihImports goes fun t mem => stays.imports loaded mem
    rw [below] at readBelow linked
    obtain ⟨readsMore, last, comesMore, ends, readMore⟩ :=
      ihMore linked.finish fun t mem => here t (List.mem_cons_of_mem s mem)
    rw [Sources.visitAll_of_ok fresh loaded, below]
    refine ⟨[s] ++ reads ++ readsMore, last, (comes.trans comesBelow).trans comesMore, ends, ?_⟩
    rw [readMore, Progress.finish, readBelow, read, List.append_assoc, List.append_assoc,
      List.append_assoc]

/-- The entry is read unless its source is given. -/
theorem begin_comes (engine : Engine U V) (given : Option String) (cap : Nat)
    (atHand : l.AtHand access host) (here : entry.isLocal = true) :
    ∃ reads next, Comes engine host access (begin engine entry given cap) reads next ∧
      next.Loaded entry given [] entry [] (l.load engine entry given entry ⟨.empty entry, []⟩) ∧
      readings (l.load engine entry given entry ⟨.empty entry, []⟩).2.work = reads := by
  cases given with
  | some source =>
    have found : l.sourceOf entry (some source) entry = (.ok source, []) := if_pos rfl
    have obtaining : (initial (U := U) entry cap).Obtaining l entry (some source) [] entry []
        ⟨.empty entry, []⟩ := by
      refine ⟨rfl, rfl, ?_, rfl, fun found => (by cases found), rfl, fun _ => .inl rfl⟩
      rw [found]
      rfl
    have loaded : (Run.conclude engine _ entry _).Loaded entry _ [] entry [] _ := obtaining.conclude
    rw [found] at loaded
    refine ⟨[], _, .refl _, loaded, ?_⟩
    rw [l.readings_load, found]
    rfl
  | none =>
    have found : l.sourceOf entry none entry = (l.read entry, [.read entry]) := rfl
    have started : (begin engine entry none cap : Run U) =
        ((initial entry cap).addLoad entry .reading |>.note [.read entry]).exchange entry :=
      if_pos here
    have only (t : Specifier) : (begin engine entry none cap : Run U).phase? t =
        if t = entry then some .reading else none := by
      rw [started]
      exact phase?_addLoad (initial (U := U) entry cap) entry t .reading rfl
    have obtaining : (begin engine entry none cap : Run U).Obtaining l entry none [] entry []
        ⟨.empty entry, []⟩ := by
      rw [started]
      refine ⟨rfl, rfl, rfl, rfl, fun {t phase} found => ?_, rfl, fun none => by cases none⟩
      rw [← started, only] at found
      split at found
      case isTrue same => exact .inl same
      case isFalse => cases found
    refine ⟨[entry], _, obtaining.comes_read atHand ((only entry).trans (if_pos rfl)),
      obtaining.readDone, ?_⟩
    rw [l.readings_load, found]
    rfl

/-- A run of local modules at hand comes to the end of linking one module after another. -/
theorem begin_visited (engine : Engine U V) (given : Option String) (cap : Nat)
    (atHand : l.AtHand access host) (stays : l.StaysLocal engine entry given)
    (here : entry.isLocal = true) :
    ∃ reads last, Comes engine host access (begin engine entry given cap) reads last ∧
      last.Visited entry given []
        (l.visitAll engine entry given [entry] ⟨.empty entry, []⟩).1 ∧
      readings (l.visitAll engine entry given [entry] ⟨.empty entry, []⟩).1.2.work = reads := by
  have fresh : ¬ (Graph.empty (U := U) entry).contains entry = true := fun mem => by cases mem
  obtain ⟨reads, next, comes, goes, read⟩ := begin_comes engine given cap atHand here
  rcases loaded : l.load engine entry given entry ⟨.empty entry, []⟩ with ⟨e | imports, p₁⟩
  · rw [loaded] at goes read
    rw [Sources.visitAll_of_error fresh loaded]
    exact ⟨reads, next, comes, goes, read⟩
  · rw [loaded] at goes read
    obtain ⟨more, last, comesBelow, ends, readBelow⟩ :=
      exists_comes atHand stays goes fun t mem => stays.imports loaded mem
    rw [Sources.visitAll_of_ok fresh loaded]
    refine ⟨reads ++ more, last, comes.trans comesBelow, ?_⟩
    rcases below : (l.visitAll engine entry given imports p₁).1 with ⟨_ | e, p₂⟩
    · rw [below] at ends readBelow
      dsimp only
      rw [Sources.visitAll_nil]
      refine ⟨Facing.finish ends, ?_⟩
      rw [← read]
      exact readBelow
    · rw [below] at ends readBelow
      refine ⟨ends, ?_⟩
      rw [← read]
      exact readBelow

/-- On a host that has local modules at hand, linking local modules comes to what linking them one after
another comes to, and reads the same modules in the same order. -/
theorem link_eq_linkAll (engine : Engine U V) (host : Host m) (l : Sources)
    (access : Specifier → m PUnit) (entry : Specifier) (given : Option String)
    (atHand : l.AtHand access host) (stays : l.StaysLocal engine entry given)
    (here : entry.isLocal = true) :
    ∃ n, ∀ steps, n ≤ steps → link engine host steps entry given none = do
      forM (l.linkAll engine entry given).2 access
      return (l.linkAll engine entry given).1 := by
  obtain ⟨reads, last, ⟨k, comes⟩, ends, read⟩ :=
    begin_visited engine given host.maxFetches atHand stays here
  refine ⟨k + 1, fun steps enough => ?_⟩
  obtain ⟨n, rfl⟩ : ∃ n, steps = n + 1 + k := ⟨steps - 1 - k, by omega⟩
  rw [link, comes, ends.drive_eq, ← read]
  rfl

end Drive

/-! ## Two modules that import each other -/

/-- Two modules that import each other. -/
def cycleSources : Sources where
  read s :=
    if s = rootModule "a.js" then .ok "import './b.js';"
    else if s = rootModule "b.js" then .ok "import './a.js';"
    else .error (.localNotFound s.text s.pathText)
  known := [rootModule "a.js", rootModule "b.js"]
  mem_known {s source} read := by
    split at read
    case isTrue same => exact same ▸ List.mem_cons_self
    case isFalse =>
      split at read
      case isTrue same => exact same ▸ List.mem_cons_of_mem _ List.mem_cons_self
      case isFalse => cases read

/-- Where every reference of a module can be seen to lead to a local module, each one does. -/
theorem isLocal_of_build {s t : Specifier} {source reference : String} {references : List String}
    {isEntry : Bool} {r : Record Inspected}
    (built : (build Engine.inspector s isEntry source).1 = .ok r)
    (told : Engine.inspector.imports r.unit = .ok references) (mem : reference ∈ references)
    (leads : Specifier.resolve reference s = .ok t)
    (all : (build Engine.inspector s isEntry source).1.map (fun r =>
      r.unit.imports.all fun reference => (Specifier.resolve reference s).toOption.all (·.isLocal)) =
        .ok true) : t.isLocal = true := by
  rw [built] at all
  cases told
  have here := List.all_eq_true.mp (Except.ok.inj all) reference mem
  rw [leads] at here
  exact here

theorem staysLocal_cycleSources :
    cycleSources.StaysLocal Engine.inspector (rootModule "a.js") none := by
  intro s source r references reference t read built told mem leads
  have read : cycleSources.read s = .ok source := read
  unfold cycleSources at read
  dsimp only at read
  split at read
  case isTrue same =>
    cases read
    subst same
    exact isLocal_of_build built told mem leads (by decide +kernel)
  case isFalse =>
    split at read
    case isTrue same =>
      cases read
      subst same
      exact isLocal_of_build built told mem leads (by decide +kernel)
    case isFalse => cases read

/-- A host that has the two modules at hand. -/
def cycleAtHand : Host (StateM Volume) where
  read s := return cycleSources.read s
  readsAtOnce := true
  reply _ := .hang
  timeout := 10
  maxFetches := 1
  cache := ⟨"/c"⟩

/-- Two modules that import each other are linked one after another. -/
theorem link_eq_linkAll_cycle :
    ∃ n, ∀ steps, n ≤ steps →
      (link Engine.inspector cycleAtHand steps (rootModule "a.js") none none : StateM Volume _) = do
        forM (cycleSources.linkAll Engine.inspector (rootModule "a.js") none).2 fun _ => pure ⟨⟩
        return (cycleSources.linkAll Engine.inspector (rootModule "a.js") none).1 :=
  link_eq_linkAll Engine.inspector cycleAtHand cycleSources (fun _ => pure ⟨⟩) (rootModule "a.js") none
    ⟨rfl, fun _ => rfl⟩ staysLocal_cycleSources (by decide +kernel)

end Run

end ModuleLinker.Link
