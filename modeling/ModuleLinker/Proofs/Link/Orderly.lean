import ModuleLinker.Proofs.Link.Sound

/-!
# Runs that go on

What holds of a run as long as it has not failed, whether or not a failure is held back: whoever is
waited for is under way, whatever has been loaded is in the graph, and what is left to do is in the
form in which sweeps leave it. `Run.Ending` describes a run right before the outcome of a load is
brought to those who wait for it, so that the beginning of a run with a given source and the end of
any load can be treated alike.
-/

set_option autoImplicit false

namespace ModuleLinker.Link

variable {U V : Type}

/-- How failures among the imports of modules in a graph are told. -/
def Told (g : Graph U) (s : Specifier) (join : Join) : Prop :=
  ∃ r ∈ g.records, r.specifier = s ∧ join = .ofCount r.dependencies.length

/-- How failures are told does not change while records advance. -/
theorem Told.advanced {g g' : Graph U} (h : g.Advanced g') {s : Specifier} {join : Join}
    (told : Told g s join) : Told g' s join := by
  obtain ⟨r, mem, rfl, same⟩ := told
  obtain ⟨r', mem', step⟩ := h.exists_after mem
  exact ⟨r', mem', by rw [step.eq], by rw [same, step.eq]⟩

theorem Pending.Proper.imp {told told' : Specifier → Join → Prop}
    (h : ∀ s join, told s join → told' s join) {join : Join} {p : Pending}
    (proper : p.Proper told join) : p.Proper told' join := by
  induction p generalizing join with
  | nil => trivial
  | idle s rest ih => exact ih proper
  | waiting s owner rest ih => exact ih proper
  | linking s inner imports rest ihImports ihRest =>
    obtain ⟨tells, opens, first, second⟩ := proper
    exact ⟨h s inner tells, opens, ihImports first, ihRest second⟩
  | held e rest ih => exact ⟨proper.1, ih proper.2⟩

namespace Run

/-- What holds of a run that has not failed. -/
structure Orderly (entry : Specifier) (given : Option String) (run : Run U) : Prop where
  proper : run.pending.Proper (Told run.graph) .eager
  active : ∀ s owner, .waiting s owner ∈ run.pending.tasks →
    ∃ phase, run.phase? s = some phase ∧ phase.isActive = true
  loaded : ∀ s, run.phase? s = some .loaded → s ∈ run.graph.keys
  given : given.isSome = true → entry ∈ run.graph.keys

/-- A run right before the outcome of a load is brought. -/
structure Ending (engine : Engine U V) (entry : Specifier) (given : Option String)
    (events : List Event) (s : Specifier) (result : Except LoadError (Record U)) (run : Run U) :
    Prop where
  sound : run.Sound engine entry given events
  fresh : s ∉ run.graph.keys
  built : ∀ r, result = .ok r → ∃ raw, Sourced entry given events s raw ∧
    (build engine s (s == entry) raw).1 = .ok r
  known : ∀ r, result = .ok r →
    run.phase? s = some .loaded ∨ (s = entry ∧ given.isSome = true)
  proper : run.pending.Proper (Told run.graph) .eager
  awaited : s ∈ run.pending.awaited
  active : ∀ t owner, t ≠ s → .waiting t owner ∈ run.pending.tasks →
    ∃ phase, run.phase? t = some phase ∧ phase.isActive = true
  loaded : ∀ t, run.phase? t = some .loaded → t ∈ run.graph.keys ∨ (t = s ∧ ∃ r, result = .ok r)
  given : given.isSome = true →
    entry ∈ run.graph.keys ∨ (entry = s ∧ run.pending = .waiting s true .nil)

/-- A graph with the record of a module whose load ends, and with what the module imports where that
is known. -/
def putIn (g : Graph U) (r : Record U) (imports : List Specifier) : Graph U :=
  { g with records := g.records ++ [{ Graph.admitted r with dependencies := imports }] }

section PutIn

variable {g g' : Graph U} {r : Record U} {imports : List Specifier}

theorem keys_of_putIn (advanced : (putIn g r imports).Advanced g') :
    g'.keys = g.keys ++ [r.specifier] := by
  rw [advanced.keys, ← Graph.admitted_specifier]
  exact List.map_append

/-- The records of a graph after one has been put in are the others and that one. -/
theorem records_of_putIn (advanced : (putIn g r imports).Advanced g') {r' : Record U}
    (mem : r' ∈ g'.records) : (∃ r₀ ∈ g.records, r₀.Advanced r') ∨
      Record.Advanced { Graph.admitted r with dependencies := imports } r' := by
  obtain ⟨r₀, mem₀, step⟩ := advanced.exists_before mem
  rcases List.mem_append.mp mem₀ with old | new
  · exact .inl ⟨r₀, old, step⟩
  · rw [List.mem_singleton.mp new] at step
    exact .inr step

end PutIn

variable {engine : Engine U V} {entry : Specifier} {given : Option String} {events : List Event}
  {run : Run U} {s : Specifier} {result : Except LoadError (Record U)}

theorem Ending.specifier (h : run.Ending engine entry given events s result) {r : Record U}
    (ok : result = .ok r) : r.specifier = s := by
  obtain ⟨raw, -, built⟩ := h.built r ok
  exact (build_spec built).1

/-- Whoever waits for the load is visited, or the whole run stays as it is. -/
theorem Ending.exists_visited (h : run.Ending engine entry given events s result)
    {acts : List Act} {left : Except LoadError Pending} {g : Graph U}
    (account : Pending.Account (deliverVisit engine s result) finish .eager run.pending run.graph
      acts (left, g)) : ∃ owner, .waiting s owner ∈ acts.filterMap Act.task? := by
  by_contra none
  have stays : ∀ act ∈ acts, act.stays = true := by
    intro act mem
    cases act with
    | finished _ => rfl
    | visited t v =>
      have verdict := verdict_of_passes account.passes mem
      cases t with
      | idle _ => rw [verdict]; rfl
      | waiting s' owner =>
        have other : s' ≠ s := by
          rintro rfl
          exact none ⟨owner, List.mem_filterMap.mpr ⟨_, mem, rfl⟩⟩
        rw [verdict, deliverVerdict, if_neg other]
        rfl
  obtain ⟨visited, -⟩ := account.still _ h.proper stays
  obtain ⟨owner, mem⟩ := mem_awaited.mp h.awaited
  exact none ⟨owner, visited ▸ mem⟩

/-- The graph after the outcome of a load has been brought. -/
theorem Ending.graph (h : run.Ending engine entry given events s result)
    {acts : List Act} {left : Except LoadError Pending} {g : Graph U}
    (account : Pending.Account (deliverVisit engine s result) finish .eager run.pending run.graph
      acts (left, g)) :
    match result with
    | .error _ => run.graph.Advanced g
    | .ok r => ∃ imports, (putIn run.graph r imports).Advanced g ∧
      (.waiting s true ∈ acts.filterMap Act.task? → ∀ found, importsOf engine r = .ok found →
        imports = found) := by
  obtain ⟨owner, mem⟩ := h.exists_visited account
  have advanced := advanced_of_passes account.passes (.refl run.graph)
  obtain ⟨none, -⟩ | ⟨owner, -, best, same⟩ := deliverAll_eq engine s result
    (acts.filterMap Act.task?) run.graph
  · exact absurd mem (none owner)
  · rw [same] at advanced
    cases result with
    | error e => exact advanced
    | ok r =>
      have own := h.specifier rfl
      have fresh : r.specifier ∉ run.graph.keys := own ▸ h.fresh
      have none : r.dependencies = [] := by
        obtain ⟨raw, -, built⟩ := h.built r rfl
        exact (build_spec built).2.2.2.2.2.1
      have plain : run.graph.insert r = putIn run.graph r [] := by
        rw [Graph.insert_of_not_mem fresh, putIn, ← none]
        unfold Graph.admitted
        split <;> rfl
      cases found : importsOf engine r with
      | error e =>
        refine ⟨[], ?_, fun _ _ same => by rw [found] at same; cases same⟩
        cases owner <;> simpa [outcomeGraph, found, plain] using advanced
      | ok imports =>
        cases owner with
        | false =>
          refine ⟨[], by simpa [outcomeGraph, plain] using advanced, fun mem => ?_⟩
          cases best mem
        | true =>
          refine ⟨imports, ?_, fun _ _ same => Except.ok.inj (found.symm.trans same)⟩
          rw [outcomeGraph, found] at advanced
          rw [putIn, ← Graph.setDependencies_insert fresh, own]
          exact advanced

/-- The imports that are left after the outcome of a load has been brought: others that were there
before, and those of a module that is looked after from now on. -/
theorem mem_left_of_deliver {acts : List Act} {q : Pending} {g : Graph U}
    (account : Pending.Account (deliverVisit engine s result) finish .eager run.pending run.graph
      acts (.ok q, g)) {t : Task} (mem : t ∈ q.tasks) :
    (t ∈ run.pending.tasks ∧ ∀ owner, t ≠ .waiting s owner) ∨
      ∃ r imports d, result = .ok r ∧ .waiting s true ∈ acts.filterMap Act.task? ∧
        importsOf engine r = .ok imports ∧ d ∈ imports ∧ t = .idle d := by
  have mem := (account.left q rfl).subset mem
  obtain ⟨act, here, leaves⟩ := List.mem_flatMap.mp mem
  cases act with
  | finished _ => cases leaves
  | visited t' v =>
    have visited : t' ∈ acts.filterMap Act.task? := List.mem_filterMap.mpr ⟨_, here, rfl⟩
    have old := account.visited.subset visited
    have verdict := verdict_of_passes account.passes here
    subst verdict
    cases t' with
    | idle d =>
      obtain rfl := List.mem_singleton.mp leaves
      exact .inl ⟨old, fun owner same => by cases same⟩
    | waiting s' owner =>
      by_cases same : s' = s
      · subst same
        rw [Act.leaves, deliverVerdict, if_pos rfl] at leaves
        rcases outcomeVerdict_cases engine result owner with
          ⟨e, fail⟩ | settled | ⟨r, imports, ok, rfl, found, link⟩
        · rw [fail] at leaves
          cases leaves
        · rw [settled] at leaves
          cases leaves
        · rw [link] at leaves
          obtain ⟨d, imported, rfl⟩ := List.mem_map.mp leaves
          exact .inr ⟨r, imports, d, ok, visited, found, imported, rfl⟩
      · rw [Act.leaves, deliverVerdict, if_neg same] at leaves
        obtain rfl := List.mem_singleton.mp leaves
        refine .inl ⟨old, fun owner here => same ?_⟩
        cases here
        rfl

/-- Bringing the outcome of a load keeps what holds of a run at every point. -/
theorem Ending.toSound (h : run.Ending engine entry given events s result) :
    (run.deliver engine s result).Sound engine entry given events := by
  obtain ⟨acts, left, g, account, same⟩ := deliver_account engine run s result
  have graph := h.graph account
  rw [same]
  refine Sound.swept ?_ left
  cases result with
  | error e => exact h.sound.advanced graph
  | ok r =>
    obtain ⟨imports, advanced, -⟩ := graph
    obtain ⟨raw, sourced, built⟩ := h.built r rfl
    have spec := build_spec built
    have fresh : ({ Graph.admitted r with dependencies := imports } : Record U).fresh = r := by
      obtain ⟨-, -, -, -, state, none, -⟩ := spec
      unfold Graph.admitted Record.fresh
      rw [if_pos state]
      simp [← state, ← none]
    have own : ({ Graph.admitted r with dependencies := imports } : Record U).specifier = s :=
      (Graph.admitted_specifier r).trans spec.1
    have put := h.sound.put { Graph.admitted r with dependencies := imports }
      (own ▸ h.fresh) (own ▸ sourced) (by rw [own, fresh, built]) (own ▸ h.known r rfl)
    exact put.advanced advanced

/-- A run in which everybody waits for one load fails with it. -/
theorem failure_deliver_error (engine : Engine U V) {owner : Bool}
    (alone : run.pending = .waiting s owner .nil) (e : LoadError) :
    (run.deliver engine s (.error e)).failure = some e := by
  unfold deliver
  rw [alone]
  simp [Pending.sweep, Pending.andThen, Pending.judge, deliverVisit, swept]

/-- Bringing the outcome of a load leaves a run that goes on in order. -/
theorem Ending.orderly (h : run.Ending engine entry given events s result)
    (going : (run.deliver engine s result).failure = none) :
    (run.deliver engine s result).Orderly entry given := by
  obtain ⟨acts, left, g, account, same⟩ := deliver_account engine run s result
  have graph := h.graph account
  have phases (t : Specifier) : (run.deliver engine s result).phase? t = run.phase? t :=
    phase?_deliver ..
  rw [same] at going phases ⊢
  cases left with
  | error e => cases going
  | ok q =>
    -- Whatever the outcome, records stay where they are and only ever advance.
    have told (s' : Specifier) (join : Join) (old : Told run.graph s' join) : Told g s' join := by
      cases result with
      | error e => exact old.advanced graph
      | ok r =>
        obtain ⟨imports, advanced, -⟩ := graph
        obtain ⟨r', mem, same⟩ := old
        exact Told.advanced advanced ⟨r', List.mem_append_left _ mem, same⟩
    have keys (t : Specifier) (mem : t ∈ run.graph.keys) : t ∈ g.keys :=
      growing_deliver.mem_keys account.passes mem
    have here (r : Record U) (ok : result = .ok r) : s ∈ g.keys := by
      subst ok
      obtain ⟨imports, advanced, -⟩ := graph
      rw [keys_of_putIn advanced, h.specifier rfl]
      exact List.mem_append_right _ List.mem_cons_self
    constructor
    case proper =>
      refine account.proper (Told g) (h.proper.imp told) ?_ q rfl
      intro t imports mem
      have verdict := verdict_of_passes account.passes mem
      have visited : t ∈ acts.filterMap Act.task? := List.mem_filterMap.mpr ⟨_, mem, rfl⟩
      obtain ⟨rfl, r, rfl, found⟩ := deliverVerdict_eq_link verdict.symm
      obtain ⟨imports', advanced, best⟩ := graph
      obtain rfl := best visited imports found
      refine Told.advanced advanced ⟨_, List.mem_append_right _ List.mem_cons_self, ?_, rfl⟩
      exact (Graph.admitted_specifier r).trans (h.specifier rfl)
    case active =>
      intro t owner mem
      rw [phases]
      rcases mem_left_of_deliver account mem with ⟨old, other⟩ | ⟨_, _, _, _, _, _, _, same⟩
      · exact h.active t owner (fun same => other owner (by rw [same])) old
      · cases same
    case loaded =>
      intro t loaded
      rw [phases] at loaded
      rcases h.loaded t loaded with mem | ⟨rfl, r, ok⟩
      · exact keys t mem
      · exact here r ok
    case given =>
      intro some
      rcases h.given some with mem | ⟨rfl, alone⟩
      · exact keys entry mem
      · cases result with
        | ok r => exact here r rfl
        | error e =>
          have failed := failure_deliver_error engine alone e
          rw [same, going] at failed
          cases failed

/-! ## Going on to the first import -/

/-- A load is started for a module that is neither in the graph nor under way, and changes nothing
else. -/
theorem phase?_startBase (run : Run U) (s t : Specifier) :
    ((run.startBase s).phase? t = run.phase? t ∧ (t = s → run.startVerdict s ≠ .wait true)) ∨
      (t = s ∧ s ∉ run.graph.keys ∧ run.phase? s = none ∧
        (run.startBase s).phase? t = some (firstPhase s)) := by
  unfold startBase startVerdict
  by_cases mem : s ∈ run.graph.keys
  · rw [if_pos (Graph.contains_iff.mpr mem), if_pos (Graph.contains_iff.mpr mem)]
    exact .inl ⟨rfl, fun _ same => by cases same⟩
  · rw [if_neg (mt Graph.contains_iff.mp mem), if_neg (mt Graph.contains_iff.mp mem)]
    cases found : run.phase? s with
    | some phase => exact .inl ⟨rfl, fun _ same => by cases phase <;> cases same⟩
    | none =>
      show ((run.startLoad s).phase? t = _ ∧ _) ∨ _
      rw [phase?_startLoad run s t found]
      by_cases same : t = s
      · exact .inr ⟨same, mem, rfl, if_pos same⟩
      · exact .inl ⟨if_neg same, fun here => absurd here same⟩

/-- Starting a load where it is needed keeps what holds of a run at every point. -/
theorem Sound.startBase (h : run.Sound engine entry given events) (orderly : run.Orderly entry given)
    (s : Specifier) : (run.startBase s).Sound engine entry given events where
  root := by rw [graph_startBase]; exact h.root
  unique := by rw [graph_startBase]; exact h.unique
  known t mem := by
    rw [graph_startBase] at mem
    rcases phase?_startBase run s t with ⟨same, -⟩ | ⟨rfl, fresh, -⟩
    · rw [same]
      exact h.known t mem
    · exact absurd mem fresh
  unloaded some := by
    rcases phase?_startBase run s entry with ⟨same, -⟩ | ⟨rfl, fresh, -⟩
    · rw [same]
      exact h.unloaded some
    · exact absurd (orderly.given some) fresh
  built r mem := by
    rw [graph_startBase] at mem
    exact h.built r mem
  storing t body result at_ := by
    rcases phase?_startBase run s t with ⟨same, -⟩ | ⟨-, -, -, first⟩
    · rw [same] at at_
      exact h.storing t body result at_
    · rw [first] at at_
      unfold firstPhase at at_
      split at at_ <;> cases at_

/-- The imports that are left when a run goes on: others that were there before, and the first one
that nothing had been done for, where it waits for its module. -/
theorem mem_left_of_start {before after : List Act} {v : Verdict} {q : Pending} {out : Run U × Bool}
    (account : Pending.Account startVisit finishFlagged .eager run.pending (run, false)
      (before ++ .visited (.idle s) v :: after) (.ok q, out))
    (stay : ∀ act ∈ before ++ after, act.stays = true) {t : Task} (mem : t ∈ q.tasks) :
    t ∈ run.pending.tasks ∨ t ∈ v.leaves (.idle s) := by
  have mem := (account.left q rfl).subset mem
  obtain ⟨act, here, leaves⟩ := List.mem_flatMap.mp mem
  have old (t' : Task) (visited : act.task? = some t') : t' ∈ run.pending.tasks :=
    account.visited.subset (List.mem_filterMap.mpr ⟨act, here, visited⟩)
  rw [List.mem_append, List.mem_cons] at here
  rcases or_left_comm.mp here with rfl | here
  · exact .inr leaves
  · have stays := stay act (List.mem_append.mpr here)
    cases act with
    | finished _ => cases leaves
    | visited t' v' =>
      cases v' with
      | stay =>
        obtain rfl := List.mem_singleton.mp leaves
        exact .inl (old t rfl)
      | _ => cases stays

/-- What becomes of an import when a run goes on leaves it waiting, if anything is left of it. -/
theorem leaves_startVerdict {t : Task} (mem : t ∈ (run.startVerdict s).leaves (.idle s)) :
    ∃ owner, t = .waiting s owner ∧ run.startVerdict s = .wait owner := by
  rcases startVerdict_cases run s with
    ⟨-, v⟩ | ⟨-, ⟨e, -, v⟩ | ⟨phase, -, -, v⟩ | ⟨-, v⟩⟩
  · rw [v] at mem
    cases mem
  · rw [v] at mem
    cases mem
  · rw [v] at mem
    exact ⟨false, List.mem_singleton.mp mem, v⟩
  · rw [v] at mem
    exact ⟨true, List.mem_singleton.mp mem, v⟩

/-- An import that nothing has been done for is not linked before its module has been loaded. -/
theorem startVerdict_ne_link (imports : List Specifier) : run.startVerdict s ≠ .link imports := by
  intro link
  rcases startVerdict_cases run s with
    ⟨-, v⟩ | ⟨-, ⟨e, -, v⟩ | ⟨phase, -, -, v⟩ | ⟨-, v⟩⟩ <;>
  · rw [link] at v
    cases v

/-- Going on to the first import leaves a run in order. -/
theorem Orderly.start (h : run.Orderly entry given) {s' : Specifier}
    (idle : .idle s' ∈ run.pending.tasks) (going : run.start.failure = none) :
    run.start.Orderly entry given := by
  obtain ⟨before, s, after, left, g, account, stay, advanced, same⟩ := start_account h.proper idle
  rw [same] at going ⊢
  cases left with
  | error e => cases going
  | ok q =>
    constructor
    case proper =>
      refine account.proper (Told g) (h.proper.imp fun s join => Told.advanced advanced) ?_ q rfl
      intro t imports mem
      rw [List.mem_append, List.mem_cons] at mem
      rcases or_left_comm.mp mem with link | mem
      · exact absurd (Act.visited.inj link).2.symm (startVerdict_ne_link imports)
      · have stays := stay _ (List.mem_append.mpr mem)
        cases stays
    case active =>
      intro t owner mem
      show ∃ phase, (run.startBase s).phase? t = some phase ∧ _
      rcases phase?_startBase run s t with ⟨same, old⟩ | ⟨-, -, -, first⟩
      · rw [same]
        rcases mem_left_of_start account stay mem with old | new
        · exact h.active t owner old
        · obtain ⟨owner', same', wait⟩ := leaves_startVerdict new
          obtain ⟨rfl, rfl⟩ := Task.waiting.inj same'
          -- The load of a module that is joined has not ended, or else the module were in the graph.
          rcases startVerdict_cases run t with
            ⟨-, v⟩ | ⟨fresh, ⟨e, -, v⟩ | ⟨phase, found, unfailed, v⟩ | ⟨none, v⟩⟩
          · rw [wait] at v
            cases v
          · rw [wait] at v
            cases v
          · refine ⟨phase, found, ?_⟩
            cases phase with
            | loaded => exact absurd (h.loaded t found) fresh
            | failed e => exact absurd rfl (unfailed e)
            | _ => rfl
          · exact absurd v (old rfl)
      · exact ⟨_, first, isActive_firstPhase s⟩
    case loaded =>
      intro t loaded
      show t ∈ g.keys
      rw [advanced.keys]
      rcases phase?_startBase run s t with ⟨same, -⟩ | ⟨-, -, -, first⟩
      · exact h.loaded t (same.symm.trans loaded)
      · have loaded := first.symm.trans loaded
        unfold firstPhase at loaded
        split at loaded <;> cases loaded
    case given =>
      intro some
      show entry ∈ g.keys
      rw [advanced.keys]
      exact h.given some

/-! ## Events -/

/-- The source that a load ends with has been brought by an event. -/
theorem Ends.sourced (h : run.Sound engine entry given events) {event : Event} {old : Phase}
    {work : List Work} {source : String} (found : run.phase? s = some old)
    (ends : Ends s event old work (.ok source)) :
    Sourced entry given (events ++ [event]) s source := by
  refine .inr ⟨?_, ?_⟩
  · rintro rfl
    cases given with
    | none => rfl
    | some _ =>
      rw [h.unloaded rfl] at found
      cases found
  generalize same : (Except.ok source : Except LoadError String) = answer at ends
  cases ends with
  | read =>
    subst same
    exact ⟨_, List.mem_append_right _ List.mem_cons_self, .read⟩
  | unreadable => cases same
  | hit =>
    cases same
    exact ⟨_, List.mem_append_right _ List.mem_cons_self, .hit⟩
  | refuse => cases same
  | @store body result =>
    cases result with
    | error e => cases same
    | ok _ =>
      cases same
      exact ⟨_, List.mem_append_left _ (h.storing s _ (.ok ()) found), .receive⟩

/-- A load that ends in a run in order. -/
theorem Orderly.ending (h : run.Orderly entry given) (sound : run.Sound engine entry given events)
    {event : Event} {old : Phase} {work more : List Work} {answer : Except LoadError String}
    {base : Run U} (awaits : run.Awaits s old) (ends : Ends s event old work answer)
    (books : run.Books s (.ended (outcome engine s (s == run.graph.entry) answer).1) more base) :
    base.Ending engine entry given (events ++ [event]) s
      (outcome engine s (s == run.graph.entry) answer).1 where
  sound := by
    refine sound.books awaits.2 ends.isActive.1 books fun body result same => ?_
    have active := isActive_ended (outcome engine s (s == run.graph.entry) answer).1
    rw [same] at active
    cases active
  fresh := by
    rw [books.graph]
    exact sound.not_mem_keys awaits.2 ends.isActive.1
  built r ok := by
    cases answer with
    | error e => cases ok
    | ok source =>
      refine ⟨source, Ends.sourced sound awaits.2 ends, ?_⟩
      rw [← sound.root]
      exact ok
  known r ok := by
    rw [books.here, ok]
    exact .inl rfl
  proper := by
    rw [books.pending, books.graph]
    exact h.proper
  awaited := by
    rw [books.pending]
    exact awaits.1
  active t owner other mem := by
    rw [books.pending] at mem
    obtain ⟨phase, found, active⟩ := h.active t owner mem
    rcases books.others t other with same | ⟨-, granted⟩
    · exact ⟨phase, same.trans found, active⟩
    · exact ⟨_, granted, rfl⟩
  loaded t loaded := by
    rw [books.graph]
    by_cases same : t = s
    · subst same
      rw [books.here] at loaded
      cases ended : (outcome engine t (t == run.graph.entry) answer).1 with
      | error e =>
        rw [ended] at loaded
        cases loaded
      | ok r => exact .inr ⟨rfl, r, rfl⟩
    · rcases books.others t same with same | ⟨-, granted⟩
      · exact .inl (h.loaded t (same.symm.trans loaded))
      · rw [granted] at loaded
        cases loaded
  given some := by
    rw [books.graph]
    exact .inl (h.given some)

/-- A run for an entry whose source is given, right before its record is brought. -/
theorem ending_begin (engine : Engine U V) (entry : Specifier) (source : String) (cap : Nat)
    (more : List Work) (phase : Phase) :
    (((initial entry cap : Run U).note more).setPhase entry phase).Ending engine entry (some source) []
      entry (build engine entry (entry == entry) source).1 where
  sound := {
    root := rfl
    unique := List.nodup_nil
    known := fun _ mem => by cases mem
    unloaded := fun _ => rfl
    built := fun _ mem => by cases mem
    storing := fun _ _ _ at_ => by cases at_ }
  fresh := List.not_mem_nil
  built r ok := ⟨source, .inl ⟨rfl, rfl⟩, ok⟩
  known _ _ := .inr ⟨rfl, rfl⟩
  proper := trivial
  awaited := mem_awaited.mpr ⟨true, List.mem_cons_self⟩
  active t owner other mem := by
    obtain ⟨same, -⟩ := Task.waiting.inj (List.mem_singleton.mp mem)
    exact absurd same other
  loaded _ at_ := by cases at_
  given _ := .inr ⟨rfl, rfl⟩

/-- What holds of every run. -/
structure Kept (engine : Engine U V) (entry : Specifier) (given : Option String) (cap : Nat)
    (events : List Event) (run : Run U) : Prop where
  sound : run.Sound engine entry given events
  permitted : run.Permitted (max cap 1)
  orderly : run.failure = none → run.Orderly entry given

theorem kept_begin (engine : Engine U V) (entry : Specifier) (given : Option String) (cap : Nat) :
    (begin engine entry given cap).Kept engine entry given cap [] := by
  have permitted : (initial entry cap : Run U).Permitted (max cap 1) :=
    ⟨List.nodup_nil, fun s => by simp [initial, Permits.ofCap, phase?], List.nodup_nil,
      Nat.zero_add _, fun busy => absurd rfl busy⟩
  cases given with
  | some source =>
    have same : begin engine entry (some source) cap =
      (initial entry cap).conclude engine entry (.ok source) := rfl
    rw [same, conclude_eq]
    have ending := ending_begin engine entry source cap
    exact ⟨(ending _ _).toSound, permitted.congr (loads_deliver ..) (permits_deliver ..),
      (ending _ _).orderly⟩
  | none =>
    have same : begin engine entry none cap = (initial entry cap).startLoad entry := rfl
    have first (s : Specifier) : ((initial entry cap : Run U).startLoad entry).phase? s =
        if s = entry then some (firstPhase entry) else none :=
      phase?_startLoad (initial entry cap) entry s rfl
    have starts (phase : Phase) (s : Specifier) (ended : ∀ s, phase ≠ firstPhase s) :
        ((initial entry cap : Run U).startLoad entry).phase? s ≠ some phase := by
      rw [first]
      split
      · exact fun same => ended entry (Option.some.inj same).symm
      · exact fun same => by cases same
    have loaded (s : Specifier) : Phase.loaded ≠ firstPhase s := fun same => by
      unfold firstPhase at same
      split at same <;> cases same
    have storing (body : String) (result : Except LoadError Unit) (s : Specifier) :
        Phase.storing body result ≠ firstPhase s := fun same => by
      unfold firstPhase at same
      split at same <;> cases same
    have empty : ((initial entry cap : Run U).startLoad entry).graph = .empty entry ∧
        ((initial entry cap : Run U).startLoad entry).pending = .waiting entry true .nil := by
      rw [startLoad_eq]
      exact ⟨rfl, rfl⟩
    obtain ⟨graph, pending⟩ := empty
    rw [same]
    constructor
    case permitted => exact permitted.startLoad rfl
    case sound =>
      constructor
      case root => rw [graph]; rfl
      case unique => rw [graph]; exact List.nodup_nil
      case known => rw [graph]; exact fun _ mem => by cases mem
      case unloaded => exact fun some => by cases some
      case built => rw [graph]; exact fun _ mem => by cases mem
      case storing => exact fun s body result at_ => absurd at_ (starts _ s (storing body result))
    case orderly =>
      refine fun _ => ⟨?_, ?_, fun s at_ => absurd at_ (starts _ s loaded), fun some => by cases some⟩
      · rw [pending]
        trivial
      · intro s owner mem
        rw [pending] at mem
        obtain ⟨rfl, -⟩ := Task.waiting.inj (List.mem_singleton.mp mem)
        exact ⟨firstPhase s, by rw [first, if_pos rfl], isActive_firstPhase s⟩

/-- A run that goes on with nothing new in its graph and its imports is in order. -/
theorem Orderly.books (h : run.Orderly entry given) {old phase : Phase} {work : List Work}
    {base : Run U} (found : run.phase? s = some old) (books : run.Books s phase work base)
    (active : phase.isActive = true) : base.Orderly entry given where
  proper := by
    rw [books.pending, books.graph]
    exact h.proper
  active t owner mem := by
    rw [books.pending] at mem
    by_cases same : t = s
    · subst same
      exact ⟨phase, books.here, active⟩
    · obtain ⟨phase, found, active⟩ := h.active t owner mem
      rcases books.others t same with same | ⟨-, granted⟩
      · exact ⟨phase, same.trans found, active⟩
      · exact ⟨_, granted, rfl⟩
  loaded t loaded := by
    rw [books.graph]
    by_cases same : t = s
    · subst same
      rw [books.here] at loaded
      cases loaded
      cases active
    · rcases books.others t same with same | ⟨-, granted⟩
      · exact h.loaded t (same.symm.trans loaded)
      · rw [granted] at loaded
        cases loaded
  given some := by
    rw [books.graph]
    exact h.given some

/-- What holds of a run is kept by every event. -/
theorem Kept.occurs {cap : Nat} (h : run.Kept engine entry given cap events)
    (going : run.failure = none) {event : Event} {next : Run U}
    (occurs : run.Occurs engine event next) :
    next.Kept engine entry given cap (events ++ [event]) := by
  have orderly := h.orderly going
  have permitted := h.permitted.occurs occurs
  cases occurs.steps h.permitted with
  | wait =>
    obtain ⟨root, unique, known, unloaded, built, storing⟩ := h.sound.append [_]
    obtain ⟨proper, active, loaded, given⟩ := orderly
    exact ⟨⟨root, unique, known, unloaded, built, storing⟩, permitted,
      fun _ => ⟨proper, active, loaded, given⟩⟩
  | start idle =>
    refine ⟨?_, permitted, orderly.start idle⟩
    obtain ⟨before, s, after, left, g, -, -, advanced, same⟩ := start_account orderly.proper idle
    rw [same]
    refine Sound.swept ?_ left
    exact ((h.sound.append [_]).startBase orderly s).advanced (by rw [graph_startBase]; exact advanced)
  | move awaits moves books =>
    refine ⟨h.sound.books awaits.2 moves.isActive.1 books ?_, permitted,
      fun _ => orderly.books awaits.2 books moves.isActive.2.1⟩
    intro body result storing
    cases moves with
    | receive => cases storing; rfl
    | _ => cases storing
  | close awaits ends books =>
    have ending := orderly.ending h.sound awaits ends books
    exact ⟨ending.toSound, permitted, ending.orderly⟩

/-- What holds of a run holds whatever events have led to it. -/
theorem Reached.kept {cap : Nat} (h : Reached engine entry given cap events run) :
    run.Kept engine entry given cap events :=
  h.keepsEvents (fun going occurs kept => kept.occurs going occurs)
    (kept_begin engine entry given cap)

end Run

end ModuleLinker.Link
