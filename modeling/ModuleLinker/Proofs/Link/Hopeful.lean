import ModuleLinker.Proofs.Graph.Walk
import ModuleLinker.Proofs.Link.Orderly

/-!
# Runs without failures

What holds of a run while no failure is held back. A module counts as linked as soon as its imports are
in the graph or under way, whoever looks after them, so the invariant says of every import of a record
where it is: in the graph already, or still to be settled. Every load that has not ended has an owner
who goes on with its imports, and so nothing gets lost.
-/

set_option autoImplicit false

namespace ModuleLinker.Link

variable {U V : Type}

/-- What a module imports does not depend on how far it has come. -/
theorem importsOf_fresh (engine : Engine U V) (r : Record U) :
    importsOf engine r.fresh = importsOf engine r := rfl

/-- An import that is visited in a sweep without failures leaves what its verdict says. -/
theorem Pending.Exact.exists_visited {p q : Pending} {acts : List Act} (h : Exact p acts q)
    {t : Task} (mem : t ∈ p.tasks) :
    ∃ v, .visited t v ∈ acts ∧ ∀ t' ∈ v.leaves t, t' ∈ q.tasks := by
  rw [← h.visited, List.mem_filterMap] at mem
  obtain ⟨act, here, same⟩ := mem
  cases act with
  | finished _ => cases same
  | visited t' v =>
    cases same
    refine ⟨v, here, fun t' leaves => ?_⟩
    rw [h.left, List.mem_flatMap]
    exact ⟨_, here, leaves⟩

/-- A sweep that leaves no failure held back has met none. -/
theorem Pending.Account.toExact {σ : Type} {visit : Task → σ → Verdict × σ}
    {finish : Specifier → σ → σ} {join : Join} {p q : Pending} {a b : σ} {acts : List Act}
    (account : Pending.Account visit finish join p a acts (.ok q, b)) (hopeful : q.hopeless = false) :
    p.hopeless = false ∧ (∀ act ∈ acts, act.fails = false) ∧ Exact p acts q := by
  have never (why : p.hopeless = true ∨ ∃ act ∈ acts, act.fails = true) : False := by
    have hopeless := account.hopeless why q rfl
    rw [hopeful] at hopeless
    cases hopeless
  have before : p.hopeless = false := by
    rw [Bool.eq_false_iff]
    exact fun hopeless => never (.inl hopeless)
  have calm (act : Act) (mem : act ∈ acts) : act.fails = false := by
    rw [Bool.eq_false_iff]
    exact fun fails => never (.inr ⟨act, mem, fails⟩)
  obtain ⟨q', same, exact⟩ := account.exact before calm
  cases same
  exact ⟨before, calm, exact⟩

namespace Run

/-- Whether a run has met no failure. -/
def Calm (run : Run U) : Prop := run.failure = none ∧ run.pending.hopeless = false

/-- Whether a module is in the graph of a run or still to be settled. -/
def Meets (run : Run U) (s : Specifier) : Prop :=
  s ∈ run.graph.keys ∨ ∃ t ∈ run.pending.tasks, t.specifier = s

/-- What holds of a run that has met no failure. -/
structure Hopeful (engine : Engine U V) (run : Run U) : Prop where
  resolved : ∀ r ∈ run.graph.records, importsOf engine r = .ok r.dependencies
  linked : ∀ r ∈ run.graph.records, r.state = .linked ∨ r.specifier ∈ run.pending.linkings
  found : ∀ r ∈ run.graph.records, ∀ d ∈ r.dependencies, run.Meets d
  owned : ∀ s phase, run.phase? s = some phase → phase.isActive = true →
    .waiting s true ∈ run.pending.tasks
  unfailed : ∀ s e, run.phase? s ≠ some (.failed e)
  root : run.Meets run.graph.entry
  needed : ∀ s, run.Meets s → run.graph.Needs s

variable {engine : Engine U V} {entry : Specifier} {given : Option String} {events : List Event}
  {run : Run U} {s : Specifier} {result : Except LoadError (Record U)}

/-- A run without failures that goes on with nothing new in its graph and its imports. -/
theorem Hopeful.books (h : run.Hopeful engine) {old phase : Phase} {work : List Work}
    {base : Run U} (found : run.phase? s = some old) (was : old.isActive = true)
    (books : run.Books s phase work base) (unfailed : ∀ e, phase ≠ .failed e) :
    base.Hopeful engine where
  resolved := by rw [books.graph]; exact h.resolved
  linked := by rw [books.graph, books.pending]; exact h.linked
  found := by
    unfold Meets
    rw [books.graph, books.pending]
    exact h.found
  owned t phase' at_ active := by
    rw [books.pending]
    by_cases same : t = s
    · subst same
      exact h.owned t old found was
    · rcases books.others t same with same | ⟨queued, -⟩
      · exact h.owned t phase' (same.symm.trans at_) active
      · exact h.owned t .queued queued rfl
  unfailed t e at_ := by
    by_cases same : t = s
    · subst same
      rw [books.here] at at_
      exact unfailed e (Option.some.inj at_)
    · rcases books.others t same with same | ⟨-, granted⟩
      · exact h.unfailed t e (same.symm.trans at_)
      · rw [granted] at at_
        cases at_
  root := by
    unfold Meets
    rw [books.graph, books.pending]
    exact h.root
  needed := by
    unfold Meets
    rw [books.graph, books.pending]
    exact h.needed

/-- In a run without failures, the outcome of a load is a record whose imports can be resolved. -/
theorem Ending.resolves (h : run.Ending engine entry given events s result)
    (owner : .waiting s true ∈ run.pending.tasks) (calm : (run.deliver engine s result).Calm) :
    ∃ r imports, result = .ok r ∧ importsOf engine r = .ok imports := by
  obtain ⟨acts, left, g, account, same⟩ := deliver_account engine run s result
  rw [same] at calm
  cases left with
  | error e => cases calm.1
  | ok q =>
    obtain ⟨-, unfailed, exact⟩ := account.toExact calm.2
    obtain ⟨v, here, -⟩ := exact.exists_visited owner
    have verdict := verdict_of_passes account.passes here
    rw [deliverVerdict, if_pos rfl] at verdict
    have fails := unfailed _ here
    rcases outcomeVerdict_cases engine result true with
      ⟨e, fail⟩ | settled | ⟨r, imports, ok, -, found, -⟩
    · rw [verdict, fail] at fails
      cases fails
    · cases result with
      | error e => cases settled
      | ok r =>
        unfold outcomeVerdict at settled
        cases found : importsOf engine r with
        | error e => simp [found] at settled
        | ok imports => simp [found] at settled
    · exact ⟨r, imports, ok, found⟩

/-- Bringing the outcome of a load in a run without failures leaves one, unless it is a failure. -/
theorem Ending.hopeful (h : run.Ending engine entry given events s result)
    (hopeful : run.Hopeful engine) (owner : .waiting s true ∈ run.pending.tasks)
    (calm : (run.deliver engine s result).Calm) :
    (run.deliver engine s result).Hopeful engine := by
  obtain ⟨r, imports, rfl, resolved⟩ := h.resolves owner calm
  have unique := h.toSound.unique
  have own := h.specifier rfl
  obtain ⟨acts, left, g, account, same⟩ := deliver_account engine run s (.ok r)
  obtain ⟨imports', advanced, best⟩ := h.graph account
  have phases (t : Specifier) : (run.deliver engine s (.ok r)).phase? t = run.phase? t :=
    phase?_deliver ..
  rw [same] at calm phases unique ⊢
  cases left with
  | error e => cases calm.1
  | ok q =>
    obtain ⟨-, -, exact⟩ := account.toExact calm.2
    -- The owner is visited, and goes on with the imports.
    obtain ⟨v, visited, leaves⟩ := exact.exists_visited owner
    have verdict := verdict_of_passes account.passes visited
    have link : v = .link imports := by
      rw [verdict, deliverVerdict, if_pos rfl, outcomeVerdict, if_pos rfl, resolved]
    subst link
    obtain rfl := best (List.mem_filterMap.mpr ⟨_, visited, rfl⟩) imports resolved
    have root : g.entry = run.graph.entry := advanced.entry
    have keys : g.keys = run.graph.keys ++ [s] := own ▸ keys_of_putIn advanced
    have here : s ∈ g.keys := by
      rw [keys]
      exact List.mem_append_right _ List.mem_cons_self
    have grows (a b : Specifier) (old : run.graph.Imports a b) : g.Imports a b := by
      obtain ⟨r', mem, rest⟩ := old
      exact Graph.Imports.advanced advanced ⟨r', List.mem_append_left _ mem, rest⟩
    have needs {t : Specifier} (old : run.graph.Needs t) : g.Needs t :=
      old.mono root grows
    have meets {t : Specifier} (old : run.Meets t) : t ∈ g.keys ∨ ∃ t' ∈ q.tasks, t'.specifier = t := by
      rcases old with mem | ⟨t', mem, rfl⟩
      · rw [keys]
        exact .inl (List.mem_append_left _ mem)
      · obtain ⟨v, visited, leaves⟩ := exact.exists_visited mem
        have verdict := verdict_of_passes account.passes visited
        subst verdict
        cases t' with
        | idle d => exact .inr ⟨_, leaves _ List.mem_cons_self, rfl⟩
        | waiting s' owner =>
          by_cases same : s' = s
          · exact .inl (same ▸ here)
          · rw [deliverVerdict, if_neg same] at leaves
            exact .inr ⟨_, leaves _ List.mem_cons_self, rfl⟩
    have admitted : importsOf engine (Graph.admitted r) = importsOf engine r := by
      unfold Graph.admitted
      split <;> rfl
    constructor
    case resolved =>
      intro r' mem
      rw [← importsOf_fresh]
      rcases records_of_putIn advanced mem with ⟨r₀, mem₀, step⟩ | step
      · rw [step.fresh, importsOf_fresh, hopeful.resolved r₀ mem₀, step.eq]
      · rw [step.fresh, importsOf_fresh]
        show importsOf engine (Graph.admitted r) = _
        rw [admitted, resolved, step.eq]
    case linked =>
      intro r' mem
      by_cases finished : Act.finished r'.specifier ∈ acts ∧ r'.specifier ∈ run.graph.keys
      · exact .inl ((growing_deliver.linked_of_finished account.passes finished.2 finished.1).state
          unique mem)
      · rcases records_of_putIn advanced mem with ⟨r₀, mem₀, step⟩ | step
        · have same : r'.specifier = r₀.specifier := by rw [step.eq]
          rcases hopeful.linked r₀ mem₀ with linked | linking
          · rcases step with rfl | rfl
            · exact .inl linked
            · exact .inl rfl
          · rcases exact.kept r₀.specifier linking with kept | done
            · exact .inr (same ▸ kept)
            · refine absurd ⟨same ▸ done, ?_⟩ finished
              exact same ▸ Graph.mem_keys.mpr ⟨r₀, mem₀, rfl⟩
        · have same : r'.specifier = s := by
            rw [step.eq]
            exact (Graph.admitted_specifier r).trans own
          rw [same]
          rcases exact.linked _ _ visited with kept | done
          · exact .inr kept
          · refine .inl (Graph.Linked.state unique mem (same ▸ ?_))
            refine growing_deliver.linked_of_infix account.passes (fun a _ => ?_) done
            rw [deliverVisit_eq]
            exact mem_keys_deliverGraph own true a
    case found =>
      intro r' mem d dependency
      rcases records_of_putIn advanced mem with ⟨r₀, mem₀, step⟩ | step
      · rw [step.eq] at dependency
        exact meets (hopeful.found r₀ mem₀ d dependency)
      · rw [step.eq] at dependency
        exact .inr ⟨_, leaves _ (List.mem_map_of_mem dependency), rfl⟩
    case owned =>
      intro t phase at_ active
      rw [phases] at at_
      have other : t ≠ s := by
        rintro rfl
        rcases h.known r rfl with loaded | ⟨rfl, some⟩
        · rw [loaded] at at_
          cases at_
          cases active
        · rw [h.sound.unloaded some] at at_
          cases at_
      obtain ⟨v, visited, leaves⟩ := exact.exists_visited (hopeful.owned t phase at_ active)
      have verdict := verdict_of_passes account.passes visited
      rw [deliverVerdict, if_neg other] at verdict
      subst verdict
      exact leaves _ List.mem_cons_self
    case unfailed =>
      intro t e
      rw [phases]
      exact hopeful.unfailed t e
    case root =>
      show g.entry ∈ g.keys ∨ ∃ t ∈ q.tasks, t.specifier = g.entry
      rw [root]
      exact meets hopeful.root
    case needed =>
      rintro t (mem | ⟨t', mem, rfl⟩)
      · replace mem : t ∈ g.keys := mem
        rw [keys, List.mem_append, List.mem_singleton] at mem
        rcases mem with mem | rfl
        · exact needs (hopeful.needed t (.inl mem))
        · exact needs (hopeful.needed t (.inr ⟨_, owner, rfl⟩))
      · rcases mem_left_of_deliver account mem with ⟨old, -⟩ | ⟨r', found, d, ok, -, found', mem, rfl⟩
        · exact needs (hopeful.needed _ (.inr ⟨t', old, rfl⟩))
        · cases ok
          rw [resolved] at found'
          cases found'
          refine (needs (hopeful.needed s (.inr ⟨_, owner, rfl⟩))).tail ?_
          refine Graph.Imports.advanced advanced
            ⟨_, List.mem_append_right _ List.mem_cons_self, ?_, mem⟩
          exact (Graph.admitted_specifier r).trans own

/-- Going on to the first import in a run without failures leaves one, unless the import has
failed. -/
theorem Hopeful.start (h : run.Hopeful engine) (sound : run.Sound engine entry given events)
    (orderly : run.Orderly entry given) {s' : Specifier} (idle : .idle s' ∈ run.pending.tasks)
    (calm : run.start.Calm) : run.start.Hopeful engine := by
  obtain ⟨before, s, after, left, g, account, stay, advanced, same⟩ :=
    start_account orderly.proper idle
  rw [same] at calm ⊢
  cases left with
  | error e => cases calm.1
  | ok q =>
    obtain ⟨-, unfailed, exact⟩ := account.toExact calm.2
    have unique : g.keys.Nodup := advanced.keys ▸ sound.unique
    have root : g.entry = run.graph.entry := advanced.entry
    have here : Act.visited (.idle s) (run.startVerdict s) ∈
        before ++ .visited (.idle s) (run.startVerdict s) :: after :=
      List.mem_append_right before List.mem_cons_self
    have idle : .idle s ∈ run.pending.tasks :=
      account.visited.subset (List.mem_filterMap.mpr ⟨_, here, rfl⟩)
    have leaves (t : Task) (mem : t ∈ (run.startVerdict s).leaves (.idle s)) : t ∈ q.tasks := by
      rw [exact.left]
      exact List.mem_flatMap.mpr ⟨_, here, mem⟩
    have first (t : Specifier) (at_ : (run.startBase s).phase? t ≠ run.phase? t) :
        t = s ∧ s ∉ run.graph.keys ∧ run.phase? s = none ∧
          (run.startBase s).phase? t = some (firstPhase s) := by
      rcases phase?_startBase run s t with ⟨same, -⟩ | first
      · exact absurd same at_
      · exact first
    -- Every import stays as it is, but for the first one that nothing had been done for.
    have tasks (t : Task) (mem : t ∈ run.pending.tasks) : t ∈ q.tasks ∨ t = .idle s := by
      obtain ⟨v, visited, leaves⟩ := exact.exists_visited mem
      rw [List.mem_append, List.mem_cons] at visited
      rcases or_left_comm.mp visited with here | visited
      · exact .inr (Act.visited.inj here).1
      · have stays := stay _ (List.mem_append.mpr visited)
        cases v with
        | stay => exact .inl (leaves t List.mem_cons_self)
        | _ => cases stays
    have meets {t : Specifier} (old : run.Meets t) : t ∈ g.keys ∨ ∃ t' ∈ q.tasks, t'.specifier = t := by
      rw [advanced.keys]
      rcases old with mem | ⟨t', mem, rfl⟩
      · exact .inl mem
      · rcases tasks t' mem with mem | rfl
        · exact .inr ⟨t', mem, rfl⟩
        · have calm := unfailed _ here
          rcases startVerdict_cases run s with
            ⟨mem, -⟩ | ⟨-, ⟨e, -, v⟩ | ⟨phase, -, -, v⟩ | ⟨-, v⟩⟩
          · exact .inl mem
          · rw [v] at calm
            cases calm
          · rw [v] at leaves
            exact .inr ⟨_, leaves _ List.mem_cons_self, rfl⟩
          · rw [v] at leaves
            exact .inr ⟨_, leaves _ List.mem_cons_self, rfl⟩
    have needs {t : Specifier} (old : run.graph.Needs t) : g.Needs t :=
      old.mono root fun a b => Graph.Imports.advanced advanced
    constructor
    case resolved =>
      intro r mem
      obtain ⟨r₀, mem₀, step⟩ := advanced.exists_before mem
      rw [← importsOf_fresh, step.fresh, importsOf_fresh, h.resolved r₀ mem₀, step.eq]
    case linked =>
      intro r mem
      obtain ⟨r₀, mem₀, step⟩ := advanced.exists_before mem
      have same : r.specifier = r₀.specifier := by rw [step.eq]
      rcases h.linked r₀ mem₀ with linked | linking
      · rcases step with rfl | rfl
        · exact .inl linked
        · exact .inl rfl
      · rcases exact.kept r₀.specifier linking with kept | done
        · exact .inr (same ▸ kept)
        · refine .inl (Graph.Linked.state unique mem (same ▸ ?_))
          refine growing_start.linked_of_finished account.passes ?_ done
          exact Graph.mem_keys.mpr ⟨r₀, mem₀, rfl⟩
    case found =>
      intro r mem d dependency
      obtain ⟨r₀, mem₀, step⟩ := advanced.exists_before mem
      rw [step.eq] at dependency
      exact meets (h.found r₀ mem₀ d dependency)
    case owned =>
      intro t phase at_ active
      by_cases same : (run.startBase s).phase? t = run.phase? t
      · rcases tasks _ (h.owned t phase (same.symm.trans at_) active) with mem | here
        · exact mem
        · cases here
      · obtain ⟨rfl, fresh, none, -⟩ := first t same
        rcases startVerdict_cases run t with
          ⟨mem, -⟩ | ⟨-, ⟨e, at_, -⟩ | ⟨phase, at_, -⟩ | ⟨-, v⟩⟩
        · exact absurd mem fresh
        · rw [none] at at_
          cases at_
        · rw [none] at at_
          cases at_
        · rw [v] at leaves
          exact leaves _ List.mem_cons_self
    case unfailed =>
      intro t e at_
      by_cases same : (run.startBase s).phase? t = run.phase? t
      · exact h.unfailed t e (same.symm.trans at_)
      · obtain ⟨-, -, -, first⟩ := first t same
        have active := isActive_firstPhase s
        rw [Option.some.inj (first.symm.trans at_)] at active
        cases active
    case root =>
      show g.entry ∈ g.keys ∨ ∃ t ∈ q.tasks, t.specifier = g.entry
      rw [root]
      exact meets h.root
    case needed =>
      rintro t (mem | ⟨t', mem, rfl⟩)
      · replace mem : t ∈ g.keys := mem
        rw [advanced.keys] at mem
        exact needs (h.needed t (.inl mem))
      · rcases mem_left_of_start account stay mem with old | new
        · exact needs (h.needed _ (.inr ⟨t', old, rfl⟩))
        · obtain ⟨owner, rfl, -⟩ := leaves_startVerdict new
          exact needs (h.needed s (.inr ⟨_, idle, rfl⟩))

/-! ## Events -/

/-- A run for an entry whose source is given has met no failure before its record is brought. -/
theorem hopeful_given (engine : Engine U V) (entry : Specifier) (cap : Nat) (more : List Work)
    (phase : Phase) :
    (((initial entry cap : Run U).note more).setPhase entry phase).Hopeful engine where
  resolved _ mem := by cases mem
  linked _ mem := by cases mem
  found _ mem := by cases mem
  owned _ _ at_ := by cases at_
  unfailed _ _ at_ := by cases at_
  root := .inr ⟨_, List.mem_cons_self, rfl⟩
  needed s := by
    rintro (mem | ⟨t, mem, rfl⟩)
    · cases mem
    · rw [List.mem_singleton.mp mem]
      exact .refl

theorem hopeful_begin (engine : Engine U V) (entry : Specifier) (given : Option String) (cap : Nat)
    (calm : (begin engine entry given cap).Calm) :
    (begin engine entry given cap).Hopeful engine := by
  cases given with
  | some source =>
    have same : begin engine entry (some source) cap =
      (initial entry cap).conclude engine entry (.ok source) := rfl
    rw [same, conclude_eq] at calm ⊢
    exact (ending_begin engine entry source cap _ _).hopeful (hopeful_given engine entry cap _ _)
      List.mem_cons_self calm
  | none =>
    have same : begin engine entry none cap = (initial entry cap).startLoad entry := rfl
    have owned (s : Specifier) (phase : Phase)
        (at_ : ((initial entry cap : Run U).startLoad entry).phase? s = some phase) :
        s = entry ∧ phase = firstPhase entry := by
      rw [phase?_startLoad (initial entry cap) entry s rfl] at at_
      split at at_
      case _ here => exact ⟨here, (Option.some.inj at_).symm⟩
      case _ => cases at_
    have books := startLoad_eq (initial entry cap : Run U) entry
    rw [same]
    rw [books] at owned ⊢
    constructor
    case resolved => exact fun _ mem => by cases mem
    case linked => exact fun _ mem => by cases mem
    case found => exact fun _ mem => by cases mem
    case owned =>
      intro s phase at_ _
      obtain ⟨rfl, -⟩ := owned s phase at_
      exact List.mem_cons_self
    case unfailed =>
      intro s e at_
      have active := isActive_firstPhase entry
      rw [← (owned s _ at_).2] at active
      cases active
    case root => exact .inr ⟨_, List.mem_cons_self, rfl⟩
    case needed =>
      rintro s (mem | ⟨t, mem, rfl⟩)
      · cases mem
      · rw [List.mem_singleton.mp mem]
        exact .refl

/-- A run that has met no failure after bringing an outcome has met none before. -/
theorem calm_of_deliver (going : run.failure = none) (calm : (run.deliver engine s result).Calm) :
    run.Calm := by
  obtain ⟨acts, left, g, account, same⟩ := deliver_account engine run s result
  rw [same] at calm
  cases left with
  | error e => cases calm.1
  | ok q => exact ⟨going, (account.toExact calm.2).1⟩

/-- A run that has met no failure after an event has met none before. -/
theorem calm_of_occurs {cap : Nat} (kept : run.Kept engine entry given cap events)
    (going : run.failure = none) {event : Event} {next : Run U}
    (occurs : run.Occurs engine event next) (calm : next.Calm) : run.Calm := by
  refine ⟨going, ?_⟩
  cases occurs.steps kept.permitted with
  | wait => exact calm.2
  | start idle =>
    obtain ⟨before, s, after, left, g, account, -, -, same⟩ :=
      start_account (kept.orderly going).proper idle
    rw [same] at calm
    cases left with
    | error e => cases calm.1
    | ok q => exact (account.toExact calm.2).1
  | move _ _ books =>
    rw [← books.pending]
    exact calm.2
  | close _ _ books =>
    have middle := calm_of_deliver (by rw [books.failure]; exact going) calm
    rw [← books.pending]
    exact middle.2

/-- A run that has met no failure keeps what holds of it along an event, unless that is one. -/
theorem Hopeful.occurs {cap : Nat} (h : run.Hopeful engine)
    (kept : run.Kept engine entry given cap events) (going : run.failure = none) {event : Event}
    {next : Run U} (occurs : run.Occurs engine event next) (calm : next.Calm) :
    next.Hopeful engine := by
  have orderly := kept.orderly going
  cases occurs.steps kept.permitted with
  | wait =>
    obtain ⟨resolved, linked, found, owned, unfailed, root, needed⟩ := h
    exact ⟨resolved, linked, found, owned, unfailed, root, needed⟩
  | start idle => exact h.start kept.sound orderly idle calm
  | @move _ s old phase _ _ awaits moves books =>
    refine h.books awaits.2 moves.isActive.1 books fun e same => ?_
    have active := moves.isActive.2.1
    rw [same] at active
    cases active
  | @close _ s old work answer base awaits ends books =>
    have ending := orderly.ending kept.sound awaits ends books
    have owner : .waiting s true ∈ base.pending.tasks := by
      rw [books.pending]
      exact h.owned s old awaits.2 ends.isActive.1
    obtain ⟨r, imports, ok, -⟩ := ending.resolves owner calm
    refine ending.hopeful (h.books awaits.2 ends.isActive.1 books ?_) owner calm
    rw [ok]
    exact fun e same => by cases same

/-- What holds of a run that has met no failure holds whatever events have led to it. -/
theorem Reached.hopeful {cap : Nat} (h : Reached engine entry given cap events run)
    (calm : run.Calm) : run.Hopeful engine := by
  have both := h.keepsEvents
    (P := fun events run => run.Kept engine entry given cap events ∧
      (run.Calm → run.Hopeful engine))
    (fun going occurs ⟨kept, hopeful⟩ => ⟨kept.occurs going occurs, fun calm =>
      (hopeful (calm_of_occurs kept going occurs calm)).occurs kept going occurs calm⟩)
    ⟨kept_begin engine entry given cap, hopeful_begin engine entry given cap⟩
  exact both.2 calm

/-! ## Runs that have linked everything -/

/-- What holds of the graph of a run that has linked everything. -/
structure Settled (engine : Engine U V) (entry : Specifier) (g : Graph U) : Prop where
  root : g.entry = entry
  unique : g.keys.Nodup
  needs : ∀ s, s ∈ g.keys ↔ g.Needs s
  closed : ∀ s t, g.Imports s t → t ∈ g.keys
  linked : ∀ r ∈ g.records, r.state = .linked
  resolved : ∀ r ∈ g.records, importsOf engine r = .ok r.dependencies

theorem Succeeded.calm (succeeded : run.Succeeded) : run.Calm :=
  ⟨succeeded.1, by rw [succeeded.2]; rfl⟩

/-- A run that has linked everything has linked what its entry needs, and nothing else. -/
theorem Reached.settled {cap : Nat} (h : Reached engine entry given cap events run)
    (succeeded : run.Succeeded) : Settled engine entry run.graph := by
  have sound := h.kept.sound
  have hopeful := h.hopeful succeeded.calm
  -- Nothing is left to do, so that whatever has been met is in the graph.
  have meets {s : Specifier} (met : run.Meets s) : s ∈ run.graph.keys := by
    refine met.resolve_right ?_
    rintro ⟨t, mem, -⟩
    rw [succeeded.2] at mem
    cases mem
  have closed (s t : Specifier) (imports : run.graph.Imports s t) : t ∈ run.graph.keys := by
    obtain ⟨r, mem, -, dependency⟩ := imports
    exact meets (hopeful.found r mem t dependency)
  constructor
  case root => exact sound.root
  case unique => exact sound.unique
  case needs =>
    intro s
    refine ⟨fun mem => hopeful.needed s (.inl mem), fun needs => ?_⟩
    cases needs with
    | refl => exact meets hopeful.root
    | tail _ imports => exact closed _ s imports
  case closed => exact closed
  case linked =>
    intro r mem
    refine (hopeful.linked r mem).resolve_right fun linking => ?_
    rw [succeeded.2] at linking
    cases linking
  case resolved => exact hopeful.resolved

end Run

end ModuleLinker.Link
