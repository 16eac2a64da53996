import ModuleLinker.Proofs.Graph.Records
import ModuleLinker.Proofs.Link.Loads
import ModuleLinker.Proofs.Link.Sweep

/-!
# Looking after imports

The two sweeps of a run. One brings the outcome of a load to whoever waits for it
(`Run.deliver_account`), the other goes on to the first import that nothing has been done for
(`Run.start_account`). What they do to a graph is told up to records that advance: it does not depend
on the order of the visits, and not on how often a record is delivered.
-/

set_option autoImplicit false

namespace ModuleLinker.Link

variable {U V : Type}

/-! ## Acts on graphs -/

/-- What acts on states with a graph have to keep: modules stay in the graph, and linked. Finishing a
module links it. -/
structure Growing {σ : Type} (visit : Task → σ → Verdict × σ) (finish : Specifier → σ → σ)
    (graph : σ → Graph U) : Prop where
  keys : ∀ t a s, s ∈ (graph a).keys → s ∈ (graph (visit t a).2).keys
  linked : ∀ t a s, (graph a).Linked s → (graph (visit t a).2).Linked s
  finish : ∀ s a, graph (finish s a) = (graph a).setState s .linked

section Growing

variable {σ : Type} {visit : Task → σ → Verdict × σ} {finish : Specifier → σ → σ}
  {graph : σ → Graph U} {a b : σ} {acts : List Act}

/-- Modules stay in the graph. -/
theorem Growing.mem_keys (h : Growing visit finish graph) (passes : Passes visit finish a acts b)
    {s : Specifier} (mem : s ∈ (graph a).keys) : s ∈ (graph b).keys :=
  passes.keeps (P := fun a => s ∈ (graph a).keys) (fun t a => h.keys t a s)
    (fun s' a mem => by rw [h.finish, Graph.keys_setState]; exact mem) mem

/-- Modules that are finished are linked from then on. -/
theorem Growing.linked_of_finished (h : Growing visit finish graph)
    (passes : Passes visit finish a acts b) {s : Specifier} (mem : s ∈ (graph a).keys)
    (done : .finished s ∈ acts) : (graph b).Linked s := by
  induction passes with
  | nil => cases done
  | @visited a b c t v acts verdict more ih =>
    have done : Act.finished s ∈ acts := by simpa using done
    have kept := h.keys t a s mem
    rw [verdict] at kept
    exact ih kept done
  | @finished a c s' acts more ih =>
    have kept : s ∈ (graph (finish s' a)).keys := by
      rw [h.finish, Graph.keys_setState]
      exact mem
    by_cases later : Act.finished s ∈ acts
    · exact ih kept later
    · have same : s = s' := by simpa [later] using done
      subst same
      refine more.keeps (P := fun a => (graph a).Linked s) (fun t a => h.linked t a s) ?_ ?_
      · intro s' a linked
        rw [h.finish]
        exact linked.advanced (Graph.advanced_linked _ s')
      · rw [h.finish]
        exact Graph.linked_setState mem

/-- A module that is finished as soon as it is visited is linked from then on, if the visit puts it
into the graph. -/
theorem Growing.linked_of_infix (h : Growing visit finish graph)
    (passes : Passes visit finish a acts b) {t : Task} {v : Verdict} {s : Specifier}
    (puts : ∀ a, (visit t a).1 = v → s ∈ (graph (visit t a).2).keys)
    (here : [.visited t v, .finished s] <:+: acts) : (graph b).Linked s := by
  obtain ⟨before, after, rfl⟩ := here
  rw [List.append_assoc] at passes
  obtain ⟨c, -, second⟩ := passes.split
  cases second with
  | @visited _ d _ _ _ _ verdict more =>
    have put := puts c (by rw [verdict])
    rw [verdict] at put
    exact h.linked_of_finished more put (by simp)

end Growing

namespace Run

/-! ## Bringing the outcome of a load -/

section Deliver

variable (engine : Engine U V) (s : Specifier) (result : Except LoadError (Record U))

/-- What becomes of whoever waits for a load that ends with an outcome. -/
def outcomeVerdict (owner : Bool) : Verdict :=
  match result with
  | .error e => .fail e
  | .ok record =>
    if owner then
      match importsOf engine record with
      | .error e => .fail e
      | .ok imports => .link imports
    else .settled

/-- What becomes of the graph when somebody gets the outcome of a load. -/
def outcomeGraph (owner : Bool) (g : Graph U) : Graph U :=
  match result with
  | .error _ => g
  | .ok record =>
    if owner then
      match importsOf engine record with
      | .error _ => g.insert record
      | .ok imports => (g.insert record).setDependencies s imports
    else g.insert record

/-- What becomes of an import when a load ends. -/
def deliverVerdict : Task → Verdict
  | .waiting s' owner => if s' = s then outcomeVerdict engine result owner else .stay
  | .idle _ => .stay

/-- What becomes of the graph when it is the turn of an import. -/
def deliverGraph : Task → Graph U → Graph U
  | .waiting s' owner, g => if s' = s then outcomeGraph engine s result owner g else g
  | .idle _, g => g

theorem deliverVisit_eq (t : Task) (g : Graph U) : deliverVisit engine s result t g =
    (deliverVerdict engine s result t, deliverGraph engine s result t g) := by
  cases t with
  | idle s' => rfl
  | waiting s' owner =>
    unfold deliverVisit deliverVerdict deliverGraph
    by_cases same : s' = s
    · simp only [same, if_true]
      cases result with
      | error e => rfl
      | ok record =>
        cases owner with
        | false => rfl
        | true =>
          dsimp only [outcomeVerdict, outcomeGraph, if_true]
          cases importsOf engine record <;> rfl
    · simp only [same, if_false]

/-- The graph after some imports have got the outcome of a load. -/
def deliverAll (tasks : List Task) (g : Graph U) : Graph U :=
  tasks.foldl (fun g t => deliverGraph engine s result t g) g

variable {engine s result}

/-- Getting an outcome again changes nothing that getting it once as an owner does not change. -/
theorem outcomeGraph_outcomeGraph (owner owner' : Bool) (g : Graph U) :
    outcomeGraph engine s result owner' (outcomeGraph engine s result owner g) =
      outcomeGraph engine s result (owner || owner') g := by
  cases result with
  | error e => rfl
  | ok record =>
    have mem : record.specifier ∈ (g.insert record).keys := Graph.mem_keys_insert.mpr (.inl rfl)
    have again := Graph.insert_of_mem mem
    unfold outcomeGraph
    cases found : importsOf engine record with
    | error e => cases owner <;> cases owner' <;> simp [found, again]
    | ok imports =>
      have mem : record.specifier ∈ ((g.insert record).setDependencies s imports).keys := by
        rw [Graph.keys_setDependencies]
        exact mem
      have same := Graph.insert_of_mem mem
      cases owner <;> cases owner' <;>
        simp [found, again, same, Graph.setDependencies_setDependencies]

/-- All imports together get an outcome like one of them, an owner if there is one. -/
theorem deliverAll_eq (engine : Engine U V) (s : Specifier) (result : Except LoadError (Record U))
    (tasks : List Task) (g : Graph U) :
    ((∀ owner, .waiting s owner ∉ tasks) ∧ deliverAll engine s result tasks g = g) ∨
      ∃ owner, .waiting s owner ∈ tasks ∧ (.waiting s true ∈ tasks → owner = true) ∧
        deliverAll engine s result tasks g = outcomeGraph engine s result owner g := by
  induction tasks generalizing g with
  | nil => exact .inl ⟨fun _ => List.not_mem_nil, rfl⟩
  | cons t tasks ih =>
    by_cases here : ∃ owner, t = .waiting s owner
    · obtain ⟨owner, rfl⟩ := here
      have first : deliverAll engine s result (.waiting s owner :: tasks) g =
          deliverAll engine s result tasks (outcomeGraph engine s result owner g) := by
        simp [deliverAll, deliverGraph]
      rw [first]
      right
      rcases ih (outcomeGraph engine s result owner g) with ⟨none, same⟩ | ⟨owner', mem, best, same⟩
      · refine ⟨owner, List.mem_cons_self, fun mem => ?_, same⟩
        simpa [none, eq_comm] using mem
      · refine ⟨owner || owner', ?_, fun mem => ?_, ?_⟩
        · cases owner with
          | true => exact List.mem_cons_self
          | false => exact List.mem_cons_of_mem _ mem
        · rcases List.mem_cons.mp mem with same | mem
          · cases same
            rfl
          · rw [best mem, Bool.or_true]
        · rw [same, outcomeGraph_outcomeGraph]
    · have first : deliverAll engine s result (t :: tasks) g =
          deliverAll engine s result tasks g := by
        cases t with
        | idle s' => rfl
        | waiting s' owner =>
          have other : s' ≠ s := fun same => here ⟨owner, by rw [same]⟩
          simp [deliverAll, deliverGraph, other]
      have apart (owner : Bool) : t ≠ .waiting s owner := fun same => here ⟨owner, same⟩
      rw [first]
      rcases ih g with ⟨none, same⟩ | ⟨owner, mem, best, same⟩
      · refine .inl ⟨fun owner mem => ?_, same⟩
        exact none owner ((List.mem_cons.mp mem).resolve_left (Ne.symm (apart owner)))
      · refine .inr ⟨owner, List.mem_cons_of_mem _ mem, fun mem => ?_, same⟩
        exact best ((List.mem_cons.mp mem).resolve_left (Ne.symm (apart true)))

/-- Whoever waits for a load fails or is settled when it ends, but for an owner whose module has
imports that can be looked after. -/
theorem outcomeVerdict_cases (engine : Engine U V) (result : Except LoadError (Record U))
    (owner : Bool) :
    (∃ e, outcomeVerdict engine result owner = .fail e) ∨
      outcomeVerdict engine result owner = .settled ∨
      ∃ r imports, result = .ok r ∧ owner = true ∧ importsOf engine r = .ok imports ∧
        outcomeVerdict engine result owner = .link imports := by
  cases result with
  | error e => exact .inl ⟨e, rfl⟩
  | ok r =>
    cases owner with
    | false => exact .inr (.inl rfl)
    | true =>
      cases found : importsOf engine r with
      | error e => exact .inl ⟨e, by simp [outcomeVerdict, found]⟩
      | ok imports =>
        exact .inr (.inr ⟨r, imports, rfl, rfl, found, by simp [outcomeVerdict, found]⟩)

/-- Only the owner of a load goes on with the imports of its module. -/
theorem deliverVerdict_eq_link {t : Task} {imports : List Specifier}
    (link : deliverVerdict engine s result t = .link imports) :
    t = .waiting s true ∧ ∃ r, result = .ok r ∧ importsOf engine r = .ok imports := by
  cases t with
  | idle _ => cases link
  | waiting s' owner =>
    by_cases same : s' = s
    · rw [deliverVerdict, if_pos same] at link
      rcases outcomeVerdict_cases engine result owner with
        ⟨e, fail⟩ | settled | ⟨r, found, ok, rfl, resolved, other⟩
      · rw [fail] at link
        cases link
      · rw [settled] at link
        cases link
      · rw [other] at link
        cases link
        exact ⟨by rw [same], r, ok, resolved⟩
    · rw [deliverVerdict, if_neg same] at link
      cases link

/-- What putting records in and changing imports keep is kept by bringing an outcome. -/
theorem deliverGraph_keeps {P : Graph U → Prop} (insert : ∀ r g, result = .ok r → P g → P (g.insert r))
    (change : ∀ g imports, P g → P (g.setDependencies s imports)) (t : Task) (g : Graph U)
    (h : P g) : P (deliverGraph engine s result t g) := by
  cases t with
  | idle s' => exact h
  | waiting s' owner =>
    by_cases same : s' = s
    · rw [deliverGraph, if_pos same]
      cases result with
      | error e => exact h
      | ok record =>
        have put := insert record g rfl h
        cases owner with
        | false => exact put
        | true =>
          rw [outcomeGraph]
          cases importsOf engine record with
          | error e => exact put
          | ok imports => exact change _ imports put
    · rw [deliverGraph, if_neg same]
      exact h

/-- Whoever gets a record puts it into the graph. -/
theorem mem_keys_deliverGraph {r : Record U} (own : r.specifier = s) (owner : Bool) (g : Graph U) :
    s ∈ (deliverGraph engine s (.ok r) (.waiting s owner) g).keys := by
  have put : s ∈ (g.insert r).keys := Graph.mem_keys_insert.mpr (.inl own.symm)
  rw [deliverGraph, if_pos rfl]
  cases owner with
  | false => exact put
  | true =>
    rw [outcomeGraph]
    cases importsOf engine r with
    | error e => exact put
    | ok imports =>
      show s ∈ ((g.insert r).setDependencies s imports).keys
      rw [Graph.keys_setDependencies]
      exact put

/-- A graph after getting an outcome is not behind one that was not ahead before. -/
theorem advanced_deliverGraph {g g' : Graph U} (h : g.Advanced g') (t : Task) :
    (deliverGraph engine s result t g).Advanced (deliverGraph engine s result t g') := by
  cases t with
  | idle s' => exact h
  | waiting s' owner =>
    by_cases same : s' = s
    · rw [deliverGraph, deliverGraph, if_pos same, if_pos same]
      cases result with
      | error e => exact h
      | ok record =>
        have put := h.insert record
        cases owner with
        | false => exact put
        | true =>
          rw [outcomeGraph, outcomeGraph]
          cases importsOf engine record with
          | error e => exact put
          | ok imports => exact put.setDependencies s imports
    · rw [deliverGraph, deliverGraph, if_neg same, if_neg same]
      exact h

/-- Acts that bring an outcome give every import its verdict. -/
theorem verdict_of_passes {a b : Graph U} {acts : List Act}
    (passes : Passes (deliverVisit engine s result) finish a acts b) {t : Task} {v : Verdict}
    (mem : .visited t v ∈ acts) : v = deliverVerdict engine s result t := by
  induction passes with
  | nil => cases mem
  | @visited a _ _ t' v' _ verdict _ ih =>
    rcases List.mem_cons.mp mem with same | mem
    · cases same
      rw [deliverVisit_eq] at verdict
      exact (congrArg Prod.fst verdict).symm
    · exact ih mem
  | finished _ ih => exact ih (by simpa using mem)

/-- Acts that bring an outcome do the same as bringing it without finishing modules, up to records
that advance. -/
theorem advanced_of_passes {g a b : Graph U} {acts : List Act}
    (passes : Passes (deliverVisit engine s result) finish a acts b) (h : g.Advanced a) :
    (deliverAll engine s result (acts.filterMap Act.task?) g).Advanced b := by
  induction passes generalizing g with
  | nil => exact h
  | @visited a _ _ t _ _ verdict _ ih =>
    rw [deliverVisit_eq] at verdict
    obtain rfl := congrArg Prod.snd verdict
    exact ih (advanced_deliverGraph h t)
  | @finished a _ s' _ _ ih => exact ih (h.trans (Graph.advanced_linked a s'))

/-- Bringing an outcome keeps modules in the graph, and linked. -/
theorem growing_deliver : Growing (deliverVisit engine s result) finish id where
  keys t g s' mem := by
    rw [deliverVisit_eq]
    refine deliverGraph_keeps (P := fun g => s' ∈ g.keys) ?_ ?_ t g mem
    · exact fun r g _ mem => Graph.mem_keys_insert.mpr (.inr mem)
    · intro g imports mem
      rw [Graph.keys_setDependencies]
      exact mem
  linked t g s' linked := by
    rw [deliverVisit_eq]
    refine deliverGraph_keeps (P := fun g => g.Linked s') ?_ ?_ t g linked
    · exact fun r g _ linked => linked.insert r
    · exact fun g imports linked => linked.setDependencies s imports
  finish s' g := rfl

/-- Bringing an outcome, act by act. -/
theorem deliver_account (engine : Engine U V) (run : Run U) (s : Specifier)
    (result : Except LoadError (Record U)) :
    ∃ acts left g, Pending.Account (deliverVisit engine s result) finish .eager run.pending
        run.graph acts (left, g) ∧
      run.deliver engine s result = ({ run with graph := g } : Run U).swept left := by
  obtain ⟨acts, account⟩ := Pending.exists_account (deliverVisit engine s result) finish .eager
    run.pending run.graph
  exact ⟨acts, _, _, account, rfl⟩

/-- Bringing an outcome fails where the sweep does. -/
theorem failure_deliver {run : Run U} {e : LoadError}
    (failed : (run.pending.sweep (deliverVisit engine s result) finish .eager run.graph).1 = .error e) :
    (run.deliver engine s result).failure = some e := by
  unfold deliver
  dsimp only
  rw [failed]
  rfl

/-- Bringing an outcome leaves what the sweep leaves. -/
theorem deliver_eq {run : Run U} {left : Pending} {g : Graph U}
    (swept : run.pending.sweep (deliverVisit engine s result) finish .eager run.graph = (.ok left, g)) :
    run.deliver engine s result = { run with pending := left, graph := g } := by
  unfold deliver
  rw [swept]
  rfl

end Deliver

/-! ## Going on to the first import -/

/-- What becomes of an import that nothing has been done for. -/
def startVerdict (run : Run U) (s : Specifier) : Verdict :=
  if run.graph.contains s then .settled
  else
    match run.phase? s with
    | some (.failed e) => .fail e
    | some _ => .wait false
    | none => .wait true

/-- The run with a load of a module, where there has to be a new one. -/
def startBase (run : Run U) (s : Specifier) : Run U :=
  if run.graph.contains s then run
  else
    match run.phase? s with
    | some _ => run
    | none => run.startLoad s

theorem startVisit_idle (run : Run U) (s : Specifier) :
    startVisit (.idle s) (run, false) = (run.startVerdict s, run.startBase s, true) := by
  unfold startVisit startVerdict startBase
  dsimp only
  split
  · rfl
  · split <;> simp_all

theorem startVisit_flagged (t : Task) (run : Run U) :
    startVisit t (run, true) = (.stay, run, true) := by
  cases t <;> rfl

theorem startVisit_waiting (s : Specifier) (owner : Bool) (state : Run U × Bool) :
    startVisit (.waiting s owner) state = (.stay, state) := rfl

/-- The four things that can become of an import that nothing has been done for. -/
theorem startVerdict_cases (run : Run U) (s : Specifier) :
    (s ∈ run.graph.keys ∧ run.startVerdict s = .settled) ∨
      (s ∉ run.graph.keys ∧
        ((∃ e, run.phase? s = some (.failed e) ∧ run.startVerdict s = .fail e) ∨
          (∃ phase, run.phase? s = some phase ∧ (∀ e, phase ≠ .failed e) ∧
            run.startVerdict s = .wait false) ∨
          (run.phase? s = none ∧ run.startVerdict s = .wait true))) := by
  unfold startVerdict
  by_cases mem : s ∈ run.graph.keys
  · rw [if_pos (Graph.contains_iff.mpr mem)]
    exact .inl ⟨mem, rfl⟩
  · rw [if_neg (mt Graph.contains_iff.mp mem)]
    refine .inr ⟨mem, ?_⟩
    rcases run.phase? s with _ | phase
    · exact .inr (.inr ⟨rfl, rfl⟩)
    · cases phase with
      | failed e => exact .inl ⟨e, rfl, rfl⟩
      | _ => exact .inr (.inl ⟨_, rfl, fun e same => (by cases same), rfl⟩)

/-- A load is started in the same way whatever the records have advanced to. -/
theorem startBase_congr {run : Run U} {g : Graph U} (keys : g.keys = run.graph.keys)
    (s : Specifier) :
    ({ run with graph := g } : Run U).startVerdict s = run.startVerdict s ∧
      ({ run with graph := g } : Run U).startBase s = { run.startBase s with graph := g } := by
  have same : g.contains s = run.graph.contains s := by
    rw [Bool.eq_iff_iff, Graph.contains_iff, Graph.contains_iff, keys]
  unfold startVerdict startBase
  dsimp only
  rw [same]
  refine ⟨rfl, ?_⟩
  show (if _ then _ else match run.phase? s with | some _ => _ | none => _) = _
  split
  · rfl
  · cases run.phase? s with
    | some phase => rfl
    | none =>
      show ({ run with graph := g } : Run U).startLoad s = { run.startLoad s with graph := g }
      rw [startLoad_eq, startLoad_eq]
      rfl

@[simp]
theorem graph_startBase (run : Run U) (s : Specifier) : (run.startBase s).graph = run.graph := by
  unfold startBase
  split
  · rfl
  · split
    · rfl
    · rw [startLoad_eq]
      rfl

/-- Once an import has been met, everything stays as it is, up to modules that are finished. -/
theorem passes_of_flagged {a b : Run U × Bool} {acts : List Act}
    (passes : Passes startVisit finishFlagged a acts b) (met : a.2 = true) :
    (∀ act ∈ acts, act.stays = true) ∧ b.2 = true ∧
      ∃ g, a.1.graph.Advanced g ∧ b.1 = { a.1 with graph := g } := by
  induction passes with
  | nil a => exact ⟨fun _ mem => (by cases mem), met, a.1.graph, .refl _, rfl⟩
  | @visited a b c t v acts verdict _ ih =>
    obtain ⟨run, flag⟩ := a
    cases met
    rw [startVisit_flagged] at verdict
    cases verdict
    obtain ⟨stay, met, more⟩ := ih rfl
    refine ⟨?_, met, more⟩
    rw [List.forall_mem_cons]
    exact ⟨rfl, stay⟩
  | @finished a c s acts _ ih =>
    obtain ⟨stay, met, g, advanced, same⟩ := ih met
    refine ⟨?_, met, g, (Graph.advanced_linked a.1.graph s).trans advanced, same⟩
    rw [List.forall_mem_cons]
    exact ⟨rfl, stay⟩

/-- Before an import has been met, everything stays as it is, up to modules that are finished. -/
theorem passes_of_unflagged {a b : Run U × Bool} {acts : List Act}
    (passes : Passes startVisit finishFlagged a acts b) (unmet : a.2 = false) :
    (∀ act ∈ acts, act.stays = true ∧ ∀ s, act.task? ≠ some (.idle s)) ∨
      ∃ before s after, acts = before ++ .visited (.idle s) (a.1.startVerdict s) :: after ∧
        (∀ act ∈ before ++ after, act.stays = true) ∧ b.2 = true ∧
        ∃ g, a.1.graph.Advanced g ∧ b.1 = { a.1.startBase s with graph := g } := by
  induction passes with
  | nil a => exact .inl fun _ mem => by cases mem
  | @visited a b c t v acts verdict more ih =>
    obtain ⟨run, flag⟩ := a
    cases unmet
    cases t with
    | idle s =>
      rw [startVisit_idle] at verdict
      cases verdict
      obtain ⟨stay, met, g, advanced, same⟩ := passes_of_flagged more rfl
      rw [graph_startBase] at advanced
      exact .inr ⟨[], s, acts, rfl, stay, met, g, advanced, same⟩
    | waiting s owner =>
      rw [startVisit_waiting] at verdict
      cases verdict
      rcases ih rfl with stay | ⟨before, s', after, rfl, stay, rest⟩
      · left
        rw [List.forall_mem_cons]
        exact ⟨⟨rfl, fun s' same => by cases same⟩, stay⟩
      · refine .inr ⟨.visited (.waiting s owner) .stay :: before, s', after, rfl, ?_, rest⟩
        rw [List.cons_append, List.forall_mem_cons]
        exact ⟨rfl, stay⟩
  | @finished a c s acts _ ih =>
    have keys : (finish s a.1.graph).keys = a.1.graph.keys := Graph.keys_setState ..
    rcases ih unmet with stay | ⟨before, s', after, rfl, stay, met, g, advanced, same⟩
    · left
      rw [List.forall_mem_cons]
      exact ⟨⟨rfl, fun s' same => by cases same⟩, stay⟩
    · obtain ⟨verdict, base⟩ := startBase_congr keys s'
      refine .inr ⟨.finished s :: before, s', after, ?_, ?_, met, g, ?_, ?_⟩
      · rw [List.cons_append, ← verdict]
        rfl
      · rw [List.cons_append, List.forall_mem_cons]
        exact ⟨rfl, stay⟩
      · exact (Graph.advanced_linked a.1.graph s).trans advanced
      · rw [same]
        show ({ ({ a.1 with graph := _ } : Run U).startBase s' with graph := g } : Run U) = _
        rw [base]

/-- Going on to the first import keeps modules in the graph, and linked. -/
theorem growing_start : Growing (startVisit (U := U)) finishFlagged (·.1.graph) where
  keys t a s mem := by
    obtain ⟨run, flag⟩ := a
    cases flag with
    | true => rw [startVisit_flagged]; exact mem
    | false =>
      cases t with
      | waiting s' owner => exact mem
      | idle s' =>
        rw [startVisit_idle]
        show s ∈ (run.startBase s').graph.keys
        rw [graph_startBase]
        exact mem
  linked t a s linked := by
    obtain ⟨run, flag⟩ := a
    cases flag with
    | true => rw [startVisit_flagged]; exact linked
    | false =>
      cases t with
      | waiting s' owner => exact linked
      | idle s' =>
        rw [startVisit_idle]
        show (run.startBase s').graph.Linked s
        rw [graph_startBase]
        exact linked
  finish s a := rfl

/-- Going on to the first import, act by act: some import gets its verdict, and everything else stays
as it is, up to modules that are finished. -/
theorem start_account {told : Specifier → Join → Prop} {run : Run U} {s' : Specifier}
    (proper : run.pending.Proper told .eager) (idle : .idle s' ∈ run.pending.tasks) :
    ∃ before s after left g,
      Pending.Account startVisit finishFlagged .eager run.pending (run, false)
        (before ++ .visited (.idle s) (run.startVerdict s) :: after)
        (left, { run.startBase s with graph := g }, true) ∧
      (∀ act ∈ before ++ after, act.stays = true) ∧ run.graph.Advanced g ∧
      run.start = ({ run.startBase s with graph := g } : Run U).swept left := by
  obtain ⟨acts, account⟩ := Pending.exists_account startVisit finishFlagged .eager
    run.pending (run, false)
  have unfolded : run.start = (run.pending.sweep startVisit finishFlagged .eager (run, false)).2.1.swept
      (run.pending.sweep startVisit finishFlagged .eager (run, false)).1 := rfl
  rw [unfolded]
  generalize run.pending.sweep startVisit finishFlagged .eager (run, false) = out at account
  obtain ⟨left, run', flag⟩ := out
  rcases passes_of_unflagged account.passes rfl with
    stay | ⟨before, s, after, rfl, stay, met, g, advanced, same⟩
  · obtain ⟨visited, -⟩ := account.still told proper fun act mem => (stay act mem).1
    rw [← visited, List.mem_filterMap] at idle
    obtain ⟨act, mem, same⟩ := idle
    exact absurd same ((stay act mem).2 s')
  · cases met
    cases same
    exact ⟨before, s, after, left, g, account, stay, advanced, rfl⟩

end Run

end ModuleLinker.Link
