import ModuleLinker.Proofs.Link.Step

/-!
# Records and where they come from

What holds of the graph of a run at every point, also when the run has failed: a module with a record
has been loaded, and its record is the one that is built from a source that an event has brought, or
that was given. The rest of the development knows the records of a run through `Run.Sound` only.
-/

set_option autoImplicit false

namespace ModuleLinker.Link

variable {U V : Type}

/-- The source that an event brings for a module. A body that could not be put into the cache is none. -/
inductive Brings (s : Specifier) (source : String) : Event → Prop
  | read : Brings s source (.read s (.ok source))
  | hit : Brings s source (.lookUp s (.ok (some source)))
  | receive : Brings s source (.reply s (.ok source) (.ok ()))

/-- The sources of a module: the one that is given for an entry, or else those that events bring. -/
def Sourced (entry : Specifier) (given : Option String) (events : List Event) (s : Specifier)
    (source : String) : Prop :=
  (s = entry ∧ given = some source) ∨
    ((s = entry → given = none) ∧ ∃ event ∈ events, Brings s source event)

theorem Sourced.append {entry s : Specifier} {given : Option String} {events : List Event}
    {source : String} (h : Sourced entry given events s source) (more : List Event) :
    Sourced entry given (events ++ more) s source := by
  rcases h with h | ⟨other, event, mem, brings⟩
  · exact .inl h
  · exact .inr ⟨other, event, List.mem_append_left _ mem, brings⟩

/-- A record that has been built is of the module it was built for, and nothing is known of its
imports. -/
theorem build_spec {engine : Engine U V} {s : Specifier} {isEntry : Bool} {raw : String}
    {r : Record U} (built : (build engine s isEntry raw).1 = .ok r) :
    r.specifier = s ∧ r.isEntry = isEntry ∧ r.rawSource = raw ∧ r.media = s.media ∧
      r.state = .unlinked ∧ r.dependencies = [] ∧ (executable s raw).1 = .ok r.executableSource ∧
      engine.compile r.executableSource s.text ⟨s, isEntry⟩ = .ok r.unit := by
  unfold build at built
  generalize made : executable s raw = result at built
  obtain ⟨_ | code, work⟩ := result
  · cases built
  · simp only [compile] at built
    cases compiled : engine.compile code s.text ⟨s, isEntry⟩ with
    | error message => simp [compiled] at built
    | ok unit =>
      simp only [compiled, Except.ok.injEq] at built
      subst built
      exact ⟨rfl, rfl, rfl, by dsimp only, rfl, rfl, rfl, compiled⟩

namespace Run

/-- What holds of a run at every point. -/
structure Sound (engine : Engine U V) (entry : Specifier) (given : Option String)
    (events : List Event) (run : Run U) : Prop where
  root : run.graph.entry = entry
  unique : run.graph.keys.Nodup
  known : ∀ s ∈ run.graph.keys, run.phase? s = some .loaded ∨ (s = entry ∧ given.isSome = true)
  unloaded : given.isSome = true → run.phase? entry = none
  built : ∀ r ∈ run.graph.records, ∃ raw, Sourced entry given events r.specifier raw ∧
    (build engine r.specifier (r.specifier == entry) raw).1 = .ok (r.fresh)
  storing : ∀ s body result, run.phase? s = some (.storing body result) →
    .reply s (.ok body) result ∈ events

variable {engine : Engine U V} {entry : Specifier} {given : Option String} {events : List Event}
  {run : Run U}

/-- A module whose load has not ended has no record. -/
theorem Sound.not_mem_keys (h : run.Sound engine entry given events) {s : Specifier} {phase : Phase}
    (found : run.phase? s = some phase) (active : phase.isActive = true) : s ∉ run.graph.keys := by
  intro mem
  rcases h.known s mem with loaded | ⟨rfl, some⟩
  · rw [found] at loaded
    cases loaded
    cases active
  · rw [h.unloaded some] at found
    cases found

/-- Books that are in order after the load of a module has gone on. -/
theorem Sound.books (h : run.Sound engine entry given events) {event : Event} {s : Specifier}
    {old phase : Phase} {work : List Work} {base : Run U} (found : run.phase? s = some old)
    (active : old.isActive = true) (books : run.Books s phase work base)
    (storing : ∀ body result, phase = .storing body result → event = .reply s (.ok body) result) :
    base.Sound engine entry given (events ++ [event]) where
  root := by rw [books.graph]; exact h.root
  unique := by rw [books.graph]; exact h.unique
  known t mem := by
    rw [books.graph] at mem
    have other : t ≠ s := by
      rintro rfl
      exact h.not_mem_keys found active mem
    rcases h.known t mem with loaded | given
    · left
      rcases books.others t other with same | ⟨queued, -⟩
      · rw [same, loaded]
      · rw [loaded] at queued
        cases queued
    · exact .inr given
  unloaded some := by
    have none := h.unloaded some
    have other : entry ≠ s := by
      rintro rfl
      rw [none] at found
      cases found
    rcases books.others entry other with same | ⟨queued, -⟩
    · rw [same, none]
    · rw [none] at queued
      cases queued
  built r mem := by
    rw [books.graph] at mem
    obtain ⟨raw, sourced, built⟩ := h.built r mem
    exact ⟨raw, sourced.append _, built⟩
  storing t body result at_ := by
    rw [List.mem_append, List.mem_singleton]
    by_cases same : t = s
    · subst same
      rw [books.here] at at_
      exact .inr (storing body result (Option.some.inj at_)).symm
    · rcases books.others t same with same | ⟨-, granted⟩
      · rw [same] at at_
        exact .inl (h.storing t body result at_)
      · rw [granted] at at_
        cases at_

/-- Events that are about something else change nothing. -/
theorem Sound.append (h : run.Sound engine entry given events) (more : List Event) :
    run.Sound engine entry given (events ++ more) where
  root := h.root
  unique := h.unique
  known := h.known
  unloaded := h.unloaded
  built r mem := by
    obtain ⟨raw, sourced, built⟩ := h.built r mem
    exact ⟨raw, sourced.append more, built⟩
  storing s body result at_ := List.mem_append_left _ (h.storing s body result at_)

/-- Records can advance. -/
theorem Sound.advanced (h : run.Sound engine entry given events) {g : Graph U}
    (advanced : run.graph.Advanced g) :
    ({ run with graph := g } : Run U).Sound engine entry given events where
  root := advanced.entry.trans h.root
  unique := by
    show g.keys.Nodup
    rw [advanced.keys]
    exact h.unique
  known s mem := h.known s (advanced.keys ▸ mem)
  unloaded := h.unloaded
  built r mem := by
    obtain ⟨r₀, mem₀, step⟩ := advanced.exists_before mem
    obtain ⟨raw, sourced, built⟩ := h.built r₀ mem₀
    rw [step.fresh]
    have same : r.specifier = r₀.specifier := by rw [step.eq]
    rw [same]
    exact ⟨raw, sourced, built⟩
  storing := h.storing

/-- A record that has been built from a source of its module can be put in. -/
theorem Sound.put (h : run.Sound engine entry given events) (r : Record U) {raw : String}
    (fresh : r.specifier ∉ run.graph.keys) (sourced : Sourced entry given events r.specifier raw)
    (built : (build engine r.specifier (r.specifier == entry) raw).1 = .ok (r.fresh))
    (known : run.phase? r.specifier = some .loaded ∨ (r.specifier = entry ∧ given.isSome = true)) :
    ({ run with graph := { run.graph with records := run.graph.records ++ [r] } } : Run U).Sound
      engine entry given events where
  root := h.root
  unique := by
    show (List.map _ (_ ++ _)).Nodup
    rw [List.map_append]
    exact h.unique.append (List.nodup_singleton _) (List.disjoint_singleton.mpr fresh)
  known s mem := by
    rcases Graph.mem_keys.mp mem with ⟨r', here, rfl⟩
    rcases List.mem_append.mp here with here | here
    · exact h.known _ (Graph.mem_keys.mpr ⟨r', here, rfl⟩)
    · rw [List.mem_singleton.mp here]
      exact known
  unloaded := h.unloaded
  built r' mem := by
    rcases List.mem_append.mp mem with mem | mem
    · exact h.built r' mem
    · rw [List.mem_singleton.mp mem]
      exact ⟨raw, sourced, built⟩
  storing := h.storing

/-- What is left to do does not matter. -/
theorem Sound.swept (h : run.Sound engine entry given events) (left : Except LoadError Pending) :
    (run.swept left).Sound engine entry given events := by
  cases left with
  | error e => exact ⟨h.root, h.unique, h.known, h.unloaded, h.built, h.storing⟩
  | ok q => exact ⟨h.root, h.unique, h.known, h.unloaded, h.built, h.storing⟩

end Run

end ModuleLinker.Link
