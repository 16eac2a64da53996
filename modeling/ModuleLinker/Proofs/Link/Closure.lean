import ModuleLinker.Proofs.Link.Hopeful
import ModuleLinker.Proofs.Link.Imports

/-!
# The closure of the imports

A run that has linked everything has linked exactly what its entry imports, directly or through
others, whatever its files, servers and cache have answered and in whatever order they have. This is
said of the engine that reads the structure of modules, whose units keep the references of a source.
-/

set_option autoImplicit false

namespace ModuleLinker

open Link

/-- A module has a static import, in its executable source, of another one. -/
def Graph.References (g : Graph Inspected) (a b : Specifier) : Prop :=
  ∃ r ∈ g.records, r.specifier = a ∧ ∃ references, staticImports r.executableSource = .ok references ∧
    ∃ reference ∈ references, Specifier.resolve reference a = .ok b

/-- A graph of an entry and of everything it imports, directly or through others, and of nothing
else. -/
structure Graph.IsImportClosure (g : Graph Inspected) (entry : Specifier) : Prop where
  /-- The modules are those that can be reached from the entry by static imports, each one once. -/
  specifiers : (∀ s, s ∈ g.specifiers ↔ Relation.ReflTransGen g.References entry s) ∧
    g.specifiers.Nodup
  /-- All modules are linked. -/
  linked : ∀ r ∈ g.records, r.state = .linked
  /-- What a module imports is what its references lead to, in order and without repetitions. -/
  dependencies : ∀ r ∈ g.records, ∃ references found,
    staticImports r.executableSource = .ok references ∧
      references.mapM (Specifier.resolve · r.specifier) = .ok found ∧
      r.dependencies = found.eraseDups
  /-- What a module imports is in the graph. -/
  closed : ∀ r ∈ g.records, ∀ d ∈ r.dependencies, g.contains d = true
  /-- One record is that of the entry of the run, and it is the record of the entry. -/
  isEntry : ∃ r ∈ g.records, r.specifier = entry ∧ ∀ r' ∈ g.records, r'.isEntry = true ↔ r' = r
  /-- The walk lists every record exactly once. -/
  walk : g.walk.Perm g.records ∧ g.walk.Nodup

namespace Link

namespace Run

variable {entry : Specifier} {given : Option String} {cap : Nat} {events : List Event}

/-- The imports of a record that was built by the inspector. -/
theorem dependencies_of_inspector {r : Record Inspected} {raw : String} {isEntry : Bool}
    (built : (build Engine.inspector r.specifier isEntry raw).1 = .ok r.fresh)
    (resolved : importsOf Engine.inspector r = .ok r.dependencies) :
    ∃ references found, staticImports r.executableSource = .ok references ∧
      references.mapM (Specifier.resolve · r.specifier) = .ok found ∧
      r.dependencies = found.eraseDups := by
  have compiled : (Engine.inspector).compile r.executableSource r.specifier.text
    ⟨r.specifier, isEntry⟩ = .ok r.unit := (build_spec built).2.2.2.2.2.2.2
  obtain ⟨references, found, imports, mapped, same⟩ := importsOf_eq_ok resolved
  unfold Engine.inspector at compiled
  cases read : staticImports r.executableSource with
  | error e => simp [read] at compiled
  | ok references' =>
    simp only [read, Except.ok.injEq] at compiled
    have same' : references' = references := by
      have imports : Except.ok r.unit.imports = Except.ok (ε := String) references := imports
      rw [← compiled] at imports
      exact Except.ok.inj imports
    subst same'
    exact ⟨references', found, rfl, mapped, same⟩

/-- A run that has linked everything has linked the closure of the imports of its entry. -/
theorem isImportClosure_of_succeeded (run : Run Inspected)
    (reached : Reached Engine.inspector entry given cap events run) (succeeded : run.Succeeded) :
    run.graph.IsImportClosure entry := by
  have sound := reached.kept.sound
  have settled := reached.settled succeeded
  have dependencies : ∀ r ∈ run.graph.records, ∃ references found,
      staticImports r.executableSource = .ok references ∧
        references.mapM (Specifier.resolve · r.specifier) = .ok found ∧
        r.dependencies = found.eraseDups := by
    intro r mem
    obtain ⟨raw, -, built⟩ := sound.built r mem
    exact dependencies_of_inspector built (settled.resolved r mem)
  have references : run.graph.Imports = run.graph.References := by
    funext a b
    refine propext ⟨?_, ?_⟩
    · rintro ⟨r, mem, rfl, dependency⟩
      obtain ⟨references, found, read, mapped, same⟩ := dependencies r mem
      rw [same, List.mem_eraseDups, mem_of_mapM_eq_ok mapped] at dependency
      exact ⟨r, mem, rfl, references, read, dependency⟩
    · rintro ⟨r, mem, rfl, references, read, leads⟩
      obtain ⟨references', found, read', mapped, same⟩ := dependencies r mem
      rw [read] at read'
      cases read'
      refine ⟨r, mem, rfl, ?_⟩
      rw [same, List.mem_eraseDups, mem_of_mapM_eq_ok mapped]
      exact leads
  constructor
  case specifiers =>
    constructor
    · intro s
      rw [Graph.mem_specifiers, settled.needs s, Graph.Needs, references, settled.root]
    · rw [Graph.specifiers]
      exact ((List.mergeSort_perm _ _).nodup_iff).mpr settled.unique
  case linked => exact settled.linked
  case dependencies => exact dependencies
  case closed =>
    intro r mem d dependency
    exact Graph.contains_iff.mpr (settled.closed _ d ⟨r, mem, rfl, dependency⟩)
  case isEntry =>
    obtain ⟨r, mem, own⟩ := Graph.mem_keys.mp ((settled.needs _).mpr .refl)
    rw [settled.root] at own
    refine ⟨r, mem, own, fun r' mem' => ?_⟩
    obtain ⟨raw, -, built⟩ := sound.built r' mem'
    have isEntry : r'.isEntry = (r'.specifier == entry) := (build_spec built).2.1
    rw [isEntry, beq_iff_eq]
    constructor
    · intro same
      exact List.inj_on_of_nodup_map settled.unique mem' mem (same.trans own.symm)
    · rintro rfl
      exact own
  case walk =>
    exact ⟨Graph.walk_perm settled.unique fun s mem => (settled.needs s).mp mem,
      Graph.walk_nodup _⟩

/-- Two modules that import each other are the closure of the imports of either. -/
theorem isImportClosure_cycleRun :
    Reached Engine.inspector (rootModule "a.js") (some "import './b.js';") 1
        [.start, .read (rootModule "b.js") (.ok "import './a.js';"), .start] cycleRun ∧
      cycleRun.Succeeded ∧ cycleRun.graph.IsImportClosure (rootModule "a.js") := by
  exact ⟨reached_cycleRun, succeeded_cycleRun,
    isImportClosure_of_succeeded _ reached_cycleRun succeeded_cycleRun⟩

end Run

end Link

end ModuleLinker
