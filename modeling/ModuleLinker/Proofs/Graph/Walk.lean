import Mathlib.Data.List.Perm.Basic
import Mathlib.Data.List.Nodup
import Mathlib.Logic.Relation
import ModuleLinker.Proofs.Graph.Records

/-!
# The walk over a graph

What the entry of a graph needs, and that the walk meets it. The walk passes over modules without a
record and over those it has met, so on any graph it lists records at most once
(`Graph.walk_nodup`), and those that the entry needs (`Graph.mem_walk_iff`). Where the graph has
nothing else, it lists every record exactly once (`Graph.walk_perm`).
-/

set_option autoImplicit false

namespace ModuleLinker

variable {U : Type}

namespace Graph

/-- A module has a record that names another one as an import. -/
def Imports (g : Graph U) (a b : Specifier) : Prop :=
  ∃ r ∈ g.records, r.specifier = a ∧ b ∈ r.dependencies

/-- The entry of a graph needs a module. -/
def Needs (g : Graph U) (s : Specifier) : Prop := Relation.ReflTransGen g.Imports g.entry s

/-- What is needed stays so while records advance and others are put in. -/
theorem Needs.mono {g g' : Graph U} (entry : g'.entry = g.entry)
    (h : ∀ a b, g.Imports a b → g'.Imports a b) {s : Specifier} (needs : g.Needs s) :
    g'.Needs s := by
  unfold Needs
  rw [entry]
  exact Relation.ReflTransGen.mono h _ _ needs

theorem Imports.advanced {g g' : Graph U} (h : g.Advanced g') {a b : Specifier}
    (imports : g.Imports a b) : g'.Imports a b := by
  obtain ⟨r, mem, rfl, dependency⟩ := imports
  obtain ⟨r', mem', step⟩ := h.exists_after mem
  exact ⟨r', mem', by rw [step.eq], by rw [step.eq]; exact dependency⟩

/-! ## Walking -/

/-- The walk lists records of the graph, and none of a module that has been met. -/
theorem mem_walkFrom (g : Graph U) (stack visited : List Specifier) {r : Record U}
    (mem : r ∈ g.walkFrom stack visited) : r ∈ g.records ∧ r.specifier ∉ visited := by
  fun_induction walkFrom g stack visited with
  | case1 visited => cases mem
  | case2 s stack visited met ih => exact ih mem
  | case3 s stack visited fresh none ih =>
    obtain ⟨here, unmet⟩ := ih mem
    exact ⟨here, fun met => unmet (List.mem_cons_of_mem s met)⟩
  | case4 s stack visited fresh r' found ih =>
    rcases List.mem_cons.mp mem with rfl | mem
    · have own : r.specifier = s := by simpa using List.find?_some found
      refine ⟨List.mem_of_find?_eq_some found, ?_⟩
      rw [own]
      simpa using fresh
    · obtain ⟨here, unmet⟩ := ih mem
      exact ⟨here, fun met => unmet (List.mem_cons_of_mem s met)⟩

/-- The walk lists no record twice. -/
theorem walkFrom_nodup (g : Graph U) (stack visited : List Specifier) :
    (g.walkFrom stack visited).Nodup := by
  fun_induction walkFrom g stack visited with
  | case1 visited => exact List.nodup_nil
  | case2 s stack visited met ih => exact ih
  | case3 s stack visited fresh none ih => exact ih
  | case4 s stack visited fresh r found ih =>
    refine List.nodup_cons.mpr ⟨fun mem => ?_, ih⟩
    have own : r.specifier = s := by simpa using List.find?_some found
    exact (mem_walkFrom g _ _ mem).2 (own ▸ List.mem_cons_self)

/-- The walk meets every module with a record that is on the stack or that a listed record imports. -/
theorem exists_mem_walkFrom (g : Graph U) (stack visited : List Specifier) {s : Specifier}
    (known : s ∈ g.keys) (next : s ∈ stack ∨ ∃ r ∈ g.walkFrom stack visited, s ∈ r.dependencies) :
    s ∈ visited ∨ ∃ r ∈ g.walkFrom stack visited, r.specifier = s := by
  fun_induction walkFrom g stack visited with
  | case1 visited =>
    rcases next with next | ⟨r, mem, -⟩
    · cases next
    · cases mem
  | case2 s' stack visited met ih =>
    rcases next with next | next
    · rcases List.mem_cons.mp next with rfl | next
      · exact .inl (by simpa using met)
      · exact ih (.inl next)
    · exact ih (.inr next)
  | case3 s' stack visited fresh none ih =>
    have apart : s ≠ s' := by
      rintro rfl
      have found := contains_iff.mpr known
      rw [contains, none] at found
      cases found
    have rest := ih (next.imp (fun next => (List.mem_cons.mp next).resolve_left apart) id)
    exact rest.imp (fun met => (List.mem_cons.mp met).resolve_left apart) id
  | case4 s' stack visited fresh r found ih =>
    have own : r.specifier = s' := by simpa using List.find?_some found
    by_cases same : s = s'
    · exact .inr ⟨r, List.mem_cons_self, same ▸ own⟩
    · have later : s ∈ r.dependencies ++ stack ∨
          ∃ r' ∈ g.walkFrom (r.dependencies ++ stack) (s' :: visited), s ∈ r'.dependencies := by
        rcases next with next | ⟨r', mem, dependency⟩
        · exact .inl (List.mem_append_right _ ((List.mem_cons.mp next).resolve_left same))
        · rcases List.mem_cons.mp mem with rfl | mem
          · exact .inl (List.mem_append_left _ dependency)
          · exact .inr ⟨r', mem, dependency⟩
      rcases ih later with met | ⟨r', mem, here⟩
      · exact .inl ((List.mem_cons.mp met).resolve_left same)
      · exact .inr ⟨r', List.mem_cons_of_mem r mem, here⟩

/-- The walk over a graph lists no record twice. -/
theorem walk_nodup (g : Graph U) : g.walk.Nodup := walkFrom_nodup g _ _

/-- The walk lists records that can be reached from the modules on the stack. -/
theorem exists_reaches_of_mem_walkFrom (g : Graph U) (stack visited : List Specifier) {r : Record U}
    (mem : r ∈ g.walkFrom stack visited) :
    ∃ s ∈ stack, Relation.ReflTransGen g.Imports s r.specifier := by
  fun_induction walkFrom g stack visited with
  | case1 visited => cases mem
  | case2 s stack visited met ih =>
    obtain ⟨t, next, reaches⟩ := ih mem
    exact ⟨t, List.mem_cons_of_mem s next, reaches⟩
  | case3 s stack visited fresh none ih =>
    obtain ⟨t, next, reaches⟩ := ih mem
    exact ⟨t, List.mem_cons_of_mem s next, reaches⟩
  | case4 s stack visited fresh r' found ih =>
    have own : r'.specifier = s := by simpa using List.find?_some found
    rcases List.mem_cons.mp mem with rfl | mem
    · exact ⟨s, List.mem_cons_self, own ▸ .refl⟩
    · obtain ⟨t, next, reaches⟩ := ih mem
      rcases List.mem_append.mp next with dependency | next
      · have imports : g.Imports s t := ⟨r', List.mem_of_find?_eq_some found, own, dependency⟩
        exact ⟨s, List.mem_cons_self, .head imports reaches⟩
      · exact ⟨t, List.mem_cons_of_mem s next, reaches⟩

/-- The walk over a graph meets every module with a record that the entry needs. -/
theorem exists_mem_walk {g : Graph U} (unique : g.keys.Nodup) {s : Specifier} (known : s ∈ g.keys)
    (needs : g.Needs s) : ∃ r ∈ g.walk, r.specifier = s := by
  induction needs with
  | refl =>
    have here := g.exists_mem_walkFrom [g.entry] [] known (.inl List.mem_cons_self)
    exact here.resolve_left List.not_mem_nil
  | tail _ imports ih =>
    obtain ⟨r', mem', own', dependency⟩ := imports
    obtain ⟨r, mem, own⟩ := ih (mem_keys.mpr ⟨r', mem', own'⟩)
    have same : r = r' := List.inj_on_of_nodup_map unique (mem_walkFrom g _ _ mem).1 mem'
      (own.trans own'.symm)
    subst same
    have here := g.exists_mem_walkFrom [g.entry] [] known (.inr ⟨r, mem, dependency⟩)
    exact here.resolve_left List.not_mem_nil

/-- The walk over a graph lists the records of the modules that the entry needs, and nothing else. -/
theorem mem_walk_iff {g : Graph U} (unique : g.keys.Nodup) {r : Record U} :
    r ∈ g.walk ↔ r ∈ g.records ∧ g.Needs r.specifier := by
  constructor
  · intro mem
    obtain ⟨s, next, reaches⟩ := g.exists_reaches_of_mem_walkFrom _ _ mem
    rw [List.mem_singleton.mp next] at reaches
    exact ⟨(mem_walkFrom g _ _ mem).1, reaches⟩
  · rintro ⟨mem, needs⟩
    obtain ⟨r', mem', same⟩ := exists_mem_walk unique (mem_keys.mpr ⟨r, mem, rfl⟩) needs
    rw [← List.inj_on_of_nodup_map unique (mem_walkFrom g _ _ mem').1 mem same]
    exact mem'

/-- The walk over a graph lists no module twice. -/
theorem nodup_specifiers_walk {g : Graph U} (unique : g.keys.Nodup) :
    (g.walk.map (·.specifier)).Nodup := by
  refine g.walk_nodup.map_on fun r mem r' mem' same => ?_
  exact List.inj_on_of_nodup_map unique (mem_walkFrom g _ _ mem).1 (mem_walkFrom g _ _ mem').1 same

/-- All modules that the entry needs have records, where the entry and all imports do. -/
theorem mem_keys_of_needs {g : Graph U} (root : g.entry ∈ g.keys)
    (closed : ∀ a b, g.Imports a b → b ∈ g.keys) {s : Specifier} (needs : g.Needs s) :
    s ∈ g.keys := by
  cases needs with
  | refl => exact root
  | tail _ imports => exact closed _ _ imports

/-- The walk over a graph lists every record exactly once, where every module is needed. -/
theorem walk_perm {g : Graph U} (unique : g.keys.Nodup) (needed : ∀ s ∈ g.keys, g.Needs s) :
    g.walk.Perm g.records := by
  refine (List.perm_ext_iff_of_nodup g.walk_nodup (.of_map _ unique)).mpr fun r => ?_
  rw [mem_walk_iff unique]
  exact ⟨And.left, fun mem => ⟨mem, needed _ (mem_keys.mpr ⟨r, mem, rfl⟩)⟩⟩

end Graph

end ModuleLinker
