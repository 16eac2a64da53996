import Mathlib.Data.List.Forall2
import Mathlib.Data.List.Nodup
import ModuleLinker.Graph

/-!
# The records of a graph

Which modules have a record, and what putting a record in and changing a record do to that. While
modules are linked, the records of a graph only ever advance: their state becomes `linked` and nothing
else about them changes.
-/

set_option autoImplicit false

namespace ModuleLinker

variable {U : Type}

namespace Graph

/-- The modules that have a record, in the order in which the records were put in. -/
def keys (g : Graph U) : List Specifier := g.records.map (·.specifier)

theorem mem_keys {g : Graph U} {s : Specifier} :
    s ∈ g.keys ↔ ∃ r ∈ g.records, r.specifier = s := by
  rw [keys, List.mem_map]

theorem mem_specifiers {g : Graph U} {s : Specifier} : s ∈ g.specifiers ↔ s ∈ g.keys := by
  rw [specifiers, List.mem_mergeSort]
  rfl

theorem contains_iff {g : Graph U} {s : Specifier} : g.contains s = true ↔ s ∈ g.keys := by
  rw [contains, get?, List.find?_isSome, mem_keys]
  simp only [beq_iff_eq]

/-- A module has no more than one record where no two records are of one module. -/
theorem get?_eq_some_iff {g : Graph U} (unique : g.keys.Nodup) {s : Specifier} {r : Record U} :
    g.get? s = some r ↔ r ∈ g.records ∧ r.specifier = s := by
  constructor
  · intro found
    exact ⟨List.mem_of_find?_eq_some found, by simpa using List.find?_some found⟩
  · rintro ⟨mem, rfl⟩
    obtain ⟨r', found⟩ := Option.isSome_iff_exists.mp
      (contains_iff.mpr (mem_keys.mpr ⟨r, mem, rfl⟩))
    have same : r'.specifier = r.specifier := by simpa using List.find?_some found
    rw [found, List.inj_on_of_nodup_map unique (List.mem_of_find?_eq_some found) mem same]

@[simp]
theorem admitted_specifier (r : Record U) : (admitted r).specifier = r.specifier := by
  unfold admitted
  split <;> rfl

theorem insert_of_mem {g : Graph U} {r : Record U} (mem : r.specifier ∈ g.keys) :
    g.insert r = g := by
  rw [insert, if_pos (contains_iff.mpr mem)]

theorem insert_of_not_mem {g : Graph U} {r : Record U} (fresh : r.specifier ∉ g.keys) :
    g.insert r = { g with records := g.records ++ [admitted r] } := by
  rw [insert, if_neg (mt contains_iff.mp fresh)]

@[simp]
theorem entry_insert (g : Graph U) (r : Record U) : (g.insert r).entry = g.entry := by
  unfold insert
  split <;> rfl

theorem mem_keys_insert {g : Graph U} {r : Record U} {s : Specifier} :
    s ∈ (g.insert r).keys ↔ s = r.specifier ∨ s ∈ g.keys := by
  by_cases mem : r.specifier ∈ g.keys
  · rw [insert_of_mem mem]
    constructor
    · exact .inr
    · rintro (rfl | other)
      · exact mem
      · exact other
  · rw [insert_of_not_mem mem]
    simp [keys, or_comm]

theorem keys_modify {g : Graph U} {s : Specifier} {f : Record U → Record U}
    (same : ∀ r, (f r).specifier = r.specifier) : (g.modify s f).keys = g.keys := by
  rw [keys, modify, List.map_map]
  refine List.map_congr_left fun r _ => ?_
  simp only [Function.comp_apply]
  split
  · exact same r
  · rfl

@[simp]
theorem keys_setState (g : Graph U) (s : Specifier) (state : LinkState) :
    (g.setState s state).keys = g.keys := keys_modify fun _ => rfl

@[simp]
theorem keys_setDependencies (g : Graph U) (s : Specifier) (imports : List Specifier) :
    (g.setDependencies s imports).keys = g.keys := keys_modify fun _ => rfl

/-- What a module imports can be changed as its record is put in. -/
theorem setDependencies_insert {g : Graph U} {r : Record U} (fresh : r.specifier ∉ g.keys)
    (imports : List Specifier) : (g.insert r).setDependencies r.specifier imports =
      { g with records := g.records ++ [{ admitted r with dependencies := imports }] } := by
  rw [insert_of_not_mem fresh, setDependencies, modify]
  simp only [List.map_append, List.map_cons, List.map_nil, admitted_specifier, beq_self_eq_true,
    if_true]
  congr 2
  rw [List.map_congr_left (g := id), List.map_id]
  intro r' mem
  have other : r'.specifier ≠ r.specifier := fun same => fresh (mem_keys.mpr ⟨r', mem, same⟩)
  simp [other]

/-- Changing what a module imports to the same modules again changes nothing. -/
theorem setDependencies_setDependencies (g : Graph U) (s : Specifier) (imports : List Specifier) :
    (g.setDependencies s imports).setDependencies s imports = g.setDependencies s imports := by
  simp only [setDependencies, modify, List.map_map]
  congr 1
  refine List.map_congr_left fun r _ => ?_
  by_cases same : r.specifier = s <;> simp [same]

end Graph

/-! ## Advancing -/

/-- A record is another one, or the other one after its imports have been settled. -/
def Record.Advanced (r r' : Record U) : Prop := r' = r ∨ r' = { r with state := .linked }

namespace Record

theorem Advanced.refl (r : Record U) : r.Advanced r := .inl rfl

theorem Advanced.trans {r r' r'' : Record U} (first : r.Advanced r') (second : r'.Advanced r'') :
    r.Advanced r'' := by
  rcases first with rfl | rfl
  · exact second
  · rcases second with rfl | rfl
    · exact .inr rfl
    · exact .inr rfl

/-- A record as it was built, before anything was known about its imports. -/
def fresh (r : Record U) : Record U := { r with state := .unlinked, dependencies := [] }

theorem Advanced.fresh {r r' : Record U} (h : r.Advanced r') : r'.fresh = r.fresh := by
  rcases h with rfl | rfl <;> rfl

/-- A record that has advanced is the same but for its state. -/
theorem Advanced.eq {r r' : Record U} (h : r.Advanced r') : r' = { r with state := r'.state } := by
  rcases h with rfl | rfl <;> rfl

end Record

namespace Graph

/-- The records of a graph have advanced. -/
structure Advanced (g g' : Graph U) : Prop where
  entry : g'.entry = g.entry
  records : List.Forall₂ Record.Advanced g.records g'.records

theorem Advanced.refl (g : Graph U) : g.Advanced g :=
  ⟨rfl, List.forall₂_same.mpr fun r _ => .refl r⟩

theorem Advanced.trans {g g' g'' : Graph U} (first : g.Advanced g') (second : g'.Advanced g'') :
    g.Advanced g'' := by
  refine ⟨second.entry.trans first.entry, ?_⟩
  have records := first.records
  have more := second.records
  generalize g.records = rs, g'.records = rs', g''.records = rs'' at records more
  induction more generalizing rs with
  | nil =>
    cases records
    exact .nil
  | cons step _ ih =>
    cases records with
    | cons here rest => exact .cons (here.trans step) (ih _ rest)

theorem Advanced.keys {g g' : Graph U} (h : g.Advanced g') : g'.keys = g.keys := by
  obtain ⟨-, records⟩ := h
  unfold Graph.keys
  generalize g.records = rs, g'.records = rs' at records
  induction records with
  | nil => rfl
  | cons here _ ih => rw [List.map_cons, List.map_cons, ih, here.eq]

/-- Where a record has advanced to. -/
theorem Advanced.exists_after {g g' : Graph U} (h : g.Advanced g') {r : Record U}
    (mem : r ∈ g.records) : ∃ r' ∈ g'.records, r.Advanced r' := by
  obtain ⟨-, records⟩ := h
  generalize g.records = rs, g'.records = rs' at records mem
  induction records with
  | nil => cases mem
  | cons here _ ih =>
    rcases List.mem_cons.mp mem with rfl | mem
    · exact ⟨_, List.mem_cons_self, here⟩
    · obtain ⟨r', mem', advanced⟩ := ih mem
      exact ⟨r', List.mem_cons_of_mem _ mem', advanced⟩

/-- Where a record has advanced from. -/
theorem Advanced.exists_before {g g' : Graph U} (h : g.Advanced g') {r' : Record U}
    (mem : r' ∈ g'.records) : ∃ r ∈ g.records, r.Advanced r' := by
  obtain ⟨-, records⟩ := h
  generalize g.records = rs, g'.records = rs' at records mem
  induction records with
  | nil => cases mem
  | cons here _ ih =>
    rcases List.mem_cons.mp mem with rfl | mem
    · exact ⟨_, List.mem_cons_self, here⟩
    · obtain ⟨r, mem', advanced⟩ := ih mem
      exact ⟨r, List.mem_cons_of_mem _ mem', advanced⟩

/-- A module that is linked is an advance. -/
theorem advanced_linked (g : Graph U) (s : Specifier) : g.Advanced (g.setState s .linked) := by
  refine ⟨rfl, ?_⟩
  rw [setState, modify, List.forall₂_map_right_iff, List.forall₂_same]
  intro r _
  split
  · exact .inr rfl
  · exact .inl rfl

/-- Putting the same record in keeps an advance. -/
theorem Advanced.insert {g g' : Graph U} (h : g.Advanced g') (r : Record U) :
    (g.insert r).Advanced (g'.insert r) := by
  by_cases mem : r.specifier ∈ g.keys
  · rw [insert_of_mem mem, insert_of_mem (h.keys ▸ mem)]
    exact h
  · rw [insert_of_not_mem mem, insert_of_not_mem (h.keys ▸ mem)]
    exact ⟨h.entry, List.rel_append h.records (.cons (.refl _) .nil)⟩

/-- Changing the imports of a module in the same way keeps an advance. -/
theorem Advanced.setDependencies {g g' : Graph U} (h : g.Advanced g') (s : Specifier)
    (imports : List Specifier) :
    (g.setDependencies s imports).Advanced (g'.setDependencies s imports) := by
  refine ⟨h.entry, ?_⟩
  simp only [Graph.setDependencies, modify, List.forall₂_map_left_iff, List.forall₂_map_right_iff]
  refine h.records.imp fun r r' advanced => ?_
  rcases advanced with rfl | rfl
  · exact .refl _
  · dsimp only
    split
    · exact .inr rfl
    · exact .inr rfl

/-! ## Linked modules -/

/-- Whether a module has a record that is linked. -/
def Linked (g : Graph U) (s : Specifier) : Prop :=
  ∃ r ∈ g.records, r.specifier = s ∧ r.state = .linked

/-- The record of a module that is linked is linked. -/
theorem Linked.state {g : Graph U} {r : Record U} (unique : g.keys.Nodup) (mem : r ∈ g.records)
    (h : g.Linked r.specifier) : r.state = .linked := by
  obtain ⟨r', mem', same, linked⟩ := h
  rw [← List.inj_on_of_nodup_map unique mem' mem same]
  exact linked

/-- A module that is linked stays so while records advance. -/
theorem Linked.advanced {g g' : Graph U} {s : Specifier} (h : g.Linked s) (more : g.Advanced g') :
    g'.Linked s := by
  obtain ⟨r, mem, rfl, linked⟩ := h
  obtain ⟨r', mem', advanced⟩ := more.exists_after mem
  rcases advanced with rfl | rfl
  · exact ⟨_, mem', rfl, linked⟩
  · exact ⟨_, mem', rfl, rfl⟩

theorem Linked.insert {g : Graph U} {s : Specifier} (h : g.Linked s) (r : Record U) :
    (g.insert r).Linked s := by
  obtain ⟨r', mem, same, linked⟩ := h
  refine ⟨r', ?_, same, linked⟩
  unfold Graph.insert
  split
  · exact mem
  · exact List.mem_append_left _ mem

theorem Linked.setDependencies {g : Graph U} {s : Specifier} (h : g.Linked s) (s' : Specifier)
    (imports : List Specifier) : (g.setDependencies s' imports).Linked s := by
  obtain ⟨r, mem, same, linked⟩ := h
  refine ⟨_, List.mem_map_of_mem mem, ?_, ?_⟩
  · split
    · exact same
    · exact same
  · split
    · exact linked
    · exact linked

/-- A module with a record can be linked. -/
theorem linked_setState {g : Graph U} {s : Specifier} (mem : s ∈ g.keys) :
    (g.setState s .linked).Linked s := by
  obtain ⟨r, here, rfl⟩ := mem_keys.mp mem
  refine ⟨_, List.mem_map_of_mem here, ?_, ?_⟩ <;> simp

end Graph

end ModuleLinker
