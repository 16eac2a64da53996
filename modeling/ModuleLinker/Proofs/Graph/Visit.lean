import ModuleLinker.Proofs.Graph.Walk

/-!
# Visiting modules recursively

The walk over a graph keeps the modules that are still to be looked at on a stack. It lists what a
visit of the entry lists that calls itself for what a module imports (`Graph.walk_eq_visit`). This is
so on any graph: modules can import themselves and each other, the same module more than once, and
modules without a record.
-/

set_option autoImplicit false

namespace ModuleLinker

variable {U : Type}

/-- What a visit has listed, and the modules that have been met by its end. It leaves no more records
unvisited than there were before it. -/
structure Visit (g : Graph U) (met : List Specifier) where
  /-- The records, in the order in which they were listed. -/
  records : List (Record U)
  /-- The modules that have been met. -/
  after : List Specifier
  fewer : (g.unvisited after).length ≤ (g.unvisited met).length

namespace Graph

mutual

/-- Visits a module, unless it has been met: lists its record if it has one, and then visits what it
imports. -/
def visit (g : Graph U) (s : Specifier) (met : List Specifier) : Visit g met :=
  if _fresh : met.contains s then ⟨[], met, Nat.le_refl _⟩
  else
    match _found : g.get? s with
    | none => ⟨[], s :: met, g.length_unvisited_cons_le s met⟩
    | some r =>
      let below := visitAll g r.dependencies (s :: met)
      ⟨r :: below.records, below.after, Nat.le_trans below.fewer (g.length_unvisited_cons_le s met)⟩
termination_by ((g.unvisited met).length, 0)
decreasing_by exact Prod.Lex.left _ _ (g.length_unvisited_cons_lt _fresh _found)

/-- Visits modules in order. -/
def visitAll (g : Graph U) (modules met : List Specifier) : Visit g met :=
  match modules with
  | [] => ⟨[], met, Nat.le_refl _⟩
  | s :: more =>
    let first := visit g s met
    let rest := visitAll g more first.after
    ⟨first.records ++ rest.records, rest.after, Nat.le_trans rest.fewer first.fewer⟩
termination_by ((g.unvisited met).length, modules.length + 1)
decreasing_by
  · exact Prod.Lex.right _ (Nat.succ_pos _)
  -- The first visit has left fewer records unvisited, or there are fewer modules now.
  · rcases Nat.lt_or_eq_of_le first.fewer with fewer | same
    · exact Prod.Lex.left _ _ fewer
    · rw [same]
      exact Prod.Lex.right _ (by simp)

end

variable {g : Graph U} {s : Specifier} {met : List Specifier}

/-- Nothing comes of visiting a module that has been met. -/
theorem visit_of_met (known : met.contains s = true) : g.visit s met = ⟨[], met, Nat.le_refl _⟩ := by
  rw [visit, dif_pos known]

/-- A module without a record is only met. -/
theorem visit_of_none (fresh : ¬ met.contains s = true) (none : g.get? s = .none) :
    (g.visit s met).records = [] ∧ (g.visit s met).after = s :: met := by
  rw [visit, dif_neg fresh]
  split
  case h_1 => exact ⟨rfl, rfl⟩
  case h_2 r found => cases none.symm.trans found

/-- The record of a module is listed in front of what is listed for its imports. -/
theorem visit_of_some (fresh : ¬ met.contains s = true) {r : Record U} (found : g.get? s = some r) :
    (g.visit s met).records = r :: (g.visitAll r.dependencies (s :: met)).records ∧
      (g.visit s met).after = (g.visitAll r.dependencies (s :: met)).after := by
  rw [visit, dif_neg fresh]
  split
  case h_1 none => cases none.symm.trans found
  case h_2 r' found' =>
    cases found.symm.trans found'
    exact ⟨rfl, rfl⟩

variable (g)

mutual

/-- The walk lists what a visit of the next module lists, and then goes on with the others. -/
theorem walkFrom_cons (s : Specifier) (stack met : List Specifier) :
    g.walkFrom (s :: stack) met =
      (g.visit s met).records ++ g.walkFrom stack (g.visit s met).after := by
  rw [walkFrom]
  split
  case isTrue known => rw [visit_of_met known, List.nil_append]
  case isFalse fresh =>
    split
    case h_1 none =>
      obtain ⟨records, after⟩ := visit_of_none fresh none
      rw [records, after, List.nil_append]
    case h_2 r found =>
      obtain ⟨records, after⟩ := visit_of_some fresh found
      rw [records, after, List.cons_append, walkFrom_append r.dependencies]
termination_by ((g.unvisited met).length, 0)
decreasing_by exact Prod.Lex.left _ _ (g.length_unvisited_cons_lt ‹_› ‹_›)

/-- The walk lists what visits of the next modules list, and then goes on with the others. -/
theorem walkFrom_append (modules stack met : List Specifier) :
    g.walkFrom (modules ++ stack) met =
      (g.visitAll modules met).records ++ g.walkFrom stack (g.visitAll modules met).after := by
  cases modules with
  | nil =>
    rw [visitAll]
    rfl
  | cons s more =>
    rw [visitAll, List.cons_append, walkFrom_cons s, walkFrom_append more, ← List.append_assoc]
termination_by ((g.unvisited met).length, modules.length + 1)
decreasing_by
  · exact Prod.Lex.right _ (Nat.succ_pos _)
  · rcases Nat.lt_or_eq_of_le (g.visit s met).fewer with fewer | same
    · exact Prod.Lex.left _ _ fewer
    · rw [same]
      exact Prod.Lex.right _ (by simp)

end

/-- The walk over a graph lists what a visit of the entry lists. -/
theorem walk_eq_visit : g.walk = (g.visit g.entry []).records := by
  rw [walk, walkFrom_cons, walkFrom, List.append_nil]

/-! ## Graphs that are made step by step -/

/-- The graphs of a run from an entry: records are put in, and it changes how far modules have come and
what they import. -/
inductive Edited (entry : Specifier) : Graph U → Prop
  | empty : Edited entry (.empty entry)
  | insert {g : Graph U} (edited : Edited entry g) (r : Record U) : Edited entry (g.insert r)
  | setState {g : Graph U} (edited : Edited entry g) (s : Specifier) (state : LinkState) :
      Edited entry (g.setState s state)
  | setDependencies {g : Graph U} (edited : Edited entry g) (s : Specifier)
      (dependencies : List Specifier) : Edited entry (g.setDependencies s dependencies)

variable {g} {entry : Specifier}

theorem Edited.root (edited : Edited entry g) : g.entry = entry := by
  induction edited with
  | empty => rfl
  | insert _ r ih => rw [entry_insert, ih]
  | setState _ s state ih => exact ih
  | setDependencies _ s dependencies ih => exact ih

theorem nodup_keys_insert (unique : g.keys.Nodup) (r : Record U) : (g.insert r).keys.Nodup := by
  by_cases mem : r.specifier ∈ g.keys
  · rw [insert_of_mem mem]
    exact unique
  · rw [insert_of_not_mem mem, keys, List.map_append, List.map_singleton, admitted_specifier]
    exact unique.append (List.nodup_singleton _) (List.disjoint_singleton.mpr mem)

/-- There is at most one record of a module. -/
theorem Edited.nodup_keys (edited : Edited entry g) : g.keys.Nodup := by
  induction edited with
  | empty => exact List.nodup_nil
  | insert _ r ih => exact nodup_keys_insert ih r
  | setState _ s state ih => rwa [keys_setState]
  | setDependencies _ s dependencies ih => rwa [keys_setDependencies]

end Graph

end ModuleLinker
