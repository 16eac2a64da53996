import Mathlib.Data.List.Basic
import ModuleLinker.Link.Build
import ModuleLinker.Proofs.Specifier.Written

/-!
# References and imports

What the references in a module lead to, one by one and together.
-/

set_option autoImplicit false

namespace ModuleLinker.Link

variable {U V : Type}

/-- What some references lead to is what one of them leads to. -/
theorem mem_of_mapM_eq_ok {α β ε : Type} {f : α → Except ε β} {as : List α} {bs : List β}
    (mapped : as.mapM f = .ok bs) {b : β} : b ∈ bs ↔ ∃ a ∈ as, f a = .ok b := by
  induction as generalizing bs with
  | nil =>
    cases mapped
    simp
  | cons a as ih =>
    rw [List.mapM_cons] at mapped
    cases here : f a with
    | error e =>
      rw [here] at mapped
      cases mapped
    | ok b' =>
      cases rest : as.mapM f with
      | error e =>
        rw [here, rest] at mapped
        cases mapped
      | ok bs' =>
        rw [here, rest] at mapped
        cases mapped
        rw [List.mem_cons, ih rest]
        constructor
        · rintro (rfl | ⟨a', mem, same⟩)
          · exact ⟨a, List.mem_cons_self, here⟩
          · exact ⟨a', List.mem_cons_of_mem a mem, same⟩
        · rintro ⟨a', mem, same⟩
          rcases List.mem_cons.mp mem with rfl | mem
          · rw [here] at same
            exact .inl (Except.ok.inj same).symm
          · exact .inr ⟨a', mem, same⟩

/-- References are resolved in order, and of several references to one module the first one counts. -/
theorem resolveFrom_eq_ok {base : Specifier} {references : List String}
    (before : List Specifier) {result : List Specifier}
    (resolved : resolveFrom base before.eraseDups references = .ok result) :
    ∃ found, references.mapM (Specifier.resolve · base) = .ok found ∧
      result = (before ++ found).eraseDups := by
  induction references generalizing before with
  | nil =>
    refine ⟨[], rfl, ?_⟩
    rw [List.append_nil]
    exact (Except.ok.inj resolved).symm
  | cons reference references ih =>
    rw [resolveFrom] at resolved
    cases here : Specifier.resolve reference base with
    | error e =>
      rw [here] at resolved
      cases resolved
    | ok s =>
      have grown : (if before.eraseDups.contains s then before.eraseDups
          else before.eraseDups ++ [s]) = (before ++ [s]).eraseDups := by
        rw [List.eraseDups_append, List.removeAll]
        by_cases met : s ∈ before
        · simp [met]
        · simp [met, List.eraseDups_cons]
      simp only [here, grown] at resolved
      obtain ⟨found, rest, rfl⟩ := ih _ resolved
      refine ⟨s :: found, ?_, ?_⟩
      · rw [List.mapM_cons, here]
        show (do return s :: (← references.mapM (Specifier.resolve · base))) = _
        rw [rest]
        rfl
      · rw [List.append_assoc, List.singleton_append]

/-- What a module imports is what its references lead to. -/
theorem importsOf_eq_ok {engine : Engine U V} {r : Record U} {imports : List Specifier}
    (resolved : importsOf engine r = .ok imports) :
    ∃ references found, engine.imports r.unit = .ok references ∧
      references.mapM (Specifier.resolve · r.specifier) = .ok found ∧
      imports = found.eraseDups := by
  unfold importsOf at resolved
  cases read : engine.imports r.unit with
  | error message =>
    rw [read] at resolved
    cases resolved
  | ok references =>
    rw [read] at resolved
    obtain ⟨found, mapped, same⟩ := resolveFrom_eq_ok [] resolved
    exact ⟨references, found, rfl, mapped, same⟩

theorem nodup_resolveFrom {base : Specifier} {references : List String} {found result : List Specifier}
    (unique : found.Nodup) (resolved : resolveFrom base found references = .ok result) :
    result.Nodup := by
  induction references generalizing found with
  | nil =>
    cases resolved
    exact unique
  | cons reference references ih =>
    rw [resolveFrom] at resolved
    cases here : Specifier.resolve reference base with
    | error e =>
      rw [here] at resolved
      cases resolved
    | ok s =>
      rw [here] at resolved
      refine ih ?_ resolved
      split
      case isTrue => exact unique
      case isFalse fresh =>
        refine List.nodup_append.mpr ⟨unique, List.nodup_cons.mpr ⟨List.not_mem_nil, List.nodup_nil⟩, ?_⟩
        intro t mem s' here same
        rw [List.mem_singleton.mp here] at same
        exact fresh (List.contains_iff_mem.mpr (same ▸ mem))

/-- No module is imported twice. -/
theorem nodup_of_importsOf {engine : Engine U V} {r : Record U} {imports : List Specifier}
    (resolved : importsOf engine r = .ok imports) : imports.Nodup := by
  unfold importsOf at resolved
  split at resolved
  · cases resolved
  · exact nodup_resolveFrom List.nodup_nil resolved

/-- What a module imports is in the written form of a specifier, if that of the module is. -/
theorem isWritten_of_importsOf {engine : Engine U V} {r : Record U} {imports : List Specifier}
    (written : r.specifier.IsWritten) (resolved : importsOf engine r = .ok imports) {s : Specifier}
    (mem : s ∈ imports) : s.IsWritten := by
  obtain ⟨references, found, -, mapped, rfl⟩ := importsOf_eq_ok resolved
  obtain ⟨reference, -, leads⟩ := (mem_of_mapM_eq_ok mapped).mp (List.mem_eraseDups.mp mem)
  exact Specifier.isWritten_of_resolve written leads

end ModuleLinker.Link
