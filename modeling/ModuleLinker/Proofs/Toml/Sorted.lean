import Mathlib.Data.List.Basic
import ModuleLinker.Toml.Read

/-!
# The order of the entries of a settings file

The entries that are read from a settings file are in the order of their keys, and no key is given twice
(`Toml.isSorted_of_read?`). So are those of the tables below them while they are put together: a new entry
is placed in its order, and more entries of a table that is there leave its key where it is.
-/

set_option autoImplicit false

namespace ModuleLinker.Toml

/-- Entries in the order of their keys, without a key twice. -/
def IsSorted (entries : List (String × Value)) : Prop := entries.Pairwise fun a b => a.1 < b.1

variable {key : String} {value : Value} {entries entries' : List (String × Value)}

theorem mem_place {entry : String × Value} :
    entry ∈ place key value entries ↔ entry = (key, value) ∨ entry ∈ entries := by
  induction entries with
  | nil => simp [place]
  | cons first entries ih =>
    rw [place]
    split
    · simp
    · rw [List.mem_cons, ih, List.mem_cons]
      tauto

/-- An entry with a new key is placed in its order. -/
theorem IsSorted.place (sorted : IsSorted entries) (fresh : ∀ entry ∈ entries, entry.1 ≠ key) :
    IsSorted (Toml.place key value entries) := by
  induction entries with
  | nil => exact List.pairwise_singleton _ _
  | cons first entries ih =>
    obtain ⟨before, sorted⟩ := List.pairwise_cons.mp sorted
    rw [Toml.place]
    split
    case isTrue less =>
      refine List.pairwise_cons.mpr ⟨fun entry mem => ?_, List.pairwise_cons.mpr ⟨before, sorted⟩⟩
      rcases List.mem_cons.mp mem with rfl | mem
      · exact less
      · exact String.lt_trans less (before entry mem)
    case isFalse notLess =>
      have rest := ih sorted fun entry mem => fresh entry (List.mem_cons_of_mem first mem)
      refine List.pairwise_cons.mpr ⟨fun entry mem => ?_, rest⟩
      rcases mem_place.mp mem with rfl | mem
      · by_contra notLess'
        have same := String.le_antisymm (String.not_lt.mp notLess) (String.not_lt.mp notLess')
        exact fresh first List.mem_cons_self same
      · exact before entry mem

/-- Entries stay in order while their values change. -/
theorem IsSorted.of_keys (sorted : IsSorted entries)
    (keys : entries'.map (·.1) = entries.map (·.1)) : IsSorted entries' := by
  unfold IsSorted at *
  rw [← List.pairwise_map (f := Prod.fst) (R := fun a b => a < b)] at *
  rw [keys]
  exact sorted

theorem IsSorted.insertKey? (sorted : IsSorted entries) {path : List String}
    (inserted : Toml.insertKey? path value entries = some entries') : IsSorted entries' := by
  match path with
  | [] => cases inserted
  | [key] =>
    rw [Toml.insertKey?] at inserted
    split at inserted
    case isTrue => cases inserted
    case isFalse fresh =>
      cases inserted
      refine sorted.place fun entry mem same => fresh ?_
      exact List.any_eq_true.mpr ⟨entry, mem, beq_iff_eq.mpr same⟩
  | key :: next :: more =>
    rw [Toml.insertKey?.eq_3 _ _ _ _ (by simp)] at inserted
    -- What the rest of the path leads to goes into a new table, or into the one that is there.
    split at inserted
    case h_1 none =>
      obtain ⟨inner, -, rfl⟩ := Option.map_eq_some_iff.mp inserted
      exact sorted.place fun entry mem same =>
        List.find?_eq_none.mp none entry mem (beq_iff_eq.mpr same)
    case h_2 =>
      obtain ⟨inner, -, rfl⟩ := Option.map_eq_some_iff.mp inserted
      refine sorted.of_keys ?_
      rw [List.map_map]
      refine List.map_congr_left fun entry _ => ?_
      by_cases same : entry.1 = key <;> simp [same]
    case h_3 => cases inserted

/-- The entries are in order after each line. -/
theorem isSorted_readLines (fuel : Nat) {d d' : Document} {cs : List Char} (sorted : IsSorted d.entries)
    (read : readLines fuel d cs = some d') : IsSorted d'.entries := by
  -- Only the header of a table and an entry insert something.
  induction fuel generalizing d cs with
  | zero => cases read
  | succ fuel ih =>
    rw [readLines] at read
    split at read
    case h_1 => cases read; exact sorted
    case h_2 =>
      split at read
      case h_1 path rest _ =>
        split at read
        case isTrue => cases read
        case isFalse =>
          split at read
          case isTrue => cases read
          case isFalse =>
            dsimp only at read
            split at read
            case h_1 opened _ =>
              refine ih ?_ read
              split at opened
              · cases opened
                exact sorted
              · exact sorted.insertKey? opened
            case h_2 => cases read
      case h_2 => cases read
    case h_3 =>
      split at read
      case h_1 =>
        split at read
        case h_1 => cases read
        case h_2 =>
          split at read
          case h_1 inserted _ => exact ih (sorted.insertKey? inserted) read
          case h_2 => cases read
      case h_2 => cases read

/-- The entries of a settings file are in the order of their keys. -/
theorem isSorted_of_read? {text : String} (read : read? text = some entries) : IsSorted entries := by
  unfold read? at read
  obtain ⟨d, lines, rfl⟩ := Option.map_eq_some_iff.mp read
  exact isSorted_readLines _ (d := ⟨[], [], []⟩) List.Pairwise.nil lines

end ModuleLinker.Toml
