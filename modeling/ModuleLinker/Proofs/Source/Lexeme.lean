import Mathlib.Data.List.Basic
import ModuleLinker.Source.Lexeme

/-!
# Where template literals and their substitutions lie

A template literal ends within the text, and each of its substitutions is a piece of that text that
lies between the marks of the literal.
-/

set_option autoImplicit false

namespace ModuleLinker

/-- Two steps succeed together when the second does on what the first gives. -/
theorem bind_eq_ok {ε α β : Type} {x : Except ε α} {f : α → Except ε β} {b : β} :
    (x >>= f) = .ok b ↔ ∃ a, x = .ok a ∧ f a = .ok b := by
  cases x with
  | error e => exact ⟨fun same => (by cases same), fun ⟨_, same, _⟩ => (by cases same)⟩
  | ok a => exact ⟨fun same => ⟨a, rfl, same⟩, fun ⟨_, same, rest⟩ => by cases same; exact rest⟩

/-- The offset right after the text of a substitution. -/
def Hole.stop (h : Hole) : Nat := h.start + h.text.length

namespace Lexeme

/-- Whether a substitution is a piece, before the offset `stop`, of the text `cs` that lies at the
offset `pos`. -/
structure LiesIn (pos stop : Nat) (cs : List Char) (h : Hole) : Prop where
  /-- It starts after the offset. -/
  after : pos < h.start
  /-- It is closed before the other offset. -/
  before : h.stop < stop
  /-- Its text stands there. -/
  piece : h.text <+: cs.drop (h.start - pos)

/-- What lies in the rest of a text lies in the text. -/
theorem LiesIn.of_drop {pos stop n : Nat} {cs : List Char} {h : Hole}
    (lies : LiesIn (pos + n) stop (cs.drop n) h) : LiesIn pos stop cs h := by
  obtain ⟨after, before, piece⟩ := lies
  refine ⟨by omega, before, ?_⟩
  have place : h.start - pos = n + (h.start - (pos + n)) := by omega
  rwa [place, ← List.drop_drop]

mutual

/-- A template literal ends in the text, and so do the substitutions that it adds. -/
theorem template_spec {start pos : Nat} {holes holes' : List Hole} {cs : List Char} {stop : Nat}
    (done : template start pos holes cs = .ok (stop, holes')) :
    pos < stop ∧ stop ≤ pos + cs.length ∧
      ∃ new, holes' = holes.reverse ++ new ∧ ∀ h ∈ new, LiesIn pos stop cs h := by
  cases cs with
  | nil =>
    rw [template] at done
    cases done
  | cons c cs =>
    have further {n : Nat} {more : List Hole} (ends : template start (pos + (n + 1)) more (cs.drop n) =
        .ok (stop, holes')) : pos + (n + 1) < stop ∧ stop ≤ pos + (cs.length + 1) ∧
          ∃ new, holes' = more.reverse ++ new ∧ ∀ h ∈ new, LiesIn pos stop (c :: cs) h := by
      obtain ⟨less, le, new, same, lie⟩ := template_spec ends
      rw [List.length_drop] at le
      refine ⟨less, by omega, new, same, fun h mem => ?_⟩
      have lies : LiesIn (pos + (n + 1)) stop ((c :: cs).drop (n + 1)) h := lie h mem
      exact lies.of_drop
    rw [template] at done
    split at done
    · cases done
      exact ⟨by omega, by simp, [], by simp, by simp⟩
    split at done
    · obtain ⟨less, le, grown⟩ := further (n := 1) done
      exact ⟨by omega, le, grown⟩
    split at done
    · obtain ⟨close, closes, done⟩ := bind_eq_ok.mp done
      have ⟨le, less⟩ := substitution_spec closes
      rw [List.length_drop] at less
      have place : close + 1 = pos + (close - pos + 1) := by omega
      have size : 1 + (close - (pos + 2) + 1) = close - pos := by omega
      dsimp only at done
      rw [List.drop_drop, size, place] at done
      obtain ⟨past, inside, new, same, lie⟩ := further done
      refine ⟨by omega, inside, ⟨pos + 2, (cs.drop 1).take (close - (pos + 2))⟩ :: new, ?_, ?_⟩
      · rw [same, List.reverse_cons, List.append_assoc, List.singleton_append]
      · rw [List.forall_mem_cons]
        refine ⟨⟨?_, ?_, ?_⟩, lie⟩
        · change pos < pos + 2
          omega
        · rw [Hole.stop, List.length_take]
          change pos + 2 + _ < stop
          omega
        · change _ <+: (c :: cs).drop (pos + 2 - pos)
          rw [Nat.add_sub_cancel_left, List.drop_succ_cons]
          exact List.take_prefix ..
    · obtain ⟨less, le, grown⟩ := further (n := 0) done
      exact ⟨by omega, le, grown⟩
termination_by cs.length

/-- A substitution is closed in the text. -/
theorem substitution_spec {start pos depth close : Nat} {cs : List Char}
    (done : substitution start pos depth cs = .ok close) :
    pos ≤ close ∧ close < pos + cs.length := by
  cases cs with
  | nil =>
    rw [substitution] at done
    cases done
  | cons c cs =>
    have further {n depth : Nat} (closes : substitution start (pos + 1 + n) depth (cs.drop n) =
        .ok close) : pos ≤ close ∧ close < pos + (c :: cs).length := by
      have ⟨le, less⟩ := substitution_spec closes
      rw [List.length_drop] at less
      rw [List.length_cons]
      omega
    unfold substitution at done
    dsimp only at done
    split at done
    · exact further (n := 0) done
    split at done
    · cases depth with
      | zero =>
        cases done
        simp
      | succ outer => exact further (n := 0) done
    split at done
    · split at done
      · cases done
      · exact further done
    split at done
    · obtain ⟨⟨stop, holes⟩, ends, done⟩ := bind_eq_ok.mp done
      have ⟨less, le, _⟩ := template_spec ends
      have place : stop = pos + 1 + (stop - (pos + 1)) := by omega
      dsimp only at done
      rw [place, Nat.add_sub_cancel_left] at done
      exact further done
    split at done
    · exact further done
    split at done
    · exact further done
    · exact further (n := 0) done
termination_by cs.length

end

end Lexeme

end ModuleLinker
