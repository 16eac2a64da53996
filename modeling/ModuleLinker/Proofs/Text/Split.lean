import Mathlib.Data.List.TakeWhile
import ModuleLinker.Text.Search

/-!
# Cutting and splitting texts

A text is cut in one way at the first place where a character stands, and the pieces of a text between
all such places are the pieces of its parts.
-/

set_option autoImplicit false

namespace ModuleLinker.Text

variable {c : Char}

/-- A text is cut in one way at the first place where a character stands. -/
theorem append_cons_inj {a a' b b' : List Char} (ha : c ∉ a) (ha' : c ∉ a')
    (same : a ++ c :: b = a' ++ c :: b') : a = a' ∧ b = b' := by
  have first (a b : List Char) (ha : c ∉ a) :
      (a ++ c :: b).takeWhile (· != c) = a ∧ (a ++ c :: b).dropWhile (· != c) = c :: b := by
    have all : ∀ x ∈ a, (x != c) = true := by
      intro x mem
      rw [bne_iff_ne]
      rintro rfl
      exact ha mem
    constructor
    · rw [List.takeWhile_append_of_pos all]
      simp
    · rw [List.dropWhile_append_of_pos all]
      simp
  have heads := (first a b ha).1.symm.trans ((congrArg _ same).trans (first a' b' ha').1)
  have tails := (first a b ha).2.symm.trans ((congrArg _ same).trans (first a' b' ha').2)
  exact ⟨heads, (List.cons.inj tails).2⟩

theorem splitAt_ne_nil (cs : List Char) : splitAt c cs ≠ [] := by
  cases cs with
  | nil => exact List.cons_ne_nil _ _
  | cons x cs =>
    rw [splitAt]
    split
    · exact List.cons_ne_nil _ _
    · split <;> exact List.cons_ne_nil _ _

/-- A text without the character is one piece. -/
theorem splitAt_of_not_mem {cs : List Char} (h : c ∉ cs) : splitAt c cs = [cs] := by
  induction cs with
  | nil => rfl
  | cons x cs ih =>
    rw [List.mem_cons, not_or] at h
    rw [splitAt, if_neg (Ne.symm h.1), ih h.2]

/-- The pieces of two texts with the character between them are the pieces of both. -/
theorem splitAt_append_cons (a b : List Char) :
    splitAt c (a ++ c :: b) = splitAt c a ++ splitAt c b := by
  induction a with
  | nil => simp [splitAt]
  | cons x a ih =>
    rw [List.cons_append, splitAt, splitAt]
    by_cases here : x = c
    · rw [if_pos here, if_pos here, ih, List.cons_append]
    · rw [if_neg here, if_neg here, ih]
      cases pieces : splitAt c a with
      | nil => exact absurd pieces (splitAt_ne_nil a)
      | cons piece pieces => rfl

/-- No piece has the character in it. -/
theorem not_mem_of_mem_splitAt {cs piece : List Char} (mem : piece ∈ splitAt c cs) : c ∉ piece := by
  induction cs generalizing piece with
  | nil =>
    rw [List.mem_singleton.mp mem]
    exact List.not_mem_nil
  | cons x cs ih =>
    rw [splitAt] at mem
    split at mem
    case isTrue =>
      rcases List.mem_cons.mp mem with rfl | mem
      · exact List.not_mem_nil
      · exact ih mem
    case isFalse other =>
      cases pieces : splitAt c cs with
      | nil => exact absurd pieces (splitAt_ne_nil cs)
      | cons first pieces' =>
        rw [pieces] at mem ih
        rcases List.mem_cons.mp mem with rfl | mem
        · rw [List.mem_cons, not_or]
          exact ⟨Ne.symm other, ih List.mem_cons_self⟩
        · exact ih (List.mem_cons_of_mem first mem)

end ModuleLinker.Text
