/-!
# Digits of numbers

How numbers are written, and that they are told apart by how they are written.
-/

set_option autoImplicit false

namespace ModuleLinker.Text

theorem toList_toString (n : Nat) : (toString n).toList = Nat.toDigits 10 n :=
  String.toList_ofList

theorem isDigit_of_mem_toString {n : Nat} {c : Char} (mem : c ∈ (toString n).toList) :
    c.isDigit = true := by
  rw [toList_toString] at mem
  exact Nat.isDigit_of_mem_toDigits (by decide) (by decide) mem

/-- Numbers are told apart by how they are written. -/
theorem toString_injective {n n' : Nat} (same : (toString n).toList = (toString n').toList) :
    n = n' := by
  have value (n : Nat) : Nat.ofDigitChars 10 (toString n).toList 0 = n := by
    rw [toList_toString]
    exact Nat.ofDigitChars_toDigits (by decide) (by decide)
  rw [← value n, same, value n']

/-- The digits of a number are digits of its base. -/
theorem mem_toDigits {b n : Nat} (two : 1 < b) {c : Char} (mem : c ∈ Nat.toDigits b n) :
    ∃ d < b, c = Nat.digitChar d := by
  induction n using Nat.strongRecOn with
  | _ n ih =>
    rw [Nat.toDigits_eq_if two] at mem
    split at mem
    case isTrue small => exact ⟨n, small, List.mem_singleton.mp mem⟩
    case isFalse large =>
      rcases List.mem_append.mp mem with mem | mem
      · exact ih _ (Nat.div_lt_self (by omega) two) mem
      · exact ⟨_, Nat.mod_lt _ (by omega), List.mem_singleton.mp mem⟩

end ModuleLinker.Text
