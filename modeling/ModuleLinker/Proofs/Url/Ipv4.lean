import Mathlib
import ModuleLinker.Proofs.Text.Digits
import ModuleLinker.Proofs.Text.Split
import ModuleLinker.Url.Ipv4

/-!
# IPv4 addresses are read back

The written form of an address has four numbers, and reading it gives the address again. The value of
an address that has been read fits into four bytes, so that nothing of it is lost in writing.
-/

set_option autoImplicit false

namespace ModuleLinker.Url.Ipv4

open Text

/-- The numbers of an address, each at its place. -/
def byteAt (value place : Nat) : Nat := value / 256 ^ place % 256

theorem byteAt_lt (value place : Nat) : byteAt value place < 256 := Nat.mod_lt _ (by decide)

/-- The number of a byte is read back. -/
theorem number?_toDigits {n : Nat} (small : n < 256) : number? (Nat.toDigits 10 n) = some n := by
  have all : ∀ n, n < 256 → number? (Nat.toDigits 10 n) = some n := by decide +kernel
  exact all n small

theorem text_eq (value : Nat) : text value =
    Nat.toDigits 10 (byteAt value 3) ++ '.' :: (Nat.toDigits 10 (byteAt value 2) ++
      '.' :: (Nat.toDigits 10 (byteAt value 1) ++ '.' :: Nat.toDigits 10 (byteAt value 0))) := by
  unfold text byteAt
  simp [String.intercalate_cons_cons]

/-- The labels of an address in its written form are its numbers. -/
theorem labels_text (value : Nat) : labels (text value) =
    [byteAt value 3, byteAt value 2, byteAt value 1, byteAt value 0].map (Nat.toDigits 10) := by
  have piece (n : Nat) : splitAt '.' (Nat.toDigits 10 n) = [Nat.toDigits 10 n] := by
    apply splitAt_of_not_mem
    intro mem
    cases Nat.isDigit_of_mem_toDigits (by decide) (by decide) mem
  have all : splitAt '.' (text value) =
      [byteAt value 3, byteAt value 2, byteAt value 1, byteAt value 0].map (Nat.toDigits 10) := by
    rw [text_eq, splitAt_append_cons, splitAt_append_cons, splitAt_append_cons, piece, piece, piece,
      piece]
    rfl
  unfold labels
  rw [all]
  simp

theorem endsInNumber_text (value : Nat) : endsInNumber (text value) = true := by
  unfold endsInNumber
  rw [labels_text]
  simp [number?_toDigits (byteAt_lt value 0)]

/-- A value that fits into four bytes is put together from them. -/
theorem value?_bytes {value : Nat} (small : value < 256 ^ 4) :
    value? [byteAt value 3, byteAt value 2, byteAt value 1, byteAt value 0] = some value := by
  have le (place : Nat) := byteAt_lt value place
  have whole : ((256 * (256 * byteAt value 3 + byteAt value 2) + byteAt value 1) * 256 +
      byteAt value 0) = value := by
    unfold byteAt
    omega
  unfold value?
  simp [le, whole]

/-- The written form of an address is read back. -/
theorem read_text {value : Nat} (small : value < 256 ^ 4) : read (text value) = .ok (text value) := by
  have numbers : (labels (text value)).mapM number? =
      some [byteAt value 3, byteAt value 2, byteAt value 1, byteAt value 0] := by
    rw [labels_text]
    simp [number?_toDigits (byteAt_lt value _)]
  rw [read, numbers, Option.bind_some, value?_bytes small]

/-- Bytes one after another make up a number with as many places. -/
theorem foldl_lt {numbers : List Nat} (small : ∀ n ∈ numbers, n < 256) (front : Nat) :
    numbers.foldl (fun value n => 256 * value + n) front < (front + 1) * 256 ^ numbers.length := by
  induction numbers generalizing front with
  | nil => simp
  | cons n numbers ih =>
    rw [List.forall_mem_cons] at small
    have more := ih small.2 (256 * front + n)
    have le : 256 * front + n + 1 ≤ (front + 1) * 256 := by omega
    calc (n :: numbers).foldl (fun value n => 256 * value + n) front
        < (256 * front + n + 1) * 256 ^ numbers.length := more
      _ ≤ (front + 1) * 256 * 256 ^ numbers.length := Nat.mul_le_mul_right _ le
      _ = (front + 1) * 256 ^ (n :: numbers).length := by
        rw [List.length_cons, Nat.pow_succ', Nat.mul_assoc]

/-- The value of an address fits into four bytes. -/
theorem value?_lt {numbers : List Nat} {value : Nat} (found : value? numbers = some value) :
    value < 256 ^ 4 := by
  unfold value? at found
  split at found
  case h_1 => cases found
  case h_2 last others turned =>
    dsimp only at found
    split at found
    case isFalse => cases found
    case isTrue fits =>
      cases found
      simp only [Bool.and_eq_true, decide_eq_true_eq, List.all_eq_true] at fits
      obtain ⟨⟨four, less⟩, small⟩ := fits
      have length : numbers.length = others.length + 1 := by
        rw [← List.length_reverse, turned, List.length_cons]
      have below : ∀ n ∈ others.reverse, n < 256 := by simpa using small
      have front := foldl_lt below 0
      rw [Nat.zero_add, Nat.one_mul, List.length_reverse] at front
      have whole : Nat.pow 256 others.length * Nat.pow 256 (5 - numbers.length) = 256 ^ 4 := by
        change 256 ^ others.length * 256 ^ (5 - numbers.length) = 256 ^ 4
        rw [← Nat.pow_add]
        congr 1
        omega
      rw [← whole]
      calc _ < others.reverse.foldl (fun value n => 256 * value + n) 0 *
            Nat.pow 256 (5 - numbers.length) + Nat.pow 256 (5 - numbers.length) :=
          Nat.add_lt_add_left less _
        _ = (others.reverse.foldl (fun value n => 256 * value + n) 0 + 1) *
            Nat.pow 256 (5 - numbers.length) := (Nat.succ_mul _ _).symm
        _ ≤ _ := Nat.mul_le_mul_right _ front

/-- An address that has been read is read back. -/
theorem read_of_read {host name : List Char} (done : read host = .ok name) :
    ∃ value < 256 ^ 4, name = text value := by
  unfold read at done
  split at done
  case h_1 value found =>
    cases done
    obtain ⟨numbers, -, found⟩ := Option.bind_eq_some_iff.mp found
    exact ⟨value, value?_lt found, rfl⟩
  case h_2 => cases done

end ModuleLinker.Url.Ipv4
