import ModuleLinker.Text.Utf8

/-!
# Bytes of a text

A text is read back from its bytes, and its characters of ASCII are those of its bytes of ASCII.
-/

set_option autoImplicit false

namespace ModuleLinker.Text

/-- A text has the bytes that a string of it has. -/
theorem toByteArray_bytesOf (cs : List Char) :
    ByteArray.mk (bytesOf cs).toArray = cs.utf8Encode := by
  apply ByteArray.ext
  rw [List.utf8Encode, List.data_toByteArray]
  rfl

/-- A text is read back from its bytes. -/
theorem ofBytes?_bytesOf (cs : List Char) : ofBytes? (bytesOf cs) = some cs := by
  rw [ofBytes?, toByteArray_bytesOf, List.utf8Decode?_utf8Encode]
  rfl

/-- Bytes that are read as a text are those of it. -/
theorem bytesOf_of_ofBytes? {bytes : List UInt8} {cs : List Char} (read : ofBytes? bytes = some cs) :
    bytes = bytesOf cs := by
  obtain ⟨chars, decoded, rfl⟩ := Option.map_eq_some_iff.mp read
  have valid : (ByteArray.mk bytes.toArray).utf8Decode?.isSome := Option.isSome_of_eq_some decoded
  have same := ByteArray.utf8Encode_get_utf8Decode? (h := valid)
  simp only [decoded, Option.get_some] at same
  rw [← toByteArray_bytesOf] at same
  exact (Array.mk.inj (congrArg ByteArray.data same)).symm

/-- Texts are told apart by their bytes. -/
theorem bytesOf_injective {cs ds : List Char} (same : bytesOf cs = bytesOf ds) : cs = ds := by
  have texts := congrArg ofBytes? same
  rw [ofBytes?_bytesOf, ofBytes?_bytesOf] at texts
  exact Option.some.inj texts

/-! ## Bytes of a character -/

theorem utf8EncodeChar_of_lt {c : Char} (small : c.toNat < 128) :
    String.utf8EncodeChar c = [UInt8.ofNat c.toNat] := by
  unfold String.utf8EncodeChar
  exact if_pos (Nat.le_of_lt_succ small)

/-- Only a character of ASCII has a byte of ASCII. -/
theorem le_of_mem_utf8EncodeChar {c : Char} (large : 128 ≤ c.toNat) {b : UInt8}
    (mem : b ∈ String.utf8EncodeChar c) : 128 ≤ b.toNat := by
  have value (n : Nat) : (UInt8.ofNat n).toNat = n % 256 := UInt8.toNat_ofNat'
  unfold String.utf8EncodeChar at mem
  dsimp only at mem
  split at mem
  case isTrue small => exact absurd large (Nat.not_le.mpr (Nat.lt_succ_of_le small))
  case isFalse =>
    split at mem
    · rcases List.mem_cons.mp mem with rfl | mem
      · rw [value]
        omega
      · obtain rfl := List.mem_singleton.mp mem
        rw [value]
        omega
    · split at mem <;> simp only [List.mem_cons, List.not_mem_nil, or_false] at mem
      · rcases mem with rfl | rfl | rfl <;> rw [value] <;> omega
      · rcases mem with rfl | rfl | rfl | rfl <;> rw [value] <;> omega

/-- A byte is the code of a character. -/
theorem toNat_ofNat_byte (b : UInt8) : (Char.ofNat b.toNat).toNat = b.toNat := by
  have valid : b.toNat.isValidChar := .inl (Nat.lt_trans b.toNat_lt (by decide))
  rw [Char.ofNat, dif_pos valid]
  rfl

/-- A character of ASCII is that of its byte. -/
theorem ofNat_byte {c : Char} (small : c.toNat < 128) :
    Char.ofNat (UInt8.ofNat c.toNat).toNat = c := by
  rw [UInt8.toNat_ofNat', Nat.mod_eq_of_lt (by omega), Char.ofNat_toNat]

theorem bytesOf_concat {c : Char} (small : c.toNat < 128) (cs : List Char) :
    bytesOf (cs ++ [c]) = bytesOf cs ++ [UInt8.ofNat c.toNat] := by
  rw [bytesOf, List.flatMap_append, List.flatMap_singleton, utf8EncodeChar_of_lt small]
  rfl

/-- A byte of ASCII at the end is a character. -/
theorem exists_of_bytesOf_concat {cs : List Char} {bytes : List UInt8} {b : UInt8} (small : b.toNat < 128)
    (same : bytesOf cs = bytes ++ [b]) :
    ∃ front, cs = front ++ [Char.ofNat b.toNat] ∧ bytesOf front = bytes := by
  rcases List.eq_nil_or_concat cs with rfl | ⟨front, c, rfl⟩
  · simp [bytesOf] at same
  · rw [List.concat_eq_append] at same ⊢
    rcases Nat.lt_or_ge c.toNat 128 with ascii | large
    · rw [bytesOf_concat ascii] at same
      obtain ⟨rest, last⟩ := List.append_inj' same rfl
      rw [← List.singleton_inj.mp last, ofNat_byte ascii]
      exact ⟨front, rfl, rest⟩
    · have last : b ∈ String.utf8EncodeChar c := by
        have ends := congrArg List.getLast? same
        rw [bytesOf, List.flatMap_append, List.flatMap_singleton, List.getLast?_concat,
          List.getLast?_append, List.getLast?_eq_some_getLast String.utf8EncodeChar_ne_nil,
          Option.some_or, Option.some_inj] at ends
        exact ends ▸ List.getLast_mem String.utf8EncodeChar_ne_nil
      have far := le_of_mem_utf8EncodeChar large last
      omega

end ModuleLinker.Text
