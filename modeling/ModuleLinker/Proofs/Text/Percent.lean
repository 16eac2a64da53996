import ModuleLinker.Proofs.Text.Utf8
import ModuleLinker.Text.Percent

/-!
# Percent encoding

What stands in an encoded text, and that an encoded text is read back: the bytes of an encoded text
are those of the text, as long as the percent sign itself is escaped and what stands for itself is a
character of one byte. Other texts are read as the same bytes; the one that encoding gives can be told
from how it is written (`isEncoded_iff`).
-/

set_option autoImplicit false

namespace ModuleLinker.Text

/-- A character of an encoded text is one of the text or one of an escape. -/
theorem mem_or_mem_escape {plain : Char → Bool} {cs : List Char} {c : Char}
    (mem : c ∈ percentEncode plain cs) :
    (c ∈ cs ∧ plain c = true) ∨ c ∈ "%0123456789ABCDEF".toList := by
  have digits : ∀ n, n < 16 → hexDigit n ∈ "%0123456789ABCDEF".toList := by decide
  obtain ⟨x, here, mem⟩ := List.mem_flatMap.mp mem
  split at mem
  case isTrue h =>
    rw [List.mem_singleton.mp mem]
    exact .inl ⟨here, h⟩
  case isFalse =>
    obtain ⟨b, -, mem⟩ := List.mem_flatMap.mp mem
    have small := b.toNat_lt
    simp only [escapeByte, List.mem_cons, List.not_mem_nil, or_false] at mem
    rcases mem with rfl | rfl | rfl
    · exact .inr (by decide)
    · exact .inr (digits _ (by omega))
    · exact .inr (digits _ (by omega))

/-- The characters of escapes are a percent sign and hexadecimal digits. -/
theorem mem_percentEncode {plain : Char → Bool} {cs : List Char} {c : Char}
    (mem : c ∈ percentEncode plain cs) :
    plain c = true ∨ c ∈ "%0123456789ABCDEF".toList :=
  (mem_or_mem_escape mem).imp_left And.right

theorem not_mem_percentEncode {plain : Char → Bool} {c : Char} (cs : List Char)
    (escaped : plain c = false) (other : c ∉ "%0123456789ABCDEF".toList) :
    c ∉ percentEncode plain cs := by
  intro mem
  rcases mem_percentEncode mem with same | mem
  · rw [escaped] at same
    cases same
  · exact other mem

/-- A text of characters that stand for themselves is its own encoded text. -/
theorem percentEncode_of_forall {plain : Char → Bool} {cs : List Char}
    (all : ∀ c ∈ cs, plain c = true) : percentEncode plain cs = cs := by
  induction cs with
  | nil => rfl
  | cons c cs ih =>
    rw [List.forall_mem_cons] at all
    rw [percentEncode, List.flatMap_cons, if_pos all.1, List.singleton_append]
    exact congrArg _ (ih all.2)

/-- Where what escapes are made of stands for itself, all that an encoded text holds does. -/
theorem plain_of_mem_percentEncode {plain : Char → Bool}
    (escapes : "%0123456789ABCDEF".toList.all plain = true) {cs : List Char} {c : Char}
    (mem : c ∈ percentEncode plain cs) : plain c = true :=
  (mem_percentEncode mem).elim id (List.all_eq_true.mp escapes c)

/-- Nothing is left out of an encoded text. -/
theorem isEmpty_percentEncode (plain : Char → Bool) (cs : List Char) :
    (percentEncode plain cs).isEmpty = cs.isEmpty := by
  cases cs with
  | nil => rfl
  | cons c cs =>
    have bytes : String.utf8EncodeChar c ≠ [] := by
      apply List.ne_nil_of_length_pos
      rw [String.length_utf8EncodeChar]
      exact c.utf8Size_pos
    obtain ⟨b, more, some⟩ := List.exists_cons_of_ne_nil bytes
    rw [percentEncode, List.flatMap_cons]
    split
    · rfl
    · rw [escapeChar, some]
      rfl

/-! ## Reading back -/

theorem hexValue?_hexDigit {n : Nat} (small : n < 16) : hexValue? (hexDigit n) = some n := by
  have all : ∀ n, n < 16 → hexValue? (hexDigit n) = some n := by decide
  exact all n small

theorem percentDecode_escapeByte (b : UInt8) (cs : List Char) :
    percentDecode (escapeByte b ++ cs) = b :: percentDecode cs := by
  have small := b.toNat_lt
  have value : 16 * (b.toNat / 16) + b.toNat % 16 = b.toNat := Nat.div_add_mod _ _
  rw [escapeByte, List.cons_append, List.cons_append, List.cons_append, List.nil_append,
    percentDecode, hexValue?_hexDigit (by omega), hexValue?_hexDigit (by omega)]
  dsimp only
  rw [value, UInt8.ofNat_toNat]

theorem percentDecode_escapeBytes (bytes : List UInt8) (cs : List Char) :
    percentDecode (bytes.flatMap escapeByte ++ cs) = bytes ++ percentDecode cs := by
  induction bytes with
  | nil => rfl
  | cons b bytes ih =>
    rw [List.flatMap_cons, List.append_assoc, percentDecode_escapeByte, ih, List.cons_append]

theorem percentDecode_cons {c : Char} (other : c ≠ '%') (cs : List Char) :
    percentDecode (c :: cs) = String.utf8EncodeChar c ++ percentDecode cs := by
  rw [percentDecode]
  intro _ _ _ same
  exact absurd same other

/-- A text without percent signs has no escapes. -/
theorem percentDecode_of_not_mem {cs : List Char} (none : '%' ∉ cs) :
    percentDecode cs = bytesOf cs := by
  induction cs with
  | nil => rfl
  | cons c cs ih =>
    rw [List.mem_cons, not_or] at none
    rw [percentDecode_cons (Ne.symm none.1), ih none.2]
    rfl

/-- The bytes of an encoded text are those of the text. -/
theorem percentDecode_percentEncode {plain : Char → Bool} (escaped : plain '%' = false)
    (cs : List Char) : percentDecode (percentEncode plain cs) = bytesOf cs := by
  induction cs with
  | nil => rfl
  | cons c cs ih =>
    rw [percentEncode, bytesOf, List.flatMap_cons, List.flatMap_cons]
    by_cases h : plain c = true
    · have other : c ≠ '%' := by
        rintro rfl
        rw [escaped] at h
        cases h
      rw [if_pos h, List.singleton_append, percentDecode_cons other]
      exact congrArg _ ih
    · rw [if_neg h, escapeChar, percentDecode_escapeBytes]
      exact congrArg _ ih

/-- Texts are told apart by their encoded texts. -/
theorem percentEncode_injective {plain : Char → Bool} (escaped : plain '%' = false)
    {cs ds : List Char} (same : percentEncode plain cs = percentEncode plain ds) : cs = ds := by
  have bytes := congrArg percentDecode same
  rw [percentDecode_percentEncode escaped, percentDecode_percentEncode escaped] at bytes
  exact bytesOf_injective bytes

/-! ## Texts that encoding gives -/

/-- A byte as encoding writes it. -/
def encodeByte (plain : Char → Bool) (b : UInt8) : List Char :=
  if plain (Char.ofNat b.toNat) then [Char.ofNat b.toNat] else escapeByte b

/-- Whether a text is one that encoding gives: its characters stand for themselves or make up escapes in
capital digits, each of a byte that does not stand for itself. -/
def isEncoded (plain : Char → Bool) : List Char → Bool
  | '%' :: a :: b :: cs =>
    match hexValue? a, hexValue? b with
    | some high, some low =>
      a == hexDigit high && b == hexDigit low && !plain (Char.ofNat (16 * high + low)) &&
        isEncoded plain cs
    | _, _ => false
  | c :: cs => plain c && isEncoded plain cs
  | [] => true

theorem hexValue?_lt {c : Char} {n : Nat} (value : hexValue? c = some n) : n < 16 := by
  unfold hexValue? at value
  have code (c d : Char) : (c ≤ d) = (c.toNat ≤ d.toNat) := by
    rw [Char.le_def, UInt32.le_iff_toNat_le]
    rfl
  split at value
  · rename_i digit
    simp only [Char.isDigit, Bool.and_eq_true, decide_eq_true_eq, UInt32.le_iff_toNat_le] at digit
    have toNat : c.toNat = c.val.toNat := rfl
    have nine : '9'.val.toNat = 57 := rfl
    cases value
    omega
  · split at value
    · rename_i letter
      simp only [Bool.and_eq_true, decide_eq_true_eq, code] at letter
      have bounds : 'A'.toNat = 65 ∧ 'F'.toNat = 70 := by decide
      cases value
      omega
    · split at value
      · rename_i letter
        simp only [Bool.and_eq_true, decide_eq_true_eq, code] at letter
        have bounds : 'a'.toNat = 97 ∧ 'f'.toNat = 102 := by decide
        cases value
        omega
      · cases value

theorem encodeByte_of_plain {plain : Char → Bool} (ascii : ∀ c, plain c = true → c.toNat < 128)
    {c : Char} (h : plain c = true) :
    String.utf8EncodeChar c = [UInt8.ofNat c.toNat] ∧ encodeByte plain (UInt8.ofNat c.toNat) = [c] := by
  refine ⟨utf8EncodeChar_of_lt (ascii c h), ?_⟩
  rw [encodeByte, ofNat_byte (ascii c h), if_pos h]

/-- The bytes of a character that does not stand for itself do not do so either. -/
theorem encodeByte_of_not_plain {plain : Char → Bool} (ascii : ∀ c, plain c = true → c.toNat < 128)
    {c : Char} (h : plain c = false) {b : UInt8} (mem : b ∈ String.utf8EncodeChar c) :
    encodeByte plain b = escapeByte b := by
  rcases Nat.lt_or_ge c.toNat 128 with small | large
  · rw [utf8EncodeChar_of_lt small] at mem
    rw [List.mem_singleton.mp mem, encodeByte, ofNat_byte small, h, if_neg Bool.false_ne_true]
  · have far := le_of_mem_utf8EncodeChar large mem
    rw [encodeByte, if_neg]
    intro stands
    have small := ascii _ stands
    rw [toNat_ofNat_byte] at small
    omega

/-- Encoding a text is encoding its bytes, where only characters of one byte stand for themselves. -/
theorem percentEncode_eq_flatMap {plain : Char → Bool} (ascii : ∀ c, plain c = true → c.toNat < 128)
    (cs : List Char) : percentEncode plain cs = (bytesOf cs).flatMap (encodeByte plain) := by
  induction cs with
  | nil => rfl
  | cons c cs ih =>
    rw [percentEncode, bytesOf, List.flatMap_cons, List.flatMap_cons, List.flatMap_append]
    have first : (if plain c then [c] else escapeChar c) =
        (String.utf8EncodeChar c).flatMap (encodeByte plain) := by
      split
      case isTrue h =>
        obtain ⟨bytes, written⟩ := encodeByte_of_plain ascii h
        rw [bytes, List.flatMap_singleton, written]
      case isFalse h =>
        rw [escapeChar, List.flatMap_def, List.flatMap_def]
        congr 1
        refine List.map_congr_left fun b mem => (encodeByte_of_not_plain ascii ?_ mem).symm
        simpa using h
    rw [first]
    exact congrArg _ ih

/-- An encoded text is written as its bytes are. -/
theorem flatMap_percentDecode {plain : Char → Bool} (ascii : ∀ c, plain c = true → c.toNat < 128)
    (escaped : plain '%' = false) {cs : List Char} (encoded : isEncoded plain cs = true) :
    (percentDecode cs).flatMap (encodeByte plain) = cs := by
  fun_induction isEncoded plain cs with
  | case1 a b cs high low found found' ih =>
    simp only [Bool.and_eq_true, beq_iff_eq, Bool.not_eq_true'] at encoded
    obtain ⟨⟨⟨rfl, rfl⟩, bare⟩, rest⟩ := encoded
    have small := hexValue?_lt found
    have small' := hexValue?_lt found'
    have value : (UInt8.ofNat (16 * high + low)).toNat = 16 * high + low := by
      rw [UInt8.toNat_ofNat', Nat.mod_eq_of_lt (by omega)]
    rw [percentDecode, found, found', List.flatMap_cons, ih rest, encodeByte, value, bare,
      if_neg Bool.false_ne_true, escapeByte, value]
    have parts : (16 * high + low) / 16 = high ∧ (16 * high + low) % 16 = low := by omega
    rw [parts.1, parts.2]
    rfl
  | case2 => cases encoded
  | case3 c cs other ih =>
    rw [Bool.and_eq_true] at encoded
    obtain ⟨stands, rest⟩ := encoded
    have apart : c ≠ '%' := by
      rintro rfl
      rw [escaped] at stands
      cases stands
    obtain ⟨bytes, written⟩ := encodeByte_of_plain ascii stands
    rw [percentDecode_cons apart, bytes, List.singleton_append, List.flatMap_cons, written, ih rest]
    rfl
  | case4 => rfl

theorem isEncoded_cons {plain : Char → Bool} {c : Char} (other : c ≠ '%') (cs : List Char) :
    isEncoded plain (c :: cs) = (plain c && isEncoded plain cs) := by
  rw [isEncoded]
  intro _ _ _ same
  exact absurd same other

/-- Bytes are written as an encoded text. -/
theorem isEncoded_flatMap {plain : Char → Bool} (escaped : plain '%' = false) (bytes : List UInt8) :
    isEncoded plain (bytes.flatMap (encodeByte plain)) = true := by
  induction bytes with
  | nil => rfl
  | cons b bytes ih =>
    rw [List.flatMap_cons, encodeByte]
    split
    case isTrue stands =>
      have apart : Char.ofNat b.toNat ≠ '%' := by
        intro same
        rw [same, escaped] at stands
        cases stands
      rw [List.singleton_append, isEncoded_cons apart, stands, ih]
      rfl
    case isFalse bare =>
      have small := b.toNat_lt
      have value : 16 * (b.toNat / 16) + b.toNat % 16 = b.toNat := Nat.div_add_mod _ _
      rw [escapeByte, List.cons_append, List.cons_append, List.cons_append, List.nil_append, isEncoded,
        hexValue?_hexDigit (by omega), hexValue?_hexDigit (by omega)]
      simp [value, bare, ih]

/-- Of the texts that are read as some text, the one that encoding gives is the one that is encoded. -/
theorem isEncoded_iff {plain : Char → Bool} (ascii : ∀ c, plain c = true → c.toNat < 128)
    (escaped : plain '%' = false) {encoded cs : List Char} (read : percentDecode encoded = bytesOf cs) :
    isEncoded plain encoded = true ↔ encoded = percentEncode plain cs := by
  rw [percentEncode_eq_flatMap ascii]
  constructor
  · intro h
    rw [← read, flatMap_percentDecode ascii escaped h]
  · rintro rfl
    exact isEncoded_flatMap escaped _

end ModuleLinker.Text
