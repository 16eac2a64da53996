/-!
# Bytes of a text

The UTF-8 bytes of a text and the two ways back: the strict one, which refuses bytes that no text
has, and the forgiving one, which reads U+FFFD for each longest run of bytes that starts a character
but does not finish it, and for each byte that starts none.
-/

set_option autoImplicit false

namespace ModuleLinker.Text

/-- The UTF-8 bytes of a text. -/
def bytesOf (cs : List Char) : List UInt8 := cs.flatMap String.utf8EncodeChar

/-- The text with these bytes, if there is one. -/
def ofBytes? (bytes : List UInt8) : Option (List Char) :=
  (ByteArray.mk bytes.toArray).utf8Decode?.map Array.toList

/-- What a byte says about the character it starts. -/
structure LeadByte where
  /-- How many more bytes the character has. -/
  more : Nat
  /-- The bits of the character that the byte holds. -/
  bits : Nat
  /-- The least byte that can come next. -/
  low : Nat
  /-- The greatest byte that can come next. -/
  high : Nat

/-- What a byte says about the character it starts, if it starts one. -/
def leadByte? (b : UInt8) : Option LeadByte :=
  let n := b.toNat
  if n < 0x80 then some ⟨0, n, 0x80, 0xBF⟩
  else if 0xC2 ≤ n && n ≤ 0xDF then some ⟨1, n - 0xC0, 0x80, 0xBF⟩
  else if n = 0xE0 then some ⟨2, 0, 0xA0, 0xBF⟩
  else if n = 0xED then some ⟨2, 0xD, 0x80, 0x9F⟩
  else if 0xE1 ≤ n && n ≤ 0xEF then some ⟨2, n - 0xE0, 0x80, 0xBF⟩
  else if n = 0xF0 then some ⟨3, 0, 0x90, 0xBF⟩
  else if n = 0xF4 then some ⟨3, 4, 0x80, 0x8F⟩
  else if 0xF1 ≤ n && n ≤ 0xF3 then some ⟨3, n - 0xF0, 0x80, 0xBF⟩
  else none

/-- The character that stands for bytes of no text. -/
def replacement : Char := '\ufffd'

/-- Reads the text of some bytes, where `open?` is the character that has been started. -/
def readForgiving (open? : Option LeadByte) : List UInt8 → List Char
  | [] => if open?.isSome then [replacement] else []
  | b :: bs =>
    let start : List Char :=
      match leadByte? b with
      | none => replacement :: readForgiving none bs
      | some ⟨0, bits, _, _⟩ => Char.ofNat bits :: readForgiving none bs
      | some lead => readForgiving (some lead) bs
    match open? with
    | none => start
    | some ⟨more, bits, low, high⟩ =>
      if low ≤ b.toNat && b.toNat ≤ high then
        let bits := bits * 64 + (b.toNat - 0x80)
        if more ≤ 1 then Char.ofNat bits :: readForgiving none bs
        else readForgiving (some ⟨more - 1, bits, 0x80, 0xBF⟩) bs
      else replacement :: start

/-- The text of some bytes, with U+FFFD where they are the bytes of no text. -/
def ofBytesForgiving (bytes : List UInt8) : List Char := readForgiving none bytes

end ModuleLinker.Text
