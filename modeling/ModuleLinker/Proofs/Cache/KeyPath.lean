import ModuleLinker.Proofs.Cache.Store

/-!
# The paths of keys

A text is read back from the path that the names of its key make, also where the whole key is one dot
or two; no key starts with that of another text; and what a name of a key looks like says whether it is
that of a directory or of the file (`encodeKey_reversible_and_safe`).
-/

set_option autoImplicit false

namespace ModuleLinker.Cache

open Text Files

/-- Whether a character can stand in a name of a key, the mark of directories aside. -/
def isKeyCharacter (c : Char) : Bool := c.isAlphanum || "_.~-%".toList.contains c

/-- A name of a key, which is that of the file if it is the last one, and else that of a directory. -/
structure IsSegment (name : String) (last : Bool) : Prop where
  filled : name ≠ ""
  short : name.utf8ByteSize ≤ 201
  characters : ∃ piece : List Char, (∀ c ∈ piece, isKeyCharacter c = true) ∧
    name = String.ofList (if last then piece else piece ++ ['+'])

theorem isKeyCharacter_of_mem {text : String} {piece : List Char} (here : piece ∈ keyPieces text)
    {c : Char} (inside : c ∈ piece) : isKeyCharacter c = true := by
  rcases mem_percentEncode (mem_keyPieces here inside) with plain | escape
  · rw [isPlainKey, Bool.or_eq_true] at plain
    rcases plain with letter | sign
    · rw [isKeyCharacter, letter, Bool.true_or]
    · have all : "-_.~".toList.all isKeyCharacter = true := by decide
      exact List.all_eq_true.mp all c (List.contains_iff_mem.mp sign)
  · have all : "%0123456789ABCDEF".toList.all isKeyCharacter = true := by decide
    exact List.all_eq_true.mp all c escape

/-- Every name but the last is made of a piece and the mark of directories, and the last of a piece. -/
theorem names_split {texts : List (List Char)} {front back : List String} {name : String}
    (split : names texts = front ++ name :: back) : ∃ piece ∈ texts,
      name = String.ofList (if back.isEmpty then piece else piece ++ [directoryMark]) := by
  induction texts generalizing front with
  | nil => exact absurd (List.append_eq_nil_iff.mp split.symm).2 (List.cons_ne_nil _ _)
  | cons piece texts ih =>
    cases texts with
    | nil =>
      have same : [String.ofList piece] = front ++ name :: back := split
      rcases List.append_eq_singleton_iff.mp same.symm with ⟨rfl, last⟩ | ⟨-, none⟩
      · obtain ⟨rfl, rfl⟩ := List.cons.inj last
        exact ⟨piece, List.mem_cons_self, rfl⟩
      · cases none
    | cons piece' texts =>
      rw [names_cons_cons] at split
      cases front with
      | nil =>
        obtain ⟨rfl, rfl⟩ := List.cons.inj split
        have more : (names (piece' :: texts)).isEmpty = false := by
          rw [← Bool.not_eq_true, List.isEmpty_iff_length_eq_zero, length_names]
          exact Nat.succ_ne_zero _
        exact ⟨piece, List.mem_cons_self, by rw [more]; rfl⟩
      | cons first front =>
        obtain ⟨found, here, same⟩ := ih (List.cons.inj split).2
        exact ⟨found, List.mem_cons_of_mem _ here, same⟩

theorem isSegment_of_split {text : String} (filled : text ≠ "") {front back : List String}
    {name : String} (split : encodeKey text = front ++ name :: back) :
    IsSegment name back.isEmpty := by
  rw [encodeKey_eq] at split
  obtain ⟨piece, here, same⟩ := names_split split
  have characters : ∀ c ∈ piece, isKeyCharacter c = true := fun c => isKeyCharacter_of_mem here
  cases last : back.isEmpty with
  | false =>
    rw [last] at same
    subst same
    have isKey := isKeyName_directory here
    exact ⟨isKey.filled, isKey.short, piece, characters, rfl⟩
  | true =>
    rw [last] at same
    subst same
    obtain ⟨short, positive, -⟩ := length_of_mem_keyPieces here
    have some := positive (fun none => filled (String.toList_eq_nil_iff.mp none))
    refine ⟨fun none => ?_, ?_, piece, characters, rfl⟩
    · have empty : piece = [] := String.ofList_injective none
      rw [empty] at some
      cases some
    · show (String.ofList piece).utf8ByteSize ≤ 201
      rw [utf8ByteSize_ofList fun c inside =>
        utf8Size_of_mem_percentEncode (mem_keyPieces here inside)]
      exact short.trans (by decide)

/-- The names of a key that has several are ordinary ones. -/
theorem isKeyName_of_several {text : String} (several : 1 < (encodeKey text).length) {name : String}
    (mem : name ∈ encodeKey text) : IsKeyName name := by
  have other (plain : String) (single : (encodeKey plain).length = 1) : text ≠ plain := by
    rintro rfl
    omega
  exact isKeyName_of_ne (other "" (by decide)) (other "." (by decide)) (other ".." (by decide)) mem

/-- The names of a key are the components of the path that they make. -/
theorem components_encodeKey {text : String} (filled : text ≠ "") :
    components (joinAll "" (encodeKey text)) = encodeKey text := by
  cases key : encodeKey text with
  | nil => exact absurd key (encodeKey_ne_nil text)
  | cons first rest =>
    obtain ⟨some, -, piece, characters, same⟩ :=
      isSegment_of_split filled (key.trans (List.nil_append _).symm)
    apply components_joinAll some
    · intro slash
      rw [same, String.toList_ofList] at slash
      split at slash
      · cases characters _ slash
      · rcases List.mem_append.mp slash with inside | mark
        · cases characters _ inside
        · exact absurd (List.mem_singleton.mp mark) (by decide)
    · intro name mem
      have several : 1 < (encodeKey text).length := by
        rw [key]
        exact Nat.succ_lt_succ (List.length_pos_of_mem mem)
      exact (isKeyName_of_several several (key ▸ List.mem_cons_of_mem _ mem)).toIsName

/-- Every text but the empty one is read back from the path of its key. No key starts with the key of
another text, so that no file stands where another one is or needs a directory. The names of a key are
short and made of few characters, all but the last end in the mark of directories, and where there are
several, none of them is one dot or two. -/
theorem encodeKey_reversible_and_safe (text : String) (filled : text ≠ "") :
    decodeKey? (components (joinAll "" (encodeKey text))) = some text ∧
      (∀ other, other ≠ text → ¬ encodeKey text <+: encodeKey other) ∧
      (∀ front name back, encodeKey text = front ++ name :: back → IsSegment name back.isEmpty) ∧
      (1 < (encodeKey text).length → "." ∉ encodeKey text ∧ ".." ∉ encodeKey text) := by
  refine ⟨?_, ?_, ?_, ?_⟩
  · rw [components_encodeKey filled, decodeKey?_encodeKey]
  · exact fun other ne isPrefix => ne (eq_of_encodeKey_isPrefix isPrefix).symm
  · exact fun front name back => isSegment_of_split filled
  · intro several
    exact ⟨fun mem => (isKeyName_of_several several mem).dot rfl,
      fun mem => (isKeyName_of_several several mem).dots rfl⟩

/-- A text whose whole key is one dot is read back, and its key is the beginning of no other one. -/
theorem encodeKey_reversible_and_safe_dot :
    "." ≠ "" ∧ encodeKey "." = ["."] ∧
      decodeKey? (components (joinAll "" (encodeKey "."))) = some "." ∧
      ¬ encodeKey "." <+: encodeKey "./a" := by
  have filled : "." ≠ "" := by decide
  obtain ⟨decoded, apart, -⟩ := encodeKey_reversible_and_safe "." filled
  exact ⟨filled, by decide, decoded, apart "./a" (by decide)⟩

end ModuleLinker.Cache
