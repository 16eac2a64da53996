import ModuleLinker.Proofs.Checked.Basic

/-!
# Places in order

The line of a place is one more than the line ends before it, and its column one more than the characters
since the last of them (`Location.ofOffset_eq`). Places come in the order of their offsets, so that two
characters of a text have two places (`Location.precedes_ofByteOffset`).
-/

set_option autoImplicit false

namespace ModuleLinker

/-! ## Offsets in bytes -/

/-- Bytes up to a character are those in front of it. -/
theorem charOffset?_eq_some_iff {cs : List Char} {bytes n : Nat} :
    charOffset? cs bytes = some n ↔ n ≤ cs.length ∧ byteOffset cs n = bytes := by
  constructor
  · intro found
    induction cs generalizing bytes n with
    | nil =>
      cases bytes with
      | zero => cases found; exact ⟨Nat.le_refl _, rfl⟩
      | succ bytes => cases found
    | cons c cs ih =>
      cases bytes with
      | zero => cases found; exact ⟨Nat.zero_le _, rfl⟩
      | succ bytes =>
        rw [charOffset?] at found
        split at found
        case isFalse => cases found
        case isTrue fits =>
          obtain ⟨m, rest, rfl⟩ := Option.map_eq_some_iff.mp found
          obtain ⟨within, before⟩ := ih rest
          refine ⟨Nat.succ_le_succ within, ?_⟩
          rw [byteOffset, List.take_succ_cons, byteLength_cons, ← byteOffset, before]
          omega
  · rintro ⟨within, rfl⟩
    exact charOffset?_byteOffset within

/-- Characters come in the order of their bytes. -/
theorem lt_of_byteOffset_lt {cs : List Char} {m n : Nat} (less : byteOffset cs m < byteOffset cs n) :
    m < n := by
  by_contra le
  have back := Checked.byteOffset_le cs (Nat.le_of_not_lt le)
  omega

namespace Location

/-- Whether a place is on an earlier line than another one, or before it on its line. -/
def Precedes (a b : Location) : Prop := a.line < b.line ∨ (a.line = b.line ∧ a.column < b.column)

theorem Precedes.trans {a b c : Location} (first : a.Precedes b) (rest : b.Precedes c) :
    a.Precedes c := by
  unfold Precedes at first rest ⊢
  omega

theorem after_append (place : Location) (cs ds : List Char) :
    after place (cs ++ ds) = after (after place cs) ds := by
  induction cs generalizing place with
  | nil => rfl
  | cons c cs ih =>
    rw [List.cons_append, after, after]
    split <;> exact ih _

/-- The place behind a text is after the place in front of it. -/
theorem precedes_after (place : Location) {cs : List Char} (some : cs ≠ []) :
    place.Precedes (after place cs) := by
  induction cs using List.reverseRecOn with
  | nil => exact absurd rfl some
  | append_singleton cs c ih =>
    have last (place : Location) : place.Precedes (after place [c]) := by
      rw [after]
      split
      · exact .inl (Nat.lt_succ_self _)
      · exact .inr ⟨rfl, Nat.lt_succ_self _⟩
    rw [after_append]
    by_cases none : cs = []
    · subst none
      exact last place
    · exact (ih none).trans (last _)

/-- Places come in the order of their offsets. -/
theorem precedes_ofOffset {source : List Char} {m n : Nat} (less : m < n) (within : n ≤ source.length) :
    (ofOffset source m).Precedes (ofOffset source n) := by
  obtain ⟨k, rfl⟩ := Nat.exists_eq_add_of_le (Nat.le_of_lt less)
  have some : (source.drop m).take k ≠ [] := by
    rw [← List.length_pos_iff, List.length_take, List.length_drop]
    omega
  rw [ofOffset, ofOffset, List.take_add, after_append]
  exact precedes_after _ some

/-- The line and the column of an offset. -/
theorem ofOffset_eq (source : List Char) (offset : Nat) :
    ofOffset source offset = ⟨(source.take offset).count '\n' + 1,
      ((source.take offset).reverse.takeWhile (· != '\n')).length + 1⟩ := by
  rw [ofOffset]
  induction source.take offset using List.reverseRecOn with
  | nil => rfl
  | append_singleton cs c ih =>
    rw [after_append, ih, after, List.reverse_concat, List.takeWhile_cons, List.count_append]
    by_cases ends : c = '\n'
    · subst ends
      simp [after]
    · simp [after, ends]

theorem ofByteOffset_byteOffset {source : List Char} {offset : Nat} (within : offset ≤ source.length) :
    ofByteOffset source (byteOffset source offset) = ofOffset source offset := by
  rw [ofByteOffset, charOffset?_byteOffset within, Option.getD_some]

/-- Places come in the order of their bytes, where the bytes end between characters. -/
theorem precedes_ofByteOffset {source : List Char} {bytes bytes' m n : Nat}
    (here : charOffset? source bytes = some m) (there : charOffset? source bytes' = some n)
    (less : bytes < bytes') : (ofByteOffset source bytes).Precedes (ofByteOffset source bytes') := by
  obtain ⟨within, rfl⟩ := charOffset?_eq_some_iff.mp here
  obtain ⟨within', rfl⟩ := charOffset?_eq_some_iff.mp there
  rw [ofByteOffset_byteOffset within, ofByteOffset_byteOffset within']
  exact precedes_ofOffset (lt_of_byteOffset_lt less) within'

end Location

end ModuleLinker
