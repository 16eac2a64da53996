import Mathlib.Data.List.Basic
import ModuleLinker.Erase.Edit

/-!
# Edits that only overwrite

Carrying out edits that all overwrite lays spaces over the text (`overlay`): every character keeps
its place, and those that an edit covers give way to spaces, line ends apart. Edits that start before
the one carried out last has stopped are left out, so that only some of the edits count (`carriedOut`).
-/

set_option autoImplicit false

namespace ModuleLinker.Erase

namespace Edit

/-- Whether an offset is in the range of an edit. -/
def covers (e : Edit) (i : Nat) : Bool := e.start ≤ i && i < e.stop

/-- Whether an edit overwrites a range of a text of this length. -/
structure Overwrites (e : Edit) (length : Nat) : Prop where
  /-- No code replaces its range. -/
  code : e.code = none
  /-- It stops after it starts. -/
  le : e.start ≤ e.stop
  /-- It stops within the text. -/
  within : e.stop ≤ length

/-- Whether an edit overwrites a range of a text, the first character of which changes by that. -/
structure Blanks (e : Edit) (text : List Char) : Prop extends e.Overwrites text.length where
  /-- The range has a first character. -/
  less : e.start < e.stop
  /-- It is neither a space nor a line end. -/
  first : ∃ c, text[e.start]? = some c ∧ c ≠ ' ' ∧ c ≠ '\n' ∧ c ≠ '\r'

/-- Whether an edit leaves the range between two offsets whole: it covers all of it or nothing. -/
def KeepsWhole (e : Edit) (start stop : Nat) : Prop :=
  (e.start ≤ start ∧ stop ≤ e.stop) ∨ stop ≤ e.start ∨ e.stop ≤ start

/-- An overwritten character is a space, or a line end that stays. -/
theorem blankOut_eq (c : Char) : blankOut c = c ∨ (blankOut c = ' ' ∧ c ≠ '\n' ∧ c ≠ '\r') := by
  unfold blankOut
  split
  case isTrue => exact .inl rfl
  case isFalse other =>
    simp only [Bool.or_eq_true, decide_eq_true_eq, not_or] at other
    exact .inr ⟨rfl, other⟩

end Edit

namespace Edits

/-- Whether an offset is in the range of one of some edits. -/
def covered (es : List Edit) (i : Nat) : Bool := es.any (·.covers i)

/-- The text `cs`, which lies at an offset, with spaces over all that some edits cover. -/
def overlay (es : List Edit) (offset : Nat) (cs : List Char) : List Char :=
  cs.mapIdx fun i c => if covered es (offset + i) then Edit.blankOut c else c

section Overlay

variable {es : List Edit} {offset : Nat} {cs : List Char}

theorem length_overlay : (overlay es offset cs).length = cs.length :=
  List.length_mapIdx

theorem getElem?_overlay (i : Nat) : (overlay es offset cs)[i]? =
    cs[i]?.map fun c => if covered es (offset + i) then Edit.blankOut c else c :=
  List.getElem?_mapIdx

theorem overlay_append (ds : List Char) :
    overlay es offset (cs ++ ds) = overlay es offset cs ++ overlay es (offset + cs.length) ds := by
  unfold overlay
  rw [List.mapIdx_append]
  congr 2
  funext i c
  rw [Nat.add_right_comm, Nat.add_assoc]

/-- Where no edit covers anything, the text stays. -/
theorem overlay_eq_self (clear : ∀ i < cs.length, covered es (offset + i) = false) :
    overlay es offset cs = cs := by
  apply List.ext_getElem?
  intro i
  rw [getElem?_overlay]
  rcases Nat.lt_or_ge i cs.length with less | ge
  · rw [clear i less]
    simp
  · rw [List.getElem?_eq_none ge]
    rfl

/-- Where edits cover everything, the text is overwritten. -/
theorem overlay_eq_blank (full : ∀ i < cs.length, covered es (offset + i) = true) :
    overlay es offset cs = cs.map Edit.blankOut := by
  apply List.ext_getElem?
  intro i
  rw [getElem?_overlay, List.getElem?_map]
  rcases Nat.lt_or_ge i cs.length with less | ge
  · rw [full i less]
    simp
  · rw [List.getElem?_eq_none ge]
    rfl

/-- An edit that stops before a text does not matter to it. -/
theorem overlay_of_stopped {e : Edit} (before : e.stop ≤ offset) :
    overlay (e :: es) offset cs = overlay es offset cs := by
  unfold overlay
  congr 1
  funext i c
  have apart : e.covers (offset + i) = false := by
    simp only [Edit.covers, Bool.and_eq_false_iff, decide_eq_false_iff_not]
    omega
  rw [covered, List.any_cons, apart, Bool.false_or, covered]

/-- A piece of the text is overwritten as the whole text is. -/
theorem overlay_slice (start length : Nat) :
    ((overlay es 0 cs).drop start).take length = overlay es start ((cs.drop start).take length) := by
  apply List.ext_getElem?
  intro i
  unfold overlay
  rw [List.getElem?_take, List.getElem?_drop, List.getElem?_mapIdx, List.getElem?_mapIdx,
    List.getElem?_take, List.getElem?_drop, Nat.zero_add]
  split <;> rfl

end Overlay

theorem mem_inOrder {edits : Edits} {e : Edit} : e ∈ edits.inOrder ↔ e ∈ edits := by
  rw [inOrder, List.mem_mergeSort, List.mem_reverse]

/-- The edits that are carried out on a text at an offset: those that do not start before the one
carried out last has stopped. -/
def carriedOut (offset : Nat) : List Edit → List Edit
  | [] => []
  | e :: es => if e.start < offset then carriedOut offset es else e :: carriedOut e.stop es

theorem mem_of_mem_carriedOut {offset : Nat} {es : List Edit} {e : Edit}
    (mem : e ∈ carriedOut offset es) : e ∈ es := by
  induction es generalizing offset with
  | nil => exact mem
  | cons d es ih =>
    unfold carriedOut at mem
    split at mem
    · exact List.mem_cons_of_mem d (ih mem)
    · rcases List.mem_cons.mp mem with rfl | mem
      · exact List.mem_cons_self
      · exact List.mem_cons_of_mem d (ih mem)

/-- No edit is carried out before the offset. -/
theorem le_of_mem_carriedOut {offset : Nat} {es : List Edit} (le : ∀ e ∈ es, e.start ≤ e.stop)
    {e : Edit} (mem : e ∈ carriedOut offset es) : offset ≤ e.start := by
  induction es generalizing offset with
  | nil => cases mem
  | cons d es ih =>
    rw [List.forall_mem_cons] at le
    unfold carriedOut at mem
    split at mem
    · exact ih le.2 mem
    case isFalse after =>
      rcases List.mem_cons.mp mem with rfl | mem
      · omega
      · have later := ih le.2 mem
        omega

/-- Carrying out edits that overwrite lays spaces over the text. -/
theorem applyFrom_eq_overlay {offset : Nat} {cs : List Char} {es : List Edit}
    (overwrite : ∀ e ∈ es, e.Overwrites (offset + cs.length)) :
    applyFrom offset cs es = overlay (carriedOut offset es) offset cs := by
  induction es generalizing offset cs with
  | nil => exact (overlay_eq_self fun _ _ => rfl).symm
  | cons e es ih =>
    rw [List.forall_mem_cons] at overwrite
    obtain ⟨⟨code, le, within⟩, rest⟩ := overwrite
    unfold applyFrom carriedOut
    split
    · exact ih rest
    case isFalse after =>
      -- The text before the range of the edit, the range, and the text after it.
      obtain ⟨before, range, behind, rfl, size, size'⟩ : ∃ before range behind,
          cs = before ++ (range ++ behind) ∧ before.length = e.start - offset ∧
            range.length = e.stop - e.start := by
        refine ⟨cs.take (e.start - offset), (cs.drop (e.start - offset)).take (e.stop - e.start),
          (cs.drop (e.start - offset)).drop (e.stop - e.start), ?_, ?_, ?_⟩
        · rw [List.take_append_drop, List.take_append_drop]
        · rw [List.length_take]
          omega
        · rw [List.length_take, List.length_drop]
          omega
      have start : offset + before.length = e.start := by omega
      have stop : e.start + range.length = e.stop := by omega
      have ends : offset + (before ++ (range ++ behind)).length = e.stop + behind.length := by
        simp only [List.length_append]
        omega
      rw [ends] at rest
      have later (d : Edit) (mem : d ∈ carriedOut e.stop es) : e.stop ≤ d.start :=
        le_of_mem_carriedOut (fun d mem => (rest d mem).le) mem
      have clear : ∀ i < before.length, covered (e :: carriedOut e.stop es) (offset + i) = false := by
        intro i less
        simp only [covered, List.any_eq_false, List.forall_mem_cons, Edit.covers,
          Bool.and_eq_true, decide_eq_true_eq]
        refine ⟨by omega, fun d mem => ?_⟩
        have after := later d mem
        omega
      have full : ∀ i < range.length, covered (e :: carriedOut e.stop es) (e.start + i) = true := by
        intro i less
        simp only [covered, List.any_cons, Bool.or_eq_true, Edit.covers, Bool.and_eq_true,
          decide_eq_true_eq]
        exact .inl (by omega)
      rw [overlay_append, overlay_append, start, stop, overlay_eq_self clear, overlay_eq_blank full,
        overlay_of_stopped (Nat.le_refl _), ← ih rest]
      dsimp only
      rw [List.take_left' size, List.drop_left' size, List.take_left' size', List.drop_left' size',
        Edit.apply, code, List.append_assoc]

/-- The text with edits that overwrite carried out. -/
theorem applyTo_eq_overlay {edits : Edits} {source : List Char}
    (overwrite : ∀ e ∈ edits, e.Overwrites source.length) :
    edits.applyTo source = overlay (carriedOut 0 edits.inOrder) 0 source := by
  apply applyFrom_eq_overlay
  intro e mem
  rw [Nat.zero_add]
  exact overwrite e (mem_inOrder.mp mem)

end Edits

end ModuleLinker.Erase
