import Mathlib
import ModuleLinker.Proofs.Erase.Positions

/-!
# Erasing again

One pass can leave type syntax behind, as each construct is decided from the tokens next to it, erased
ones among them. What a further pass finds it only overwrites, and a pass that finds nothing leaves the
text as it is; every other pass overwrites some character for good, so that the passes come to an end
(`erase_again`).
-/

set_option autoImplicit false

namespace ModuleLinker

namespace Erase

/-- Whether overwriting changes a character. -/
def isInk (c : Char) : Bool := c != ' ' && c != '\n' && c != '\r'

/-- How many characters of a text can be overwritten. -/
def ink (cs : List Char) : Nat := cs.countP isInk

theorem isInk_blankOut (c : Char) : isInk (Edit.blankOut c) = false := by
  unfold Edit.blankOut
  split
  case isTrue ends =>
    rw [Bool.or_eq_true, decide_eq_true_eq, decide_eq_true_eq] at ends
    rcases ends with rfl | rfl <;> decide
  case isFalse => decide

theorem eq_of_isInk_blankOut {c d : Char} (solid : isInk d = true) : Edit.blankOut c ≠ d := by
  rintro rfl
  rw [isInk_blankOut] at solid
  cases solid

/-- The text after some passes. -/
def passes : Nat → List Char → Except Failure (List Char)
  | 0, source => .ok source
  | n + 1, source => erase source >>= passes n

namespace Edits

variable {es : List Edit} {offset : Nat}

theorem ink_overlay_singleton_le (c : Char) : ink (overlay es offset [c]) ≤ ink [c] := by
  unfold overlay ink
  rw [List.mapIdx_cons, List.mapIdx_nil]
  split
  · simp [List.countP_cons, isInk_blankOut]
  · exact Nat.le_refl _

/-- Laying spaces over a text adds nothing to overwrite. -/
theorem ink_overlay_le (cs : List Char) : ink (overlay es offset cs) ≤ ink cs := by
  induction cs generalizing offset with
  | nil => exact Nat.le_refl _
  | cons c cs ih =>
    rw [← List.singleton_append, overlay_append, ink, ink, List.countP_append, List.countP_append]
    exact Nat.add_le_add (ink_overlay_singleton_le c) ih

/-- Laying a space over a character that changes leaves less to overwrite. -/
theorem ink_overlay_lt {cs : List Char} {i : Nat} {c : Char} (stands : cs[i]? = some c)
    (solid : isInk c = true) (under : covered es (offset + i) = true) :
    ink (overlay es offset cs) < ink cs := by
  obtain ⟨less, found⟩ := List.getElem?_eq_some_iff.mp stands
  have split : cs = cs.take i ++ ([c] ++ cs.drop (i + 1)) := by
    rw [← found, List.singleton_append, List.getElem_cons_drop, List.take_append_drop]
  have size : (cs.take i).length = i := List.length_take_of_le (Nat.le_of_lt less)
  have gone : ink (overlay es (offset + i) [c]) < ink [c] := by
    unfold overlay ink
    rw [List.mapIdx_cons, List.mapIdx_nil, Nat.add_zero, if_pos under]
    simp [isInk_blankOut, solid]
  rw [split, overlay_append, overlay_append, size, ink, ink, List.countP_append, List.countP_append,
    List.countP_append, List.countP_append]
  exact Nat.add_lt_add_of_le_of_lt (ink_overlay_le _) (Nat.add_lt_add_of_lt_of_le gone (ink_overlay_le _))

theorem applyTo_nil (source : List Char) : applyTo [] source = source := by
  rw [applyTo, inOrder, List.reverse_nil, List.mergeSort_nil, applyFrom]

/-- A text that changes nowhere when it is overwritten stood there before. -/
theorem eq_of_overlay_eq {cs word : List Char} (solid : ∀ c ∈ word, isInk c = true)
    (same : overlay es offset cs = word) : cs = word := by
  apply List.ext_getElem?
  intro i
  have found : (overlay es offset cs)[i]? = word[i]? := by rw [same]
  rw [getElem?_overlay] at found
  rw [← found]
  cases stands : cs[i]? with
  | none => rfl
  | some c =>
    rw [stands, Option.map_some] at found
    rw [Option.map_some]
    split at found
    case isTrue =>
      exact absurd rfl (eq_of_isInk_blankOut (solid _ (List.mem_of_getElem? found.symm)))
    case isFalse uncovered => rw [if_neg uncovered]

end Edits

/-- What is overwritten in a plain text leaves a plain text. -/
theorem IsPlain.overlay {source : List Char} (plain : IsPlain source) (es : List Edit) :
    IsPlain (Edits.overlay es 0 source) := by
  rintro word mem ⟨front, back, same⟩
  have solid : ∀ c ∈ word.toList, isInk c = true := by
    have checked : (replacedWords.all fun word => word.toList.all isInk) = true := by decide
    exact List.all_eq_true.mp (List.all_eq_true.mp checked word mem)
  have piece := @Edits.overlay_slice es source front.length word.toList.length
  rw [← same, List.append_assoc, List.drop_left, List.take_left] at piece
  have stands := Edits.eq_of_overlay_eq solid piece.symm
  exact plain word mem (stands ▸ (List.take_prefix ..).isInfix.trans (List.drop_suffix ..).isInfix)

/-- A pass over a plain text finds nothing and leaves the text as it is, or it overwrites some
character. -/
theorem erase_plain {source out : List Char} (plain : IsPlain source) (done : erase source = .ok out) :
    ∃ es, out = Edits.overlay es 0 source ∧
      ((editsOf source = .ok [] ∧ out = source) ∨ ink out < ink source) := by
  obtain ⟨edits, found, done⟩ := bind_eq_ok.mp done
  cases done
  obtain ⟨p, opened, spares⟩ := editsOf_spares plain found
  obtain ⟨rfl, -⟩ := Program.ofSource_eq_ok opened
  refine ⟨Edits.carriedOut 0 edits.inOrder,
    Edits.applyTo_eq_overlay fun e mem => (spares e mem).blanks.toOverwrites, ?_⟩
  cases order : edits.inOrder with
  | nil =>
    have none : edits = [] := by
      rw [List.eq_nil_iff_forall_not_mem]
      intro e mem
      rw [← Edits.mem_inOrder, order] at mem
      cases mem
    rw [none] at found ⊢
    exact .inl ⟨found, Edits.applyTo_nil _⟩
  | cons e es =>
    right
    have blanks := (spares e (Edits.mem_inOrder.mp (by rw [order]; exact List.mem_cons_self))).blanks
    obtain ⟨c, stands, space, lineFeed, carriage⟩ := blanks.first
    rw [Edits.applyTo_eq_overlay fun e mem => (spares e mem).blanks.toOverwrites, order]
    have solid : isInk c = true := by simp [isInk, space, lineFeed, carriage]
    refine Edits.ink_overlay_lt stands solid ?_
    rw [Edits.carriedOut, if_neg (Nat.not_lt_zero _), Edits.covered, List.any_cons, Bool.or_eq_true]
    left
    have less := blanks.less
    simp [Edit.covers, less]

theorem erase_of_nil {source : List Char} (found : editsOf source = .ok []) :
    erase source = .ok source := by
  rw [erase, found]
  exact congrArg Except.ok (Edits.applyTo_nil source)

/-- A pass leaves a plain text as it is exactly when it finds nothing. -/
theorem erase_eq_self_iff {source : List Char} (plain : IsPlain source) :
    erase source = .ok source ↔ editsOf source = .ok [] := by
  constructor
  · intro done
    obtain ⟨-, -, ⟨found, -⟩ | less⟩ := erase_plain plain done
    · exact found
    · exact absurd less (Nat.lt_irrefl _)
  · exact erase_of_nil

/-- Passes over a plain text only put spaces into it. -/
theorem getElem?_passes {n : Nat} {source out : List Char} (plain : IsPlain source)
    (done : passes n source = .ok out) :
    out.length = source.length ∧ ∀ i : Nat, out[i]? = source[i]? ∨ out[i]? = some ' ' := by
  induction n generalizing source with
  | zero =>
    cases done
    exact ⟨rfl, fun _ => .inl rfl⟩
  | succ n ih =>
    obtain ⟨next, first, done⟩ := bind_eq_ok.mp done
    obtain ⟨es, rfl, -⟩ := erase_plain plain first
    obtain ⟨length, each⟩ := ih (plain.overlay es) done
    refine ⟨length.trans Edits.length_overlay, fun i => ?_⟩
    rcases each i with same | space
    · rw [same, Edits.getElem?_overlay]
      cases source[i]? with
      | none => exact .inl rfl
      | some c =>
        rw [Option.map_some]
        split
        · rcases Edit.blankOut_eq c with same | ⟨space, -⟩
          · exact .inl (congrArg some same)
          · exact .inr (congrArg some space)
        · exact .inl rfl
    · exact .inr space

/-- After as many passes over a plain text as it has characters to overwrite, there is nothing left to
erase, if no pass fails. -/
theorem exists_passes {source : List Char} (plain : IsPlain source) :
    ∃ n ≤ ink source, (∃ out, passes n source = .ok out ∧ editsOf out = .ok []) ∨
      ∃ e, passes (n + 1) source = .error e := by
  generalize size : ink source = bound
  induction bound using Nat.strong_induction_on generalizing source with
  | _ bound ih =>
    cases done : erase source with
    | error e => exact ⟨0, Nat.zero_le _, .inr ⟨e, by rw [passes, done]; rfl⟩⟩
    | ok next =>
      obtain ⟨es, rfl, ⟨found, -⟩ | less⟩ := erase_plain plain done
      · exact ⟨0, Nat.zero_le _, .inl ⟨source, rfl, found⟩⟩
      · obtain ⟨n, le, ends⟩ := ih _ (size ▸ less) (plain.overlay es) rfl
        have further (k : Nat) : passes (k + 1) source = passes k (Edits.overlay es 0 source) := by
          rw [passes, done]
          rfl
        refine ⟨n + 1, by omega, ?_⟩
        rw [further, further]
        exact ends

/-- Erasing a plain text leaves a plain text. -/
theorem IsPlain.erase {source out : List Char} (plain : IsPlain source)
    (done : ModuleLinker.erase source = .ok out) : IsPlain out := by
  obtain ⟨es, rfl, -⟩ := erase_plain plain done
  exact plain.overlay es

end Erase

open Erase

/-- What further passes do to an erased text without enums and parameter properties. A second pass
leaves it as it is exactly when it finds nothing to erase; all passes only put spaces into it; and
after at most as many passes as it has characters to overwrite they leave it as it is or fail. -/
theorem erase_again {source out : List Char} (done : erase source = .ok out)
    (plain : IsPlain source ∨ IsPlain out) :
    (erase out = .ok out ↔ editsOf out = .ok []) ∧
      (∀ (n : Nat) (text : List Char), passes n out = .ok text →
        text.length = out.length ∧ ∀ i : Nat, text[i]? = out[i]? ∨ text[i]? = some ' ') ∧
      ∃ n ≤ ink out, (∃ last, passes n out = .ok last ∧ erase last = .ok last) ∨
        ∃ e, passes (n + 1) out = .error e := by
  have plain : IsPlain out := plain.elim (·.erase done) id
  refine ⟨erase_eq_self_iff plain, fun n text => getElem?_passes plain, ?_⟩
  obtain ⟨n, le, ⟨last, done, found⟩ | fails⟩ := exists_passes plain
  · exact ⟨n, le, .inl ⟨last, done, erase_of_nil found⟩⟩
  · exact ⟨n, le, .inr fails⟩

/-- An assertion behind an erased `!` is left to a second pass. -/
theorem erase_again_assertion :
    let source := "f(a! as T);".toList
    let out := "f(a  as T);".toList
    erase source = .ok out ∧ IsPlain source ∧
      (erase out = .ok out ↔ editsOf out = .ok []) ∧
      ∃ n ≤ 8, (∃ last, passes n out = .ok last ∧ erase last = .ok last) ∨
        ∃ e, passes (n + 1) out = .error e := by
  intro source out
  have done : erase source = .ok out := by
    unfold source out
    cbv
  have plain : IsPlain source := by
    unfold source IsPlain
    decide +kernel
  obtain ⟨finds, -, ends⟩ := erase_again done (.inl plain)
  exact ⟨done, plain, finds, ends⟩

/-- Of two assertions `!` one after another a pass erases the first only. -/
theorem second_pass_finds_assertion :
    erase "x!!;".toList = .ok "x !;".toList ∧ erase "x !;".toList = .ok "x  ;".toList ∧
      "x !;".toList ≠ "x  ;".toList := by
  refine ⟨?_, ?_, by decide⟩ <;> cbv

end ModuleLinker
