import Mathlib
import ModuleLinker.Proofs.Erase.Grows
import ModuleLinker.Proofs.Erase.Overlay
import ModuleLinker.Proofs.Erase.Program

/-!
# Erasing keeps positions

A text without enums and parameter properties is only overwritten: every character that stays keeps
its offset, line ends stay, and every token outside template literals stays or goes as a whole
(`erase_keeps_positions`). Every edit of its walk overwrites a range that cuts no token
(`Edit.Spares`); the substitutions lie inside template literals, so that their edits cut no other
token either.
-/

set_option autoImplicit false

namespace ModuleLinker

namespace Erase

/-- The words without which nothing is replaced by code. -/
def replacedWords : List String :=
  ["enum", "public", "private", "protected", "readonly", "override"]

/-- Whether a text contains none of these words, be it within another one. -/
def IsPlain (source : List Char) : Prop := ∀ word ∈ replacedWords, ¬ word.toList <:+: source

theorem IsPlain.of_infix {source piece : List Char} (plain : IsPlain source)
    (inside : piece <:+: source) : IsPlain piece :=
  fun word mem found => plain word mem (found.trans inside)

namespace Program

/-- Whether an edit overwrites a range of a program that cuts no token, template literals apart. -/
structure Spares (p : Program) (e : Edit) : Prop where
  /-- The range lies within the text and starts with a token. -/
  blanks : e.Blanks p.source
  /-- It covers a token as a whole or not at all. -/
  whole : ∀ t ∈ p.tokens, t.kind ≠ .template → e.KeepsWhole t.start t.stop

variable {p : Program}

/-- A range from one token to another cuts none. -/
theorem IsRead.spares_tokens (read : p.IsRead) {first last : Nat} {a z : Token}
    (before : first < last) (opens : p.tokens[first]? = some a)
    (ends : p.tokens[last - 1]? = some z) : p.Spares ⟨a.start, z.stop, none⟩ := by
  have ordered := read.stop_le_stop (Nat.le_sub_one_of_lt before) opens ends
  have piece := read.piece (Array.mem_of_getElem? opens)
  have less : a.start < z.stop := Nat.lt_of_lt_of_le piece.less ordered.2
  have inside := read.stop_le_length (Array.mem_of_getElem? ends)
  refine ⟨⟨⟨rfl, Nat.le_of_lt less, inside⟩, less, piece.cut.first⟩, fun t mem _ => ?_⟩
  obtain ⟨k, found⟩ := Array.getElem?_of_mem mem
  rcases Nat.lt_or_ge k first with less | ge
  · exact .inr (.inl (read.stop_le_start less found opens))
  rcases Nat.lt_or_ge (last - 1) k with less | le
  · exact .inr (.inr (read.stop_le_start less ends found))
  · have opened := read.stop_le_stop ge opens found
    have closed := read.stop_le_stop le found ends
    exact .inl ⟨opened.1, closed.2⟩

/-- An edit of a substitution lies in its template literal and cuts no other token. -/
theorem IsRead.spares_shifted (read : p.IsRead) {t : Token} {h : Hole} {e : Edit}
    (token : t ∈ p.tokens) (inside : h ∈ t.holes) (blanks : e.Blanks h.text) :
    p.Spares (e.shifted h.start) := by
  have piece := read.piece token
  obtain ⟨after, before, text⟩ := piece.holes h inside
  have stop := read.stop_le_length token
  obtain ⟨⟨code, le, within⟩, less, c, found, solid⟩ := blanks
  unfold Hole.stop at before
  have low : t.start ≤ (e.shifted h.start).start := by
    change t.start ≤ e.start + h.start
    omega
  have high : (e.shifted h.start).stop ≤ t.stop := by
    change e.stop + h.start ≤ t.stop
    omega
  have first : p.source[(e.shifted h.start).start]? = some c := by
    change p.source[e.start + h.start]? = some c
    obtain ⟨behind, same⟩ := text
    rw [Nat.add_comm, ← List.getElem?_drop, ← same]
    rw [List.getElem?_append_left (List.getElem?_eq_some_iff.mp found).1, found]
  refine ⟨⟨⟨code, Nat.add_le_add_right le _, Nat.le_trans high stop⟩,
    Nat.add_lt_add_right less _, c, first, solid⟩, fun t' mem other => ?_⟩
  obtain ⟨k, found⟩ := Array.getElem?_of_mem token
  obtain ⟨k', found'⟩ := Array.getElem?_of_mem mem
  rcases Nat.lt_trichotomy k k' with less | rfl | greater
  · have apart := read.stop_le_start less found found'
    exact .inr (.inr (by omega))
  · -- The literal itself has substitutions, so that it is no other token.
    rw [found] at found'
    cases found'
    rw [piece.plain other] at inside
    cases inside
  · have apart := read.stop_le_start greater found' found
    exact .inr (.inl (by omega))

/-- Without the words of the constructs that are replaced, a walk only overwrites. What holds of an edit
that overwrites tokens, and of the edits of a substitution, holds of all its edits. -/
theorem Grows.forall_of_isPlain {hole : Hole → Except Failure Edits} {edits edits' : Edits}
    {Holds : Edit → Prop} (read : p.IsRead) (plain : IsPlain p.source)
    (overwritten : ∀ {first last : Nat} {a z : Token}, p.IsRange first last → first < last →
      p.tokens[first]? = some a → p.tokens[last - 1]? = some z → Holds ⟨a.start, z.stop, none⟩)
    (substituted : ∀ t ∈ p.tokens, ∀ h ∈ t.holes, ∀ inner, hole h = .ok inner →
      ∀ e ∈ inner, Holds (e.shifted h.start))
    (grows : p.Grows hole edits edits') (before : ∀ e ∈ edits, Holds e) : ∀ e ∈ edits', Holds e := by
  induction grows with
  | blank range less opens ends =>
    intro e mem
    rcases List.mem_cons.mp mem with rfl | mem
    · exact overwritten range less opens ends
    · exact before e (List.mem_of_mem_filter mem)
  | @replace i s s' isEnum done =>
    have absent := plain "enum" (by simp [replacedWords])
    exact absurd isEnum (read.text_ne (by simp) absent (p.enumKeyword i))
  | @assign edits i properties brace some modified =>
    obtain ⟨name, mem⟩ := List.exists_mem_of_ne_nil properties some
    obtain ⟨⟨j, modifier⟩, -⟩ := modified name mem
    have among := text_mem_of_isOneOf modifier
    have absent := plain (p.text j) (List.mem_cons_of_mem "enum" among)
    refine absurd rfl (read.text_ne ?_ absent j)
    intro empty
    rw [empty] at among
    simp [parameterModifiers] at among
  | @adopt edits inner t h token inside done =>
    intro e mem
    rcases List.mem_append.mp mem with mem | mem
    · obtain ⟨e', mem', rfl⟩ := List.mem_map.mp mem
      exact substituted t token h inside inner done e' mem'
    · exact before e mem
  | refl => exact before
  | trans _ _ ih ih' => exact ih' (ih before)

end Program

/-- The edits of a text are what a walk through its tokens makes, where the edits of a substitution are
those of its text. -/
theorem editsOf_grows {source : List Char} {edits : Edits} (done : editsOf source = .ok edits) :
    ∃ p hole, Program.ofSource source = .ok p ∧ p.Grows hole [] edits ∧
      ∀ (h : Hole) (inner : Edits), hole h = .ok inner →
        inner = [] ∨ (h.text.length < source.length ∧ editsOf h.text = .ok inner) := by
  rw [editsOf] at done
  split at done
  · cases done
  case h_2 p found =>
    dsimp only at done
    generalize walked : p.walk _ _ _ _ = result at done
    cases result with
    | error e => cases done
    | ok s =>
      cases done
      refine ⟨p, _, found, Program.walk_grows walked, fun h inner given => ?_⟩
      split at given
      case isTrue shorter => exact .inr ⟨shorter, given⟩
      case isFalse =>
        cases given
        exact .inl rfl

/-- Every edit of a plain text overwrites a range that cuts no token. -/
theorem editsOf_spares {source : List Char} {edits : Edits} (plain : IsPlain source)
    (done : editsOf source = .ok edits) :
    ∃ p, Program.ofSource source = .ok p ∧ ∀ e ∈ edits, p.Spares e := by
  obtain ⟨p, hole, found, grows, substitutions⟩ := editsOf_grows done
  obtain ⟨rfl, -⟩ := Program.ofSource_eq_ok found
  have read := Program.isRead_of_ofSource found
  refine ⟨p, found, grows.forall_of_isPlain read plain (fun _ => read.spares_tokens) ?_ fun _ mem => by cases mem⟩
  intro t token h inside inner given e mem
  apply read.spares_shifted token inside
  rcases substitutions h inner given with rfl | ⟨shorter, given⟩
  · cases mem
  · have piece := ((read.piece token).holes h inside).2.2
    obtain ⟨p', found', spares⟩ := editsOf_spares (plain.of_infix (infix_of_prefix_drop piece)) given
    rw [← (Program.ofSource_eq_ok found').1]
    exact (spares e mem).blanks
termination_by source.length

/-- Where edits leave a range whole, it is overwritten or stays. -/
theorem Edits.overlay_whole {es : List Edit} {start : Nat} {piece : List Char}
    (whole : ∀ e ∈ es, e.KeepsWhole start (start + piece.length)) :
    Edits.overlay es start piece = piece ∨
      Edits.overlay es start piece = piece.map Edit.blankOut := by
  by_cases full : ∃ e ∈ es, e.start ≤ start ∧ start + piece.length ≤ e.stop
  · right
    obtain ⟨e, mem, low, high⟩ := full
    apply Edits.overlay_eq_blank
    intro i less
    rw [Edits.covered, List.any_eq_true]
    refine ⟨e, mem, ?_⟩
    simp only [Edit.covers, Bool.and_eq_true, decide_eq_true_eq]
    omega
  · left
    apply Edits.overlay_eq_self
    intro i less
    rw [Edits.covered, List.any_eq_false]
    intro e mem
    have apart := (whole e mem).resolve_left fun covers => full ⟨e, mem, covers⟩
    simp only [Edit.covers, Bool.and_eq_true, decide_eq_true_eq]
    omega

end Erase

open Erase

/-- Erasing the types of a plain text keeps its positions: the length stays, every character stays or
gives way to a space, line ends apart, and every token outside template literals stays or is
overwritten as a whole. -/
theorem erase_keeps_positions {source out : List Char} (plain : IsPlain source)
    (done : erase source = .ok out) :
    out.length = source.length ∧
      (∀ (i : Nat) (c : Char), source[i]? = some c →
        out[i]? = some c ∨ (out[i]? = some ' ' ∧ c ≠ '\n' ∧ c ≠ '\r')) ∧
      ∃ tokens, scan source = .ok tokens ∧ ∀ t ∈ tokens, t.kind ≠ .template →
        (source.drop t.start).take t.text.length = t.text.toList ∧
          ((out.drop t.start).take t.text.length = t.text.toList ∨
            (out.drop t.start).take t.text.length = t.text.toList.map Edit.blankOut) := by
  obtain ⟨edits, found, done⟩ := bind_eq_ok.mp done
  cases done
  obtain ⟨p, opened, spares⟩ := editsOf_spares plain found
  have read := Program.isRead_of_ofSource opened
  obtain ⟨rfl, scanned⟩ := Program.ofSource_eq_ok opened
  rw [Edits.applyTo_eq_overlay fun e mem => (spares e mem).blanks.toOverwrites]
  refine ⟨Edits.length_overlay, fun i c stands => ?_, p.tokens, scanned, fun t mem other => ?_⟩
  · rw [Edits.getElem?_overlay, stands, Option.map_some]
    split
    · rcases Edit.blankOut_eq c with same | ⟨space, plain⟩
      · exact .inl (congrArg some same)
      · exact .inr ⟨congrArg some space, plain⟩
    · exact .inl rfl
  · have slice : (p.source.drop t.start).take t.text.length = t.text.toList := by
      rw [← String.length_toList]
      exact (List.prefix_iff_eq_take.mp (read.piece mem).piece).symm
    refine ⟨slice, ?_⟩
    rw [Edits.overlay_slice, slice]
    apply Edits.overlay_whole
    intro e mem'
    rw [String.length_toList]
    exact (spares e (Edits.mem_inOrder.mp (Edits.mem_of_mem_carriedOut mem'))).whole t mem other

/-- An annotation, assertions and a substitution are overwritten where they stand. -/
theorem erase_keeps_positions_assertion :
    let source := "let x: T =\n  (y as T)! + `b$\x7bc as T\x7d`;".toList
    let out := "let x    =\n  (y     )  + `b$\x7bc     \x7d`;".toList
    IsPlain source ∧ erase source = .ok out ∧ out.length = source.length := by
  intro source out
  have plain : IsPlain source := by
    unfold source IsPlain
    decide +kernel
  have done : erase source = .ok out := by
    unfold source out
    cbv
  have keeps := erase_keeps_positions plain done
  exact ⟨plain, done, keeps.1⟩

end ModuleLinker
