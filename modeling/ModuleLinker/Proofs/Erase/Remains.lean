import Mathlib
import ModuleLinker.Proofs.Erase.Inside
import ModuleLinker.Proofs.Erase.Rescan

/-!
# The brackets of what is left

What erasing leaves of a text that holds neither enums nor parameter properties can be scanned again, and
its brackets have partners (`erase_keeps_brackets`). Two things have to be asked for. The constructs whose
end is looked for without a view to brackets (`Program.RunsAhead`) have to close their brackets all the
same; all others do. And a slash has to start the same behind the token that is left in front of it, a
regular expression or none, as behind the token that stood there. Without the one or the other, brackets
are left without a partner (`erase_breaks_brackets`).
-/

set_option autoImplicit false

namespace ModuleLinker

namespace Erase

/-! ## Edits of whole tokens -/

namespace Program

variable {p : Program}

/-- Whether an edit overwrites the tokens from one position up to another. -/
structure Overwrites (p : Program) (e : Edit) (first last : Nat) : Prop where
  /-- There are such tokens. -/
  less : first < last
  /-- The edit starts with the first of them and stops with the last. -/
  ends : ∃ a z, p.tokens[first]? = some a ∧ p.tokens[last - 1]? = some z ∧ e = ⟨a.start, z.stop, none⟩

/-- Whether an edit lies within a token, as those of a substitution do. -/
def CutsToken (p : Program) (e : Edit) : Prop := ∃ t ∈ p.tokens, t.start < e.start ∧ e.stop < t.stop

namespace Overwrites

variable {e : Edit} {first last : Nat}

theorem last_le_size (laid : p.Overwrites e first last) : last ≤ p.tokens.size := by
  obtain ⟨less, a, z, -, ends, -⟩ := laid
  have within := (Array.getElem?_eq_some_iff.mp ends).1
  omega

/-- The tokens that such an edit covers are those from the first position up to the last. -/
theorem covers_iff (read : p.IsRead) (laid : p.Overwrites e first last) {i : Nat} {t : Token}
    (here : p.tokens[i]? = some t) : e.covers t.start = true ↔ first ≤ i ∧ i < last := by
  obtain ⟨less, a, z, opens, ends, rfl⟩ := laid
  have filled := (read.piece (Array.mem_of_getElem? here)).less
  rw [Edit.covers, Bool.and_eq_true, decide_eq_true_eq, decide_eq_true_eq]
  dsimp only
  constructor
  · rintro ⟨starts, stops⟩
    constructor
    · by_contra before
      have apart := read.stop_le_start (Nat.lt_of_not_le before) here opens
      omega
    · by_contra behind
      have apart := read.stop_le_start (show last - 1 < i by omega) ends here
      omega
  · rintro ⟨low, high⟩
    have starts := (read.stop_le_stop low opens here).1
    have stops := (read.stop_le_stop (Nat.le_sub_one_of_lt high) here ends).2
    exact ⟨starts, Nat.lt_of_lt_of_le filled stops⟩

/-- Two edits of one range of tokens overwrite the same tokens. -/
theorem unique (read : p.IsRead) (laid : p.Overwrites e first last) {first' last' : Nat}
    (laid' : p.Overwrites e first' last') : first = first' ∧ last = last' := by
  have within := laid.last_le_size
  have within' := laid'.last_le_size
  have less := laid.less
  have less' := laid'.less
  have same {i : Nat} (inside : i < p.tokens.size) :
      (first ≤ i ∧ i < last) ↔ (first' ≤ i ∧ i < last') :=
    (laid.covers_iff read (Array.getElem?_eq_getElem inside)).symm.trans
      (laid'.covers_iff read (Array.getElem?_eq_getElem inside))
  have low := (same (i := first) (by omega)).mp (by omega)
  have low' := (same (i := first') (by omega)).mpr (by omega)
  have high := (same (i := last - 1) (by omega)).mp (by omega)
  have high' := (same (i := last' - 1) (by omega)).mpr (by omega)
  omega

/-- Such an edit does not lie within a token. -/
theorem not_cutsToken (read : p.IsRead) (laid : p.Overwrites e first last) : ¬ p.CutsToken e := by
  rintro ⟨t, token, starts, stops⟩
  obtain ⟨i, here⟩ := Array.mem_iff_getElem?.mp token
  obtain ⟨less, a, z, opens, ends, rfl⟩ := laid
  have within := read.stop_le_stop (Nat.le_sub_one_of_lt less) opens ends
  have filled := (read.piece (Array.mem_of_getElem? opens)).less
  dsimp only at starts stops
  rcases Nat.lt_or_ge i first with before | behind
  · have apart := read.stop_le_start before here opens
    omega
  · have same := read.stop_le_stop behind opens here
    omega

end Overwrites

/-- Every edit of a text without enums and parameter properties overwrites a range of tokens or lies
within one. -/
theorem exists_overwrites {source : List Char} {edits : Edits} (read : ofSource source = .ok p)
    (plain : IsPlain source) (found : editsOf source = .ok edits) :
    ∀ e ∈ edits, (∃ first last, p.IsRange first last ∧ p.Overwrites e first last) ∨ p.CutsToken e := by
  obtain ⟨p', hole, read', grows, substitutions⟩ := editsOf_grows found
  cases read.symm.trans read'
  have isRead := isRead_of_ofSource read
  refine grows.forall_of_isPlain isRead ((ofSource_eq_ok read).1 ▸ plain)
    (fun range less opens ends => .inl ⟨_, _, range, less, _, _, opens, ends, rfl⟩) ?_ fun _ mem => by cases mem
  intro t token h inside inner given e mem
  obtain ⟨starts, stops, -⟩ := (isRead.piece token).holes h inside
  rcases substitutions h inner given with rfl | ⟨-, given⟩
  · cases mem
  · have within := (editsOf_inside given e mem).within
    unfold Hole.stop at stops
    refine .inr ⟨t, token, ?_, ?_⟩
    · change t.start < e.start + h.start
      omega
    · change e.stop + h.start < t.stop
      omega

end Program

/-! ## What the edits leave -/

section

variable {p : Program} {es : List Edit}

/-- Edits that overwrite tokens start and stop with tokens. -/
theorem span_of_overwrites (laid : ∀ e ∈ es, ∃ first last, p.Overwrites e first last) :
    Edits.Span es 0 p.tokens.toList := by
  intro e mem
  obtain ⟨first, last, -, a, z, opens, ends, rfl⟩ := laid e mem
  exact ⟨fun _ => ⟨a, Array.mem_toList_iff.mpr (Array.mem_of_getElem? opens), rfl⟩,
    fun _ => ⟨z, Array.mem_toList_iff.mpr (Array.mem_of_getElem? ends), rfl⟩⟩

/-- Edits that close the brackets they cover keep a bracket or overwrite it together with its partner. -/
theorem covered_partner (read : p.IsRead) (matched : matchBrackets p.tokens = .ok p.partners)
    (laid : ∀ e ∈ es, ∃ first last, p.Balanced first last ∧ p.Overwrites e first last) {i j : Nat}
    {a z : Token} (pair : p.partners[i]? = some (some j)) (here : p.tokens[i]? = some a)
    (there : p.tokens[j]? = some z) (under : Edits.covered es a.start = true) :
    Edits.covered es z.start = true := by
  obtain ⟨e, mem, covers⟩ := List.any_eq_true.mp under
  obtain ⟨first, last, balanced, laid⟩ := laid e mem
  obtain ⟨low, high⟩ := (laid.covers_iff read here).mp covers
  exact List.any_eq_true.mpr ⟨e, mem, (laid.covers_iff read there).mpr (balanced.partner matched low high pair)⟩

/-- A token is left of a text where its first character is no space. -/
theorem getElem?_overlay_token (read : p.IsRead) {t : Token} (token : t ∈ p.tokens) :
    ((Edits.overlay es 0 p.source)[t.start]? != some ' ') = !Edits.covered es t.start := by
  obtain ⟨c, found, noSpace, noLineFeed, noReturn⟩ := (read.piece token).cut.first
  rw [Edits.getElem?_overlay, found, Option.map_some, Nat.zero_add]
  cases Edits.covered es t.start <;> simp [noSpace, noLineFeed, noReturn, Edit.blankOut]

end

end Erase

open Erase

/-- What erasing leaves of a text can be scanned, and its brackets have partners, if the text holds
neither enums nor parameter properties, nothing is erased within a template literal, the constructs that
run ahead close their brackets, and the slashes that are left start the same as before. Every range that
is overwritten is well-nested then. -/
theorem erase_keeps_brackets {source out : List Char} {p : Program} {edits : Edits}
    (read : Program.ofSource source = .ok p) (done : erase source = .ok out)
    (found : editsOf source = .ok edits) (plain : IsPlain source) (whole : ∀ e ∈ edits, ¬ p.CutsToken e)
    (ahead : ∀ e ∈ edits, ∀ first last, p.RunsAhead first last → p.Overwrites e first last →
      p.Balanced first last)
    (slashes : KeepsSlashes (fun t => out[t.start]? != some ' ') p.tokens.toList) :
    (∃ left partners, scan out = .ok left ∧ matchBrackets left = .ok partners) ∧
      ∀ e ∈ edits, ∃ first last, p.Overwrites e first last ∧
        Nested ((tokensBetween p.tokens.toList first last).map Token.symbol) := by
  have isRead := Program.isRead_of_ofSource read
  have matched := Program.matched_of_ofSource read
  obtain ⟨rfl, scanned⟩ := Program.ofSource_eq_ok read
  have laid : ∀ e ∈ edits, ∃ first last, p.Balanced first last ∧ p.Overwrites e first last := by
    intro e mem
    obtain ⟨first, last, range, laid⟩ :=
      (Program.exists_overwrites read plain found e mem).resolve_right (whole e mem)
    exact ⟨first, last, range.elim id fun runs => ahead e mem first last runs laid, laid⟩
  refine ⟨?_, fun e mem => ?_⟩
  · let es := Edits.carriedOut 0 edits.inOrder
    have among : ∀ e ∈ es, e ∈ edits := fun e mem => Edits.mem_inOrder.mp (Edits.mem_of_mem_carriedOut mem)
    have left : out = Edits.overlay es 0 p.source := by
      obtain ⟨edits', found', done⟩ := bind_eq_ok.mp done
      cases found.symm.trans found'
      cases done
      refine Edits.applyTo_eq_overlay fun e mem => ?_
      obtain ⟨first, last, -, less, a, z, opens, ends, rfl⟩ := laid e mem
      exact (isRead.spares_tokens less opens ends).blanks.toOverwrites
    subst left
    have slashes' : KeepsSlashes (fun t => !Edits.covered es t.start) p.tokens.toList :=
      slashes.congr fun t mem => getElem?_overlay_token isRead (Array.mem_toList_iff.mp mem)
    have span := span_of_overwrites fun e mem =>
      (laid e (among e mem)).imp fun _ => Exists.imp fun _ => And.right
    obtain ⟨tokens, rescanned, same⟩ := scan_overlay scanned span slashes'
    have laid' : ∀ e ∈ es, ∃ first last, p.Balanced first last ∧ p.Overwrites e first last :=
      fun e mem => laid e (among e mem)
    obtain ⟨partners, matched'⟩ := @exists_partners_of_filter _ tokens _
      (fun t => !Edits.covered es t.start) matched (fun i j a z pair here there => by
        have pair' := (isPairing_of_matched matched).symm i j pair
        have iff : Edits.covered es a.start = true ↔ Edits.covered es z.start = true :=
          ⟨covered_partner isRead matched laid' pair here there,
            covered_partner isRead matched laid' pair' there here⟩
        rw [Bool.eq_iff_iff.mpr iff]) (by
        have symbols := congrArg (List.map Token.symbol) same
        rwa [List.map_map, List.map_map] at symbols)
    exact ⟨tokens, partners, rescanned, matched'⟩
  · obtain ⟨first, last, balanced, laid⟩ := laid e mem
    exact ⟨first, last, laid, balanced.nested matched laid.last_le_size⟩

/-- An interface and an assertion in front of a slash leave both brackets and the slash as they are. -/
theorem erase_keeps_brackets_interface :
    let source := "interface A \x7b b: C \x7d\ny = x as A / 2;".toList
    let out := "                    \ny = x      / 2;".toList
    erase source = .ok out ∧ ∃ left partners, scan out = .ok left ∧ matchBrackets left = .ok partners := by
  intro source out
  let p : Program := ⟨source, #[
    ⟨.ident, 0, "interface", false, []⟩, ⟨.ident, 10, "A", false, []⟩, ⟨.punct, 12, openBrace, false, []⟩,
    ⟨.ident, 14, "b", false, []⟩, ⟨.punct, 15, ":", false, []⟩, ⟨.ident, 17, "C", false, []⟩,
    ⟨.punct, 19, closeBrace, false, []⟩, ⟨.ident, 21, "y", true, []⟩, ⟨.punct, 23, "=", false, []⟩,
    ⟨.ident, 25, "x", false, []⟩, ⟨.ident, 27, "as", false, []⟩, ⟨.ident, 30, "A", false, []⟩,
    ⟨.punct, 32, "/", false, []⟩, ⟨.number, 34, "2", false, []⟩, ⟨.punct, 35, ";", false, []⟩],
    #[none, none, some 6, none, none, none, some 2, none, none, none, none, none, none, none, none]⟩
  have read : Program.ofSource source = .ok p := by
    unfold source p
    cbv
  have done : erase source = .ok out := by
    unfold source out
    cbv
  have found : editsOf source = .ok [⟨27, 31, none⟩, ⟨0, 20, none⟩] := by
    unfold source
    cbv
  have isRead := Program.isRead_of_ofSource read
  have plain : IsPlain source := by
    unfold source IsPlain
    decide +kernel
  have assertion : p.Overwrites ⟨27, 31, none⟩ 10 12 :=
    ⟨by decide, ⟨.ident, 27, "as", false, []⟩, ⟨.ident, 30, "A", false, []⟩, rfl, rfl, by decide⟩
  have interface : p.Overwrites ⟨0, 20, none⟩ 0 7 :=
    ⟨by decide, ⟨.ident, 0, "interface", false, []⟩, ⟨.punct, 19, closeBrace, false, []⟩, rfl, rfl, by decide⟩
  refine ⟨done, (erase_keeps_brackets read done found plain ?whole ?ahead ?slashes).1⟩
  case whole =>
    simp only [List.forall_mem_cons]
    exact ⟨assertion.not_cutsToken isRead, interface.not_cutsToken isRead, by simp⟩
  case ahead =>
    simp only [List.forall_mem_cons]
    refine ⟨fun first last _ laid => ?_, fun first last _ laid => ?_, by simp⟩
    · obtain ⟨rfl, rfl⟩ := assertion.unique isRead laid
      exact .plain rfl rfl (.plain rfl rfl (.refl 12))
    · obtain ⟨rfl, rfl⟩ := interface.unique isRead laid
      exact .plain rfl rfl (.plain rfl rfl (.bracket rfl rfl (show p.Balanced 7 7 from .refl 7)))
  case slashes =>
    unfold p out
    decide +kernel

/-- The head of an interface without a body runs past the end of the block around it, to the braces of the
next block, and a bracket is left that is never closed; and a slash that divided by what stood in front of
an alias starts a regular expression when the alias is gone, or the other way around. -/
theorem erase_breaks_brackets :
    (let out := "\x7b                  ".toList
     erase "\x7b interface A \x7d \x7b \x7d".toList = .ok out ∧
       ∃ left, scan out = .ok left ∧ matchBrackets left = .error ⟨0, .neverClosed openBrace⟩) ∧
    (let out := "foo\n           \n/\x7d/.test(x)".toList
     erase "foo\ntype A = B;\n/\x7d/.test(x)".toList = .ok out ∧
       scan out = .error ⟨18, .unterminatedRegex⟩) := by
  refine ⟨⟨by cbv, _, by cbv, ?_⟩, by cbv, by cbv⟩
  cbv

end ModuleLinker
