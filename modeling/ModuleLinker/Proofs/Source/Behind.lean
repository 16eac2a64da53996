import Mathlib
import ModuleLinker.Proofs.Source.Spelling
import ModuleLinker.Proofs.Source.Tokens

/-!
# Scanning a text behind another one

A text gives the same tokens behind another text as it gives alone, only that they stand further on
(`scanFrom_behind`). What tokens there are before it matters for a slash alone, which starts a
regular expression behind some tokens and divides behind others.
-/

set_option autoImplicit false

namespace ModuleLinker

/-- The same substitution in a text that has `n` more characters in front. -/
def Hole.shifted (h : Hole) (n : Nat) : Hole := { h with start := h.start + n }

/-- The same token in a text that has `n` more characters in front. -/
def Token.shifted (t : Token) (n : Nat) : Token :=
  { t with start := t.start + n, holes := t.holes.map (·.shifted n) }

namespace Lexeme

/-- A gap is the same at another place. -/
theorem gap_shifted (n : Nat) {pos : Nat} {before space : Gap} {cs : List Char}
    (done : gap pos before cs = .ok space) : gap (pos + n) before cs = .ok space := by
  fun_induction gap pos before cs with
  | case1 => rwa [gap]
  | case2 pos before c cs ends ih =>
    rw [gap, if_pos ends, Nat.add_right_comm]
    exact ih done
  | case3 pos before c cs other blank ih =>
    rw [gap, if_neg other, if_pos blank, Nat.add_right_comm]
    exact ih done
  | case4 pos before c cs other other' line length ih =>
    rw [gap, if_neg other, if_neg other', if_pos line]
    have place : pos + n + 1 + length = pos + 1 + length + n := by omega
    rw [← ih done, ← place]
  | case5 => cases done
  | case6 pos before c cs other other' other'' block k found newline ih =>
    rw [gap, if_neg other, if_neg other', if_neg other'', if_pos block, found]
    have place : pos + n + 1 + k = pos + 1 + k + n := by omega
    rw [← ih done, ← place]
  | case7 pos before c cs other other' other'' noBlock =>
    rwa [gap, if_neg other, if_neg other', if_neg other'', if_neg noBlock]

/-- A gap only grows. -/
theorem le_length_gap {pos : Nat} {before space : Gap} {cs : List Char}
    (done : gap pos before cs = .ok space) : before.length ≤ space.length := by
  fun_induction gap pos before cs with
  | case1 =>
    cases done
    exact Nat.le_refl _
  | case2 pos before c cs ends ih => exact Nat.le_of_succ_le (ih done)
  | case3 pos before c cs other blank ih => exact Nat.le_of_succ_le (ih done)
  | case4 pos before c cs other other' line length ih =>
    exact Nat.le_trans (by dsimp only; omega) (ih done)
  | case5 => cases done
  | case6 pos before c cs other other' other'' block k found newline ih =>
    exact Nat.le_trans (by dsimp only; omega) (ih done)
  | case7 =>
    cases done
    exact Nat.le_refl _

/-- Whether a text starts with a blank or with a comment. -/
def startsGap : List Char → Bool
  | [] => false
  | c :: cs =>
    Text.isBlank c || c = '\ufeff' || (c = '/' && (cs.head? == some '/' || cs.head? == some '*'))

/-- There is no gap in front of a text that starts with neither. -/
theorem gap_of_startsGap {cs : List Char} (noGap : startsGap cs = false) (pos : Nat) (before : Gap) :
    gap pos before cs = .ok before := by
  cases cs with
  | nil => rw [gap]
  | cons c cs =>
    obtain ⟨noBlank, noComment⟩ := Bool.or_eq_false_iff.mp noGap
    rw [Bool.and_or_distrib_left, Bool.or_eq_false_iff] at noComment
    obtain ⟨noLine, noBlock⟩ := noComment
    have noEnd : Text.isLineEnd c = false := by
      rw [Bool.eq_false_iff]
      intro ends
      rw [Text.isBlank_of_isLineEnd ends] at noBlank
      cases noBlank
    rw [gap, noEnd, noBlank, noLine, noBlock]
    rfl

/-- Where there is no gap in front of a text, it starts with neither. -/
theorem startsGap_of_length_eq {pos : Nat} {before space : Gap} {cs : List Char}
    (done : gap pos before cs = .ok space) (same : space.length = before.length) :
    startsGap cs = false := by
  cases cs with
  | nil => rfl
  | cons c cs =>
    have longer {k pos : Nat} {newline : Bool} {cs : List Char}
        (goesOn : gap pos ⟨before.length + 1 + k, newline⟩ cs = .ok space) : False := by
      have le := le_length_gap goesOn
      dsimp only at le
      omega
    rw [gap] at done
    split at done
    case isTrue => exact (longer (k := 0) done).elim
    case isFalse noEnd =>
    split at done
    case isTrue => exact (longer (k := 0) done).elim
    case isFalse noBlank =>
    split at done
    case isTrue => exact (longer done).elim
    case isFalse noLine =>
    split at done
    case isTrue =>
      split at done
      · cases done
      · exact (longer done).elim
    case isFalse noBlock =>
      refine Bool.or_eq_false_iff.mpr ⟨Bool.eq_false_iff.mpr noBlank, ?_⟩
      rw [Bool.and_or_distrib_left, Bool.or_eq_false_iff]
      exact ⟨Bool.eq_false_iff.mpr noLine, Bool.eq_false_iff.mpr noBlock⟩

mutual

/-- A template literal is the same at another place. -/
theorem template_shifted (n : Nat) {start pos stop : Nat} {holes holes' : List Hole} {cs : List Char}
    (done : template start pos holes cs = .ok (stop, holes')) :
    template (start + n) (pos + n) (holes.map (·.shifted n)) cs =
      .ok (stop + n, holes'.map (·.shifted n)) := by
  cases cs with
  | nil =>
    rw [template] at done
    cases done
  | cons c cs =>
    rw [template] at done ⊢
    split at done
    case isTrue mark =>
      cases done
      rw [if_pos mark, List.map_reverse, Nat.add_right_comm]
    case isFalse noMark =>
    rw [if_neg noMark]
    split at done
    case isTrue escape =>
      rw [if_pos escape, Nat.add_right_comm]
      exact template_shifted n done
    case isFalse noEscape =>
    rw [if_neg noEscape]
    split at done
    case isTrue opens =>
      obtain ⟨close, closes, done⟩ := bind_eq_ok.mp done
      have inner := substitution_shifted n closes
      have rest := template_shifted n done
      have first : pos + n + 2 = pos + 2 + n := Nat.add_right_comm ..
      have length : close + n - (pos + 2 + n) = close - (pos + 2) := Nat.add_sub_add_right ..
      have last : close + n + 1 = close + 1 + n := Nat.add_right_comm ..
      rw [if_pos opens]
      refine bind_eq_ok.mpr ⟨close + n, first ▸ inner, ?_⟩
      rw [first, length, last]
      exact rest
    case isFalse noOpens =>
    rw [if_neg noOpens, Nat.add_right_comm]
    exact template_shifted n done
termination_by cs.length

/-- A substitution is the same at another place. -/
theorem substitution_shifted (n : Nat) {start pos depth close : Nat} {cs : List Char}
    (done : substitution start pos depth cs = .ok close) :
    substitution (start + n) (pos + n) depth cs = .ok (close + n) := by
  cases cs with
  | nil =>
    rw [substitution] at done
    cases done
  | cons c cs =>
    have next : pos + n + 1 = pos + 1 + n := Nat.add_right_comm ..
    have further (k : Nat) : pos + n + 1 + k = pos + 1 + k + n := by omega
    unfold substitution at done ⊢
    dsimp only at done ⊢
    split at done
    case isTrue opens =>
      rw [if_pos opens, next]
      exact substitution_shifted n done
    case isFalse noOpens =>
    rw [if_neg noOpens]
    split at done
    case isTrue closes =>
      rw [if_pos closes]
      cases depth with
      | zero =>
        cases done
        rfl
      | succ outer =>
        dsimp only at done ⊢
        rw [next]
        exact substitution_shifted n done
    case isFalse noCloses =>
    rw [if_neg noCloses]
    split at done
    case isTrue quote =>
      rw [if_pos quote]
      split at done
      case h_1 => cases done
      case h_2 k found =>
        rw [further]
        exact substitution_shifted n done
    case isFalse noQuote =>
    rw [if_neg noQuote]
    split at done
    case isTrue mark =>
      obtain ⟨⟨stop, holes⟩, ends, done⟩ := bind_eq_ok.mp done
      have inner := template_shifted n ends
      have rest := substitution_shifted n done
      have length : stop + n - (pos + 1 + n) = stop - (pos + 1) := Nat.add_sub_add_right ..
      rw [if_pos mark]
      refine bind_eq_ok.mpr ⟨(stop + n, holes.map (·.shifted n)), next ▸ inner, ?_⟩
      dsimp only
      rw [next, length]
      exact rest
    case isFalse noMark =>
    rw [if_neg noMark]
    split at done
    case isTrue line =>
      rw [if_pos line, further]
      exact substitution_shifted n done
    case isFalse noLine =>
    rw [if_neg noLine]
    split at done
    case isTrue block =>
      rw [if_pos block, further]
      exact substitution_shifted n done
    case isFalse noBlock =>
      rw [if_neg noBlock, next]
      exact substitution_shifted n done
termination_by cs.length

end

/-- The same extent in a text that has `n` more characters in front. -/
def Extent.shifted (e : Extent) (n : Nat) : Extent := { e with holes := e.holes.map (·.shifted n) }

/-- A token is cut off in the same way at another place. -/
theorem extent_shifted (n : Nat) {allowed : Bool} {pos : Nat} {c : Char} {cs : List Char}
    {found : Extent} (done : extent allowed pos c cs = .ok found) :
    extent allowed (pos + n) c cs = .ok (found.shifted n) := by
  unfold extent at done ⊢
  dsimp only at done ⊢
  split at done
  case isTrue quote =>
    rw [if_pos quote]
    split at done
    · cases done
    · cases done
      rfl
  case isFalse noQuote =>
  rw [if_neg noQuote]
  split at done
  case isTrue mark =>
    obtain ⟨⟨stop, holes⟩, ends, done⟩ := bind_eq_ok.mp done
    cases done
    have inner := template_shifted n ends
    rw [Nat.add_right_comm] at inner
    rw [if_pos mark]
    refine bind_eq_ok.mpr ⟨_, inner, ?_⟩
    have length : stop + n - (pos + n + 1) = stop - (pos + 1) := by omega
    dsimp only
    rw [length]
    rfl
  case isFalse noMark =>
  rw [if_neg noMark]
  split at done
  case isTrue number =>
    rw [if_pos number]
    cases done
    rfl
  case isFalse noNumber =>
  rw [if_neg noNumber]
  split at done
  case isTrue hash =>
    rw [if_pos hash]
    split at done
    case isTrue name =>
      rw [if_pos name]
      cases done
      rfl
    case isFalse => cases done
  case isFalse noHash =>
  rw [if_neg noHash]
  split at done
  case isTrue slash =>
    rw [if_pos slash]
    split at done
    · cases done
    · cases done
      rfl
  case isFalse noSlash =>
  rw [if_neg noSlash]
  split at done
  case isTrue name =>
    rw [if_pos name]
    cases done
    rfl
  case isFalse noName =>
  rw [if_neg noName]
  split at done
  · cases done
  · cases done
    rfl

/-- Only at a slash does it matter whether a regular expression may start. -/
theorem extent_of_ne_slash {c : Char} (other : c ≠ '/') (allowed allowed' : Bool) (pos : Nat)
    (cs : List Char) : extent allowed pos c cs = extent allowed' pos c cs := by
  unfold extent
  simp only [other, decide_false, Bool.false_and]

/-- A slash where a regular expression may start starts one. -/
theorem kind_of_slash {pos : Nat} {cs : List Char} {found : Extent}
    (done : extent true pos '/' cs = .ok found) : found.kind = .regex := by
  have noMark : '/' ≠ templateMark := by decide
  unfold extent at done
  simp only [noMark, Char.reduceEq, decide_false, Bool.or_self, Bool.false_eq_true, if_false,
    Bool.false_and, Bool.or_false, decide_true, Bool.and_self, if_true, Char.reduceIsDigit] at done
  split at done
  · cases done
  · cases done
    rfl

end Lexeme

open Lexeme

/-- Scanning goes on behind other tokens, at another place, with the same tokens further on. -/
theorem scanFrom_behind {before tokens : Array Token} {pos : Nat} {cs : List Char}
    (done : scanFrom before pos cs = .ok tokens) : ∃ more : Array Token, tokens = before ++ more ∧
      ∀ (n : Nat) (before' : Array Token),
        regexAllowedAfter before'.back? = regexAllowedAfter before.back? →
          scanFrom before' (pos + n) cs = .ok (before' ++ more.map (·.shifted n)) := by
  rw [scanFrom] at done
  obtain ⟨space, between, done⟩ := bind_eq_ok.mp done
  split at done
  case h_1 none =>
    cases done
    refine ⟨#[], by simp, fun n before' _ => ?_⟩
    rw [scanFrom, gap_shifted n between]
    simp only [bind, Except.bind]
    split
    case h_1 => simp
    case h_2 c more some =>
      rw [none] at some
      cases some
  case h_2 c more some =>
    obtain ⟨found, cut, done⟩ := bind_eq_ok.mp done
    let token : Token := ⟨found.kind, pos + space.length, String.ofList (c :: more.take found.more),
      space.newline, found.holes⟩
    have shorter : (more.drop found.more).length < cs.length := by
      have length := congrArg List.length some
      rw [List.length_drop, List.length_cons] at length
      rw [List.length_drop]
      omega
    obtain ⟨later, rfl, behind⟩ := scanFrom_behind done
    refine ⟨#[token] ++ later, ?_, fun n before' same => ?_⟩
    · rw [Array.push_eq_append, Array.append_assoc]
    · have place : pos + n + space.length = pos + space.length + n := Nat.add_right_comm ..
      have next : pos + space.length + n + 1 + found.more = pos + space.length + 1 + found.more + n := by
        omega
      have cut' := extent_shifted n cut
      rw [← same, ← place] at cut'
      rw [scanFrom_cons (gap_shifted n between) some cut', place]
      dsimp only [Extent.shifted]
      rw [next, behind n]
      · simp [token, Token.shifted]
      · rw [Array.back?_push, Array.back?_push]
        rfl
termination_by cs.length
decreasing_by exact shorter

/-- The same token behind a line end and `n` characters, where it is the token number `i` of its own
text. -/
def Token.placed (n i : Nat) (t : Token) : Token :=
  { t.shifted n with newlineBefore := i == 0 || t.newlineBefore }

/-- A text that starts with a token gives the same tokens on the line behind other tokens. -/
theorem scanFrom_lineFeed {source : List Char} {tokens : Array Token} {first : Token}
    (scanned : scan source = .ok tokens) (found : tokens[0]? = some first) (start : first.start = 0)
    (plain : first.kind ≠ .regex) (before : Array Token) (pos : Nat) :
    scanFrom before pos ('\n' :: source) =
      .ok (before ++ tokens.mapIdx fun i t => t.placed (pos + 1) i) := by
  have skipped : interpreterLineLength source = 0 := by
    obtain ⟨allowed, c, more, extent, place, cut, -⟩ :=
      ((scan_pieces scanned).pieces first (Array.mem_of_getElem? found).val).cut
    unfold interpreterLineLength
    split
    case h_2 => rfl
    case h_1 cs =>
      rw [start] at place
      cases place
      cases cut
  rw [scan, skipped, List.drop_zero, scanFrom] at scanned
  obtain ⟨space, between, scanned⟩ := bind_eq_ok.mp scanned
  split at scanned
  case h_1 =>
    cases scanned
    cases found
  case h_2 c more some =>
    obtain ⟨cutOff, cut, scanned⟩ := bind_eq_ok.mp scanned
    obtain ⟨later, rfl, behind⟩ := scanFrom_behind scanned
    have isFirst : first = ⟨cutOff.kind, 0 + space.length, String.ofList (c :: more.take cutOff.more),
        space.newline, cutOff.holes⟩ := by simpa using found.symm
    have noSpace : space.length = 0 := by simpa [isFirst] using start
    have noSlash : c ≠ '/' := by
      rintro rfl
      exact plain (isFirst ▸ kind_of_slash cut)
    have whole : source = c :: more := by simpa [noSpace] using some
    rw [noSpace, Nat.zero_add] at cut behind
    have between' : gap pos ⟨0, false⟩ ('\n' :: source) = .ok ⟨1, true⟩ := by
      rw [gap, if_pos (by decide)]
      exact gap_of_startsGap (startsGap_of_length_eq between noSpace) ..
    have cut' := extent_shifted (pos + 1) cut
    rw [Nat.zero_add, extent_of_ne_slash noSlash _ (regexAllowedAfter before.back?)] at cut'
    have place : pos + 1 + 1 + cutOff.more = 0 + 1 + cutOff.more + (pos + 1) := by omega
    rw [scanFrom_cons between' (whole ▸ rfl) cut']
    dsimp only [Extent.shifted]
    rw [place, behind (pos + 1)]
    · have further : later.mapIdx (fun i t => t.placed (pos + 1) (i + 1)) =
          later.map (·.shifted (pos + 1)) := by
        apply Array.ext_getElem?
        intro i
        rw [Array.getElem?_mapIdx, Array.getElem?_map]
        rfl
      rw [Array.push_eq_append, Array.append_assoc, ← further, Array.push_eq_append,
        Array.empty_append, Array.mapIdx_append]
      simp [Token.placed, Token.shifted, noSpace]
    · rw [Array.back?_push, Array.back?_push]
      rfl

end ModuleLinker
