import ModuleLinker.Source.Brackets
import ModuleLinker.Proofs.Source.Tokens

/-!
# Complaints point into the text

A complaint of the scanner is about the start of a token, of a comment or of a template literal, and a
complaint about brackets is about one of them; so each points to a place of the text, its end included
(`PointsInto`).
-/

set_option autoImplicit false

namespace ModuleLinker

open Lexeme

/-- The rest of a text behind its next character. -/
theorem drop_of_drop_eq_cons {source cs : List Char} {pos : Nat} {c : Char}
    (rest : source.drop pos = c :: cs) (n : Nat) : source.drop (pos + 1 + n) = cs.drop n := by
  rw [← List.drop_drop, ← List.drop_drop, rest, List.drop_succ_cons, List.drop_zero]

theorem lt_length_of_drop_eq_cons {source cs : List Char} {pos : Nat} {c : Char}
    (rest : source.drop pos = c :: cs) : source.length = pos + cs.length + 1 := by
  have length := congrArg List.length rest
  rw [List.length_drop, List.length_cons] at length
  omega

/-- Whether a failure is about a place of a text. -/
def PointsInto {α : Type} (x : Except SourceError α) (source : List Char) : Prop :=
  ∀ e, x = .error e → e.offset ≤ source.length

namespace PointsInto

variable {α β : Type} {source : List Char} {x y : Except SourceError α}

theorem ok (a : α) : PointsInto (.ok a) source := fun _ same => by cases same

theorem error {e : SourceError} (le : e.offset ≤ source.length) :
    PointsInto (.error e : Except SourceError α) source :=
  fun _ same => Except.error.inj same ▸ le

theorem bind {f : α → Except SourceError β} (first : PointsInto x source)
    (rest : ∀ a, x = .ok a → PointsInto (f a) source) : PointsInto (x >>= f) source := by
  cases x with
  | error e => exact error (first e rfl)
  | ok a => exact rest a rfl

theorem ite {c : Prop} [Decidable c] (ifSo : c → PointsInto x source) (ifNot : ¬ c → PointsInto y source) :
    PointsInto (if c then x else y) source := by
  split
  case isTrue holds => exact ifSo holds
  case isFalse fails => exact ifNot fails

end PointsInto

/-! ## Scanning -/

section

variable {source : List Char}

mutual

theorem template_pointsInto {pos start : Nat} {cs : List Char} (rest : source.drop pos = cs)
    (le : start ≤ source.length) (holes : List Hole) :
    PointsInto (template start pos holes cs) source := by
  cases cs with
  | nil =>
    rw [template]
    exact .error le
  | cons c cs =>
    have behind := drop_of_drop_eq_cons rest
    have inside := lt_length_of_drop_eq_cons rest
    have second : source.drop (pos + 2) = cs.drop 1 := behind 1
    rw [template]
    refine .ite (fun _ => .ok _) fun _ => .ite (fun _ => template_pointsInto second le holes) fun _ => ?_
    refine .ite (fun _ => ?_) fun _ => template_pointsInto (behind 0) le holes
    refine (substitution_pointsInto second le 0).bind fun close closes => ?_
    obtain ⟨past, less⟩ := substitution_spec closes
    have there : close + 1 = pos + 2 + (close - (pos + 2) + 1) := by omega
    refine template_pointsInto ?_ le _
    rw [there, ← List.drop_drop, second]
termination_by source.length - pos

theorem substitution_pointsInto {pos start : Nat} {cs : List Char} (rest : source.drop pos = cs)
    (le : start ≤ source.length) (depth : Nat) :
    PointsInto (substitution start pos depth cs) source := by
  cases cs with
  | nil =>
    unfold substitution
    exact .error le
  | cons c cs =>
    have behind := drop_of_drop_eq_cons rest
    have inside := lt_length_of_drop_eq_cons rest
    have further (n : Nat) := substitution_pointsInto (behind n) le depth
    unfold substitution
    dsimp only
    refine .ite (fun _ => substitution_pointsInto (behind 0) le _) fun _ => .ite (fun _ => ?_) fun _ => ?_
    · cases depth with
      | zero => exact .ok _
      | succ outer => exact substitution_pointsInto (behind 0) le outer
    refine .ite (fun _ => ?_) fun _ => .ite (fun _ => ?_) fun _ => ?_
    · cases quotedLength? c 0 cs with
      | none => exact .error (by change pos ≤ _; omega)
      | some n => exact further n
    · refine (template_pointsInto (behind 0) (by omega) []).bind fun (stop, holes) ends => ?_
      have past := (template_spec ends).1
      have there : stop = pos + 1 + (stop - (pos + 1)) := by omega
      refine substitution_pointsInto ?_ le depth
      rw [there, behind, Nat.add_sub_cancel_left]
    · exact .ite (fun _ => further _) fun _ => .ite (fun _ => further _) fun _ => further 0
termination_by source.length - pos

end

theorem gap_pointsInto {pos : Nat} {cs : List Char} (rest : source.drop pos = cs) (before : Gap) :
    PointsInto (gap pos before cs) source := by
  cases cs with
  | nil =>
    rw [gap]
    exact .ok _
  | cons c cs =>
    have behind := drop_of_drop_eq_cons rest
    have inside := lt_length_of_drop_eq_cons rest
    rw [gap]
    refine .ite (fun _ => gap_pointsInto (behind 0) _) fun _ => ?_
    refine .ite (fun _ => gap_pointsInto (behind 0) _) fun _ => ?_
    refine .ite (fun _ => gap_pointsInto (behind _) _) fun _ => .ite (fun _ => ?_) fun _ => .ok _
    cases blockLength? 1 (cs.drop 1) with
    | none => exact .error (by change pos ≤ _; omega)
    | some n => exact gap_pointsInto (behind n) _
termination_by source.length - pos

theorem extent_pointsInto {pos : Nat} {c : Char} {cs : List Char} (rest : source.drop pos = c :: cs)
    (regexAllowed : Bool) : PointsInto (extent regexAllowed pos c cs) source := by
  have inside := lt_length_of_drop_eq_cons rest
  have here : pos ≤ source.length := by omega
  unfold extent
  dsimp only
  refine .ite (fun _ => ?_) fun _ => .ite (fun _ => ?_) fun _ => .ite (fun _ => .ok _) fun _ => ?_
  · cases quotedLength? c 0 cs with
    | none => exact .error here
    | some n => exact .ok _
  · exact (template_pointsInto (drop_of_drop_eq_cons rest 0) here []).bind fun _ _ => .ok _
  refine .ite (fun _ => .ite (fun _ => .ok _) fun _ => .error here) fun _ => .ite (fun _ => ?_) fun _ => ?_
  · cases regexLength? false 0 cs with
    | none => exact .error here
    | some n => exact .ok _
  refine .ite (fun _ => .ok _) fun _ => ?_
  cases operator? (c :: cs) with
  | none => exact .error here
  | some op => exact .ok _

theorem scanFrom_pointsInto {pos : Nat} {cs : List Char} (rest : source.drop pos = cs) (done : Array Token) :
    PointsInto (scanFrom done pos cs) source := by
  rw [scanFrom]
  refine (gap_pointsInto rest _).bind fun space _ => ?_
  split
  case h_1 => exact .ok _
  case h_2 c more place =>
    have there : source.drop (pos + space.length) = c :: more := by rw [← List.drop_drop, rest, place]
    have inside := lt_length_of_drop_eq_cons there
    refine (extent_pointsInto there _).bind fun found _ => ?_
    exact scanFrom_pointsInto (drop_of_drop_eq_cons there _) _
termination_by source.length - pos

theorem scan_pointsInto (source : List Char) : PointsInto (scan source) source :=
  scanFrom_pointsInto rfl _

end

/-! ## Brackets -/

section

variable {source : List Char}

/-- A bracket is read, and those that are open afterwards are among the ones before and itself. -/
theorem BracketState.readAll_pointsInto {s : BracketState} {i : Nat} {ts : List Token}
    (opened : ∀ o ∈ s.opened, o.2.start ≤ source.length) (starts : ∀ t ∈ ts, t.start ≤ source.length) :
    PointsInto (s.readAll i ts) source ∧
      ∀ s', s.readAll i ts = .ok s' → ∀ o ∈ s'.opened, o.2.start ≤ source.length := by
  induction ts generalizing s i with
  | nil => exact ⟨.ok s, fun s' same => Except.ok.inj same ▸ opened⟩
  | cons t ts ih =>
    rw [List.forall_mem_cons] at starts
    have first : PointsInto (s.read i t) source ∧
        ∀ s', s.read i t = .ok s' → ∀ o ∈ s'.opened, o.2.start ≤ source.length := by
      unfold read
      split
      · exact ⟨.ok _, fun s' same => Except.ok.inj same ▸ List.forall_mem_cons.mpr ⟨starts.1, opened⟩⟩
      split
      · split
        case h_1 j o outer open' =>
          rw [open', List.forall_mem_cons] at opened
          split
          · exact ⟨.ok _, fun s' same => Except.ok.inj same ▸ opened.2⟩
          · exact ⟨.error starts.1, fun s' same => by cases same⟩
        case h_2 => exact ⟨.error starts.1, fun s' same => by cases same⟩
      · exact ⟨.ok _, fun s' same => Except.ok.inj same ▸ opened⟩
    rw [readAll]
    refine ⟨first.1.bind fun s' read => (ih (first.2 s' read) starts.2).1, fun s'' same => ?_⟩
    obtain ⟨s', read, same⟩ := bind_eq_ok.mp same
    exact (ih (first.2 s' read) starts.2).2 s'' same

theorem matchBrackets_pointsInto {tokens : Array Token} (pieces : ArePieces tokens.toList source) :
    PointsInto (matchBrackets tokens) source := by
  have starts : ∀ t ∈ tokens.toList, t.start ≤ source.length := by
    intro t mem
    have piece := (pieces.pieces t mem).piece.length_le
    have less := (pieces.pieces t mem).less
    rw [List.length_drop, String.length_toList] at piece
    unfold Token.stop at less
    omega
  obtain ⟨points, ends⟩ := BracketState.readAll_pointsInto (s := ⟨[], Array.replicate tokens.size none⟩)
    (i := 0) (fun _ mem => by cases mem) starts
  refine points.bind fun s done => ?_
  cases opened : s.opened with
  | nil => exact .ok _
  | cons o outer => exact .error (ends s done o (opened ▸ List.mem_cons_self))

end

end ModuleLinker
