import ModuleLinker.Proofs.Checked.Walk
import ModuleLinker.Proofs.Erase.Overlay

/-!
# Erasing types, with checks

The eraser as a whole, with checks: a text is taken apart and walked through, the edits are put in order
and carried out, where every part of the text that goes to the output is cut out of it. No check fails,
apart from that of the value of an enum member that counts on from the greatest 64-bit integer
(`checked`).
-/

set_option autoImplicit false

namespace ModuleLinker

open Erase

namespace Checked

/-- The edits that erase the types of a source text. -/
def editsOf (source : List Char) : Checked Edits := do
  let p ← ofSource source
  let hole (h : Hole) : Checked Edits :=
    if h.text.length < source.length then editsOf h.text else crash (.standstill h.start)
  let s ← walk p hole p.tokens.size (fun _ => pure false) ⟨0, []⟩
  pure s.edits
termination_by source.length

/-- A text from a place on, with a list of edits carried out; an edit that starts before the place is
left out. -/
def applyFrom (source : List Char) (cursor : Nat) : List Edit → Checked (List Char)
  | [] => between source cursor source.length
  | e :: es =>
    if e.start < cursor then applyFrom source cursor es
    else do
      let front ← between source cursor e.start
      let range ← between source e.start e.stop
      let rest ← applyFrom source e.stop es
      pure (front ++ e.apply range ++ rest)

/-- A source text without its types. -/
def erase (source : List Char) : Checked (List Char) := do
  let edits ← editsOf source
  applyFrom source 0 edits.inOrder

/-- No check fails where edits that lie in a text are carried out. -/
theorem applyFrom_eq {source : List Char} {cursor : Nat} {es : List Edit}
    (inside : ∀ e ∈ es, e.IsInside source.length) (le : cursor ≤ source.length) :
    applyFrom source cursor es = pure (Edits.applyFrom cursor (source.drop cursor) es) := by
  induction es generalizing cursor with
  | nil =>
    rw [applyFrom, between_eq le (Nat.le_refl _), ← List.length_drop, List.take_length]
    rfl
  | cons e es ih =>
    obtain ⟨first, others⟩ := List.forall_mem_cons.mp inside
    rw [applyFrom, Edits.applyFrom]
    split
    case isTrue => exact ih others le
    case isFalse reached =>
      have start : cursor ≤ e.start := Nat.le_of_not_lt reached
      have rest : (source.drop cursor).drop (e.start - cursor) = source.drop e.start := by
        rw [List.drop_drop, Nat.add_sub_cancel' start]
      have behind : (source.drop e.start).drop (e.stop - e.start) = source.drop e.stop := by
        rw [List.drop_drop, Nat.add_sub_cancel' first.inOrder]
      rw [between_eq start (Nat.le_trans first.inOrder first.within), pure_bind,
        between_eq first.inOrder first.within, pure_bind, ih others first.within, pure_bind, rest]
      dsimp only
      rw [behind]

/-- A substitution is shorter than the text that it lies in. -/
theorem length_hole_lt {p : Program} (read : p.IsRead) {t : Token} (token : t ∈ p.tokens) {h : Hole}
    (inside : h ∈ t.holes) : h.text.length < p.source.length := by
  obtain ⟨after, before, -⟩ := (read.piece token).holes h inside
  have within := read.stop_le_length token
  unfold Hole.stop at before
  omega

/-- A source text that cannot be taken apart has a fault at one of its places. -/
theorem ofSource_pointsInto (source : List Char) : PointsInto (Program.ofSource source) source :=
  (scan_pointsInto source).bind fun _ scanned =>
    (matchBrackets_pointsInto (scan_pieces scanned)).bind fun _ _ => .ok _

/-- No check fails where the edits of a text are found, apart from that of the value of an enum
member. -/
theorem editsOf_agrees (source : List Char) :
    Agrees source (editsOf source) (Erase.editsOf source) fun edits =>
      ∀ e ∈ edits, e.IsInside source.length := by
  have plain {α β : Type} (x : Except Failure α) (f : α → β) : x.map f = x >>= fun a => .ok (f a) := by
    cases x <;> rfl
  have agrees : Agrees source (editsOf source) (Erase.editsOf source) fun _ => True := by
    rw [editsOf, Erase.editsOf, ofSource_eq]
    cases opened : Program.ofSource source with
    | error e => exact .reject (ofSource_pointsInto source e opened)
    | ok p =>
      have sound := isSound_of_ofSource opened
      obtain ⟨rfl, -⟩ := Program.ofSource_eq_ok opened
      dsimp only
      rw [plain]
      refine (walk_agrees sound ?_ (fun _ => rfl) (Nat.le_refl _) (Nat.zero_le _)).bind fun s _ => .pure trivial
      intro t token h inside
      have shorter := length_hole_lt sound.read token inside
      rw [if_pos shorter, if_pos shorter]
      exact editsOf_agrees h.text
  exact { agrees with result := fun edits done => editsOf_inside done }
termination_by source.length

/-- No check fails where the types of a text are erased, apart from that of the value of an enum
member. -/
theorem erase_agrees (source : List Char) :
    Agrees source (erase source) (ModuleLinker.erase source) fun _ => True := by
  rw [erase, ModuleLinker.erase]
  refine (editsOf_agrees source).bind fun edits inside => ?_
  refine .of_eq (applyFrom_eq (fun e mem => inside e (Edits.mem_inOrder.mp mem)) (Nat.zero_le _)) trivial

end Checked

/-- Erasing the types of a text and looking for its imports run as they are meant to, whatever the text
is: with every index, every place to cut at and every number checked they give the same results, the
search for imports passes all checks, and erasing fails one exactly where it meets an enum member without
an initializer behind one whose value is the greatest 64-bit integer, by counting on from it. -/
theorem checks_hold (source : List Char) :
    Checked.staticImports source = Checked.ofScan (staticImports (String.ofList source)) ∧
      (Checked.erase source).outcome = (erase source).mapError Halt.ofFailure ∧
      ((∃ crash, (Checked.erase source).outcome = .error (.crashed crash)) ↔
        ∃ member ∈ (Checked.erase source).met, member.Overflows) ∧
      ∀ crash, (Checked.erase source).outcome = .error (.crashed crash) →
        crash = .integer (maxInteger + 1) := by
  obtain ⟨outcome, counter, -, -⟩ := Checked.erase_agrees source
  refine ⟨Checked.staticImports_eq source, outcome, ?_, ?_⟩
  · rw [outcome, ← counter]
    cases erase source with
    | ok out => exact ⟨fun ⟨_, same⟩ => (by cases same), fun same => by cases same⟩
    | error e =>
      cases e with
      | rejected e => exact ⟨fun ⟨_, same⟩ => (by cases same), fun same => by cases same⟩
      | counterOverflow => exact ⟨fun _ => rfl, fun _ => ⟨_, rfl⟩⟩
  · intro crash crashes
    rw [outcome] at crashes
    cases result : erase source with
    | ok out =>
      rw [result] at crashes
      cases crashes
    | error e =>
      rw [result] at crashes
      cases e with
      | rejected e => cases crashes
      | counterOverflow =>
        cases crashes
        rfl

/-- The member `C` counts on from the greatest 64-bit integer. -/
example :
    let run := Checked.erase "enum A \x7b B = 9223372036854775807, C \x7d".toList
    run.met = [⟨true, none⟩, ⟨false, some maxInteger⟩] ∧
      run.outcome = .error (.crashed (.integer 9223372036854775808)) := by
  decide +kernel

end ModuleLinker
