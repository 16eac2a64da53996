import ModuleLinker.Proofs.Link.Deliver

/-!
# Imports one after another

Where modules are linked one after another, depth first, what is not settled is a stack of modules that
are being linked: of each one an import is under way, and nothing has been done for the imports behind
it (`Pending.within`). In a sweep over such a stack it is the turn of one import in the innermost module:
it waits, is settled, gets imports of its own or fails (`Skipping.sweep_wait`, `Skipping.sweep_settled`,
`Skipping.sweep_link`, `Skipping.sweep_fail`).
-/

set_option autoImplicit false

namespace ModuleLinker.Link

variable {U V σ : Type}

/-- A module that is being linked, whose imports up to one are settled. -/
structure Frame where
  /-- The module. -/
  module : Specifier
  /-- How failures among its imports are told. -/
  join : Join
  /-- The imports behind the one that is under way. -/
  rest : List Specifier

namespace Pending

/-- Imports in the innermost of some modules, which come from the innermost one on. -/
def within : List Frame → Pending → Pending
  | [], p => p
  | f :: outer, p => within outer (.linking f.module f.join p (ofList f.rest))

/-- How failures among the imports in the innermost of some modules are told. -/
def joinWithin : List Frame → Join
  | [] => .eager
  | f :: _ => f.join

/-- What is left when only some imports are left in the innermost of some modules. Modules without
imports that are left are finished. -/
def settle (finish : Specifier → σ → σ) : List Frame → List Specifier → σ → Pending × σ
  | frames, s :: more, a => (within frames (ofList (s :: more)), a)
  | [], [], a => (.nil, a)
  | f :: outer, [], a => settle finish outer f.rest (finish f.module a)

/-- Whether a failure among imports makes the module fail. -/
def FailsWith (e : LoadError) (join : Join) (out : Swept σ) : Prop :=
  out.1 = .error e ∨ (join = .ordered ∧ ∃ rest, out.1 = .ok (.held e rest))

theorem settle_cons (finish : Specifier → σ → σ) (frames : List Frame) (s : Specifier)
    (more : List Specifier) (a : σ) :
    settle finish frames (s :: more) a = (within frames (ofList (s :: more)), a) := by
  cases frames <;> rfl

theorem opens_ofList (s : Specifier) (more : List Specifier) : (ofList (s :: more)).opens = true := rfl

/-- Visits that pass over what nothing has been done for, from some states on. -/
structure Skipping (visit : Task → σ → Verdict × σ) (finish : Specifier → σ → σ) (met : σ → Prop) :
    Prop where
  skips : ∀ s a, met a → visit (.idle s) a = (.stay, a)
  finishes : ∀ s a, met a → met (finish s a)

namespace Skipping

variable {visit : Task → σ → Verdict × σ} {finish : Specifier → σ → σ} {met : σ → Prop}

/-- Imports that are passed over stay as they are. -/
theorem sweep_ofList (h : Skipping visit finish met) (join : Join) (imports : List Specifier) {a : σ}
    (here : met a) : sweep visit finish join (ofList imports) a = (.ok (ofList imports), a) := by
  induction imports with
  | nil => rfl
  | cons s more ih =>
    rw [ofList, sweep, h.skips s a here, judge, andThen, ih]
    rfl

/-- Imports that are not all settled are left in the innermost module. -/
theorem sweep_within_of_opens (h : Skipping visit finish met) {frames : List Frame} {p q : Pending}
    {a b : σ} (swept : sweep visit finish (joinWithin frames) p a = (.ok q, b))
    (opens : q.opens = true) (here : met b) :
    sweep visit finish .eager (within frames p) a = (.ok (within frames q), b) := by
  induction frames generalizing p q with
  | nil => exact swept
  | cons f outer ih =>
    refine ih (p := .linking f.module f.join p _) (q := .linking f.module f.join q _) ?_ rfl
    have swept : sweep visit finish f.join p a = (.ok q, b) := swept
    rw [sweep, swept, relink_of_opens opens, andThen, h.sweep_ofList _ _ here]
    rfl

/-- Where nothing has been done for the imports that are left, the modules without any are finished. -/
theorem sweep_within_of_settled (h : Skipping visit finish met) {frames : List Frame} {p : Pending}
    {left : List Specifier} {a b : σ}
    (swept : sweep visit finish (joinWithin frames) p a = (.ok (ofList left), b)) (here : met b) :
    sweep visit finish .eager (within frames p) a =
      (.ok (settle finish frames left b).1, (settle finish frames left b).2) := by
  induction frames generalizing p left b with
  | nil =>
    cases left with
    | nil => exact swept
    | cons s more => exact swept
  | cons f outer ih =>
    cases left with
    | cons s more =>
      rw [settle_cons]
      exact h.sweep_within_of_opens swept (opens_ofList s more) here
    | nil =>
      refine ih (p := .linking f.module f.join p _) ?_ (h.finishes f.module b here)
      have swept : sweep visit finish f.join p a = (.ok .nil, b) := swept
      rw [sweep, swept, relink, andThen, h.sweep_ofList _ _ (h.finishes f.module b here)]

/-- A failure among imports makes the module fail, or is held back in front of the others. -/
theorem failsWith_andThen (h : Skipping visit finish met) (join : Join) (imports : List Specifier)
    {a : σ} (e : LoadError) (here : met a) :
    FailsWith e join (andThen join (sweep visit finish join (ofList imports)) (.failed e, a)) ∧
      (andThen join (sweep visit finish join (ofList imports)) (.failed e, a)).2 = a := by
  cases join with
  | eager => exact ⟨.inl rfl, rfl⟩
  | ordered =>
    rw [andThen, h.sweep_ofList _ _ here]
    exact ⟨.inr ⟨rfl, _, rfl⟩, rfl⟩

/-- A failure in the innermost module is told. -/
theorem sweep_within_of_failed (h : Skipping visit finish met) {frames : List Frame} {p : Pending}
    {a b : σ} {e : LoadError} {out : Swept σ}
    (swept : sweep visit finish (joinWithin frames) p a = out)
    (failed : FailsWith e (joinWithin frames) out) (same : out.2 = b) (here : met b) :
    (sweep visit finish .eager (within frames p) a).1 = .error e := by
  induction frames generalizing p out with
  | nil =>
    rw [← swept] at failed
    exact failed.resolve_right fun ⟨same, _⟩ => nomatch same
  | cons f outer ih =>
    have swept : sweep visit finish f.join p a = out := swept
    have relinked : relink finish f.module f.join out = (.failed e, b) := by
      obtain ⟨left, b'⟩ := out
      cases same
      rcases failed with told | ⟨-, rest, told⟩
      · cases told
        rfl
      · cases told
        rfl
    have outside := h.failsWith_andThen (joinWithin outer) f.rest e here
    refine ih (p := .linking f.module f.join p _) ?_ outside.1 outside.2
    rw [sweep, swept, relinked]

/-! ### The import whose turn it is -/

section Turn

variable (frames : List Frame) (more : List Specifier) {t : Task} {a b : σ}

theorem sweep_front (join : Join) (rest : Pending) {v : Verdict} (verdict : visit t a = (v, b)) :
    sweep visit finish join (front t rest) a =
      andThen join (sweep visit finish join rest) (judge finish t.specifier (front t) (v, b)) := by
  rw [← verdict]
  cases t <;> rfl

/-- An import that has to wait is left in front of the others. -/
theorem sweep_wait (h : Skipping visit finish met) {owner : Bool}
    (verdict : visit t a = (.wait owner, b)) (here : met b) :
    sweep visit finish .eager (within frames (front t (ofList more))) a =
      (.ok (within frames (.waiting t.specifier owner (ofList more))), b) := by
  refine h.sweep_within_of_opens ?_ rfl here
  rw [sweep_front _ _ verdict, judge, andThen, h.sweep_ofList _ _ here]
  rfl

/-- Behind an import that is settled it is the turn of the next one. -/
theorem sweep_settled (h : Skipping visit finish met) (verdict : visit t a = (.settled, b))
    (here : met b) :
    sweep visit finish .eager (within frames (front t (ofList more))) a =
      (.ok (settle finish frames more b).1, (settle finish frames more b).2) := by
  refine h.sweep_within_of_settled ?_ here
  rw [sweep_front _ _ verdict, judge, andThen, h.sweep_ofList _ _ here]

/-- The imports of an import come before the imports behind it. -/
theorem sweep_link (h : Skipping visit finish met) {imports : List Specifier}
    (verdict : visit t a = (.link imports, b)) (here : met b) :
    let inner := ⟨t.specifier, .ofCount imports.length, more⟩ :: frames
    sweep visit finish .eager (within frames (front t (ofList more))) a =
      (.ok (settle finish inner imports b).1, (settle finish inner imports b).2) := by
  cases imports with
  | nil =>
    have after := h.finishes t.specifier b here
    refine h.sweep_within_of_settled ?_ after
    rw [sweep_front _ _ verdict, judge, ofList, relink, andThen, h.sweep_ofList _ _ after]
  | cons s imports =>
    dsimp only
    rw [settle_cons]
    refine h.sweep_within_of_opens
      (q := .linking t.specifier (.ofCount (s :: imports).length) _ (ofList more)) ?_ rfl here
    rw [sweep_front _ _ verdict, judge, relink_of_opens (opens_ofList s imports), andThen,
      h.sweep_ofList _ _ here]
    rfl

/-- The failure of an import is told. -/
theorem sweep_fail (h : Skipping visit finish met) {e : LoadError}
    (verdict : visit t a = (.fail e, b)) (here : met b) :
    (sweep visit finish .eager (within frames (front t (ofList more))) a).1 = .error e := by
  have outside := h.failsWith_andThen (joinWithin frames) more e here
  exact h.sweep_within_of_failed (sweep_front _ _ verdict) outside.1 outside.2 here

end Turn

end Skipping

end Pending

namespace Run

open Pending

/-- Bringing an outcome passes over what nothing has been done for. -/
theorem skipping_deliver (engine : Engine U V) (s : Specifier)
    (result : Except LoadError (Record U)) :
    Skipping (deliverVisit engine s result) finish fun _ => True where
  skips _ _ _ := rfl
  finishes _ _ _ := trivial

/-- Once an import has been met, the others are passed over. -/
theorem skipping_start : Skipping (startVisit (U := U)) finishFlagged fun state => state.2 = true where
  skips s state met := by
    obtain ⟨run, flag⟩ := state
    cases met
    rfl
  finishes _ _ met := met

/-- What is left in a run, beside a flag. -/
theorem settle_finishFlagged (frames : List Frame) (left : List Specifier) (run : Run U)
    (flag : Bool) :
    settle finishFlagged frames left (run, flag) =
      ((settle finish frames left run.graph).1,
        { run with graph := (settle finish frames left run.graph).2 }, flag) := by
  induction frames generalizing left run with
  | nil => cases left <;> rfl
  | cons f outer ih =>
    cases left with
    | cons s more => rfl
    | nil =>
      show settle finishFlagged outer f.rest (finishFlagged f.module (run, flag)) = _
      rw [finishFlagged, ih]
      rfl

end Run

end ModuleLinker.Link
