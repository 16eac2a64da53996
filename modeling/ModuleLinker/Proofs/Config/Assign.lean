import Mathlib.Data.List.Basic
import ModuleLinker.Config

/-!
# Assignments of settings

What an assignment does to the settings, as a map from settings to their values (`Config.value`). Whether
it is accepted depends on its key and its text alone (`Config.accepts`): an accepted one gives its
setting the value that the text stands for and leaves the others as they are
(`Config.exists_assign_of_accepts`). Of several assignments those before the first one that is refused
are made, and of the assignments of one setting the last one counts (`Config.value_assignAll`).
-/

set_option autoImplicit false

namespace ModuleLinker.Config

/-- What a setting can be. -/
def Setting.Value : Setting → Type
  | .cacheDirectory => Option String
  | .fetchTimeout | .connectTimeout | .maxFetches => Nat
  | .userAgent => String
  | .traceAccess => Bool

/-- The value of a setting. -/
def value (c : Config) : (s : Setting) → s.Value
  | .cacheDirectory => c.cacheDirectory
  | .fetchTimeout => c.fetchTimeout
  | .connectTimeout => c.connectTimeout
  | .maxFetches => c.maxFetches
  | .userAgent => c.userAgent
  | .traceAccess => c.traceAccess

/-- The settings with another value of one of them. -/
def put (c : Config) : (s : Setting) → s.Value → Config
  | .cacheDirectory, a => { c with cacheDirectory := a }
  | .fetchTimeout, a => { c with fetchTimeout := a }
  | .connectTimeout, a => { c with connectTimeout := a }
  | .maxFetches, a => { c with maxFetches := a }
  | .userAgent, a => { c with userAgent := a }
  | .traceAccess, a => { c with traceAccess := a }

/-- The value that a text stands for as one of a setting, or why it is refused. -/
def Setting.parse : (s : Setting) → String → Except LoadError s.Value
  | .cacheDirectory, text => .ok (some text)
  | .fetchTimeout, text => parsed readCount? (key .fetchTimeout) text
  | .connectTimeout, text => parsed readCount? (key .connectTimeout) text
  | .maxFetches, text => do
    let n ← parsed readCount? (key .maxFetches) text
    if n = 0 then .error (.config "max_concurrent_fetches must be at least 1") else .ok n
  | .userAgent, text => .ok text
  | .traceAccess, text => parsed readFlag? (key .traceAccess) text

variable {c c' : Config} {s t : Setting} {key text : String}

/-! ## Values -/

theorem eq_of_value (same : ∀ s, c.value s = c'.value s) : c = c' := by
  have cacheDirectory : c.cacheDirectory = c'.cacheDirectory := same .cacheDirectory
  have fetchTimeout : c.fetchTimeout = c'.fetchTimeout := same .fetchTimeout
  have connectTimeout : c.connectTimeout = c'.connectTimeout := same .connectTimeout
  have maxFetches : c.maxFetches = c'.maxFetches := same .maxFetches
  have userAgent : c.userAgent = c'.userAgent := same .userAgent
  have traceAccess : c.traceAccess = c'.traceAccess := same .traceAccess
  cases c
  cases c'
  simp_all

theorem value_put_self (c : Config) (a : s.Value) : (c.put s a).value s = a := by
  cases s <;> rfl

theorem value_put_of_ne (c : Config) (a : s.Value) (other : s ≠ t) :
    (c.put s a).value t = c.value t := by
  cases s <;> cases t <;> first | rfl | exact absurd rfl other

theorem bind_eq_map {α β : Type} (x : Except LoadError α) (f : α → β) :
    (x >>= fun a => .ok (f a)) = x.map f := by
  cases x <;> rfl

/-- A setting is given the value that a text stands for. -/
theorem change_eq (c : Config) (s : Setting) (text : String) :
    c.change s text = (s.parse text).map (c.put s) := by
  cases s with
  | cacheDirectory => rfl
  | fetchTimeout => exact bind_eq_map _ _
  | connectTimeout => exact bind_eq_map _ _
  | maxFetches =>
    show (parsed readCount? (Setting.key .maxFetches) text >>= fun n =>
      if n = 0 then .error _ else .ok (c.put .maxFetches n)) =
        Except.map _ (parsed readCount? (Setting.key .maxFetches) text >>= fun n =>
          if n = 0 then .error _ else .ok n)
    cases parsed readCount? (Setting.key .maxFetches) text with
    | error e => rfl
    | ok n =>
      show (if n = 0 then _ else _) = Except.map _ (if n = 0 then _ else _)
      split <;> rfl
  | userAgent => rfl
  | traceAccess => exact bind_eq_map _ _

/-- No text stands for no fetches at a time. -/
theorem one_le_of_parse {n : Nat} (read : Setting.parse .maxFetches text = .ok n) : 1 ≤ n := by
  have read : (parsed readCount? (Setting.key .maxFetches) text >>= fun n =>
    if n = 0 then .error (.config "max_concurrent_fetches must be at least 1") else .ok n) =
      .ok n := read
  cases here : parsed readCount? (Setting.key .maxFetches) text with
  | error e =>
    rw [here] at read
    cases read
  | ok n' =>
    rw [here] at read
    have read : (if n' = 0 then .error _ else .ok n') = Except.ok n := read
    split at read
    case isTrue => cases read
    case isFalse some =>
      cases read
      exact Nat.one_le_iff_ne_zero.mpr some

/-! ## One assignment -/

/-- Whether an assignment is accepted. -/
def accepts (assignment : String × String) : Bool :=
  match Setting.ofKey? assignment.1 with
  | some s => (s.parse assignment.2).toBool
  | none => true

/-- The value that an assignment gives to a setting; `none` where it is one of another setting, or is
refused. -/
def given? (s : Setting) (assignment : String × String) : Option s.Value :=
  if Setting.ofKey? assignment.1 = some s then (s.parse assignment.2).toOption else none

/-- An assignment that is accepted gives its setting its value and leaves the others as they are. -/
theorem exists_assign_of_accepts (c : Config) (accepted : accepts (key, text) = true) :
    ∃ c', c.assign key text = .ok c' ∧ ∀ s, c'.value s = (given? s (key, text)).getD (c.value s) := by
  unfold accepts at accepted
  unfold assign given?
  dsimp only at accepted ⊢
  cases known : Setting.ofKey? key with
  | none => exact ⟨c, rfl, fun s => rfl⟩
  | some t =>
    rw [known] at accepted
    dsimp only at accepted ⊢
    rw [change_eq]
    cases read : t.parse text with
    | error e => rw [read] at accepted; cases accepted
    | ok a =>
      refine ⟨c.put t a, rfl, fun s => ?_⟩
      by_cases same : t = s
      · subst same
        rw [if_pos rfl, read]
        exact value_put_self c a
      · rw [if_neg fun here => same (Option.some.inj here)]
        exact value_put_of_ne c a same

/-- An assignment that is not accepted is refused for a reason that does not depend on the settings. -/
theorem exists_refused (refused : accepts (key, text) = false) :
    ∃ e, ∀ c : Config, c.assign key text = .error e := by
  unfold accepts at refused
  unfold assign
  dsimp only at refused
  cases known : Setting.ofKey? key with
  | none => rw [known] at refused; cases refused
  | some s =>
    rw [known] at refused
    dsimp only at refused ⊢
    cases read : s.parse text with
    | error e =>
      refine ⟨e, fun c => ?_⟩
      rw [change_eq, read]
      rfl
    | ok a => rw [read] at refused; cases refused

theorem accepts_iff : accepts (key, text) = true ↔ ∃ c', c.assign key text = .ok c' := by
  constructor
  · intro accepted
    obtain ⟨c', made, -⟩ := exists_assign_of_accepts c accepted
    exact ⟨c', made⟩
  · rintro ⟨c', made⟩
    by_contra refused
    obtain ⟨e, all⟩ := exists_refused ((Bool.not_eq_true _).mp refused)
    rw [all c] at made
    cases made

/-! ## Several assignments -/

/-- The value that the last one of some assignments gives to a setting. -/
def last? (s : Setting) (assignments : List (String × String)) : Option s.Value :=
  (assignments.filterMap (given? s)).getLast?

/-- The assignments that are made: those before the first one that is refused. -/
def effective (assignments : List (String × String)) : List (String × String) :=
  assignments.takeWhile accepts

theorem last?_append (s : Setting) (assignments more : List (String × String)) :
    last? s (assignments ++ more) = (last? s more).or (last? s assignments) := by
  rw [last?, List.filterMap_append, List.getLast?_append]
  rfl

theorem last?_cons (s : Setting) (assignment : String × String)
    (assignments : List (String × String)) :
    last? s (assignment :: assignments) = (last? s assignments).or (given? s assignment) := by
  rw [← List.singleton_append, last?_append]
  congr 1
  unfold last?
  cases here : given? s assignment with
  | none => rw [List.filterMap_cons_none here]; rfl
  | some a => rw [List.filterMap_cons_some here]; rfl

/-- Each setting has the value of its last assignment that is made, if any is. -/
theorem value_assignAll (c : Config) (assignments : List (String × String)) (s : Setting) :
    (c.assignAll assignments).1.value s = (last? s (effective assignments)).getD (c.value s) := by
  induction assignments generalizing c with
  | nil => rfl
  | cons assignment assignments ih =>
    obtain ⟨key, text⟩ := assignment
    unfold effective
    rw [assignAll]
    by_cases accepted : accepts (key, text) = true
    · obtain ⟨c', made, values⟩ := exists_assign_of_accepts c accepted
      rw [made, List.takeWhile_cons_of_pos accepted, last?_cons]
      show (c'.assignAll assignments).1.value s = ((last? s (effective assignments)).or _).getD _
      rw [ih c', values s]
      cases last? s (effective assignments) <;> rfl
    · obtain ⟨e, refused⟩ := exists_refused ((Bool.not_eq_true _).mp accepted)
      rw [refused c, List.takeWhile_cons_of_neg accepted]
      rfl

/-- Assignments that are all accepted are all made. -/
theorem assignAll_eq_none_iff {assignments : List (String × String)} :
    (c.assignAll assignments).2 = none ↔ ∀ assignment ∈ assignments, accepts assignment = true := by
  induction assignments generalizing c with
  | nil => simp [assignAll]
  | cons assignment assignments ih =>
    obtain ⟨key, text⟩ := assignment
    rw [assignAll, List.forall_mem_cons]
    by_cases accepted : accepts (key, text) = true
    · obtain ⟨c', made, -⟩ := exists_assign_of_accepts c accepted
      rw [made]
      dsimp only
      rw [ih]
      exact (and_iff_right accepted).symm
    · obtain ⟨e, refused⟩ := exists_refused ((Bool.not_eq_true _).mp accepted)
      rw [refused c]
      exact ⟨fun none => (by cases none), fun all => absurd all.1 accepted⟩

/-- Where an assignment is refused, those before it have been made, and nothing else. -/
theorem exists_split_of_refused {assignments : List (String × String)} {e : LoadError}
    (refused : (c.assignAll assignments).2 = some e) :
    ∃ before key text after, assignments = before ++ (key, text) :: after ∧
      c.assignAll before = ((c.assignAll assignments).1, none) ∧
      (c.assignAll assignments).1.assign key text = .error e := by
  induction assignments generalizing c with
  | nil => cases refused
  | cons assignment assignments ih =>
    obtain ⟨key, text⟩ := assignment
    rw [assignAll] at refused ⊢
    cases here : c.assign key text with
    | error e' =>
      rw [here] at refused
      cases refused
      exact ⟨[], key, text, assignments, rfl, rfl, here⟩
    | ok c' =>
      rw [here] at refused
      obtain ⟨before, key', text', after, split, made, none⟩ := ih refused
      refine ⟨(key, text) :: before, key', text', after, by rw [split]; rfl, ?_, none⟩
      rw [assignAll, here]
      exact made

end ModuleLinker.Config
