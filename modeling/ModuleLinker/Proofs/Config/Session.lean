import Mathlib.Data.List.Perm.Basic
import Mathlib.Data.List.TakeWhile
import ModuleLinker.Files.Volume
import ModuleLinker.Proofs.Config.Assign
import ModuleLinker.Proofs.Toml.Sorted

/-!
# Sessions of settings

What becomes of settings that are changed step by step: by single assignments, by the variables of an
environment and by settings files, all with arbitrary contents (`Config.sessions`). A step makes
assignments up to the first one that is refused, so that each setting keeps its value or has that of the
last assignment that has been made, and some fetches stay allowed at a time. Variables of an environment
that is accepted can come in another order, as long as those for one key do not.
-/

set_option autoImplicit false

namespace ModuleLinker.Config

open Files

/-- What is done to settings. -/
inductive Step where
  /-- One assignment is made. -/
  | assign (key text : String)
  /-- The assignments of an environment are made. -/
  | environment (listing : List (String × String))
  /-- The assignments of a settings file are made. -/
  | file (path : String) (disk : Volume)

/-- The text at a path. -/
def textAt (disk : Volume) (path : String) : Except FileFault String := (disk.read path).bind textOf

/-- The assignments in a settings file, in the order of their keys; none where it cannot be read. -/
def fileAssignments (disk : Volume) (path : String) : List (String × String) :=
  match textAt disk path with
  | .ok text => ((Toml.read? text).getD []).map fun (key, value) => (key, value.plainText)
  | .error _ => []

namespace Step

/-- The assignments that a step is to make. -/
def assignments : Step → List (String × String)
  | assign key text => [(key, text)]
  | environment listing => variableAssignments listing
  | file path disk => fileAssignments disk path

/-- The settings after a step, and why it has failed. -/
def run (c : Config) : Step → Config × Option LoadError
  | assign key text =>
    match c.assign key text with
    | .ok c => (c, none)
    | .error e => (c, some e)
  | environment listing => c.mergeEnvironment listing
  | file path disk => ((c.mergeFile path : StateM Volume (Config × Option LoadError)) disk).1

end Step

/-- The settings after some steps, whether they fail or not. -/
def after (c : Config) (steps : List Step) : Config := steps.foldl (fun c step => (step.run c).1) c

variable {c : Config} {step : Step}

/-! ## One step -/

theorem run_assign (c : Config) (key text : String) :
    (Step.assign key text).run c =
      match c.assign key text with
      | .ok c => (c, none)
      | .error e => (c, some e) :=
  rfl

theorem run_file (c : Config) (path : String) (disk : Volume) :
    (Step.file path disk).run c =
      match textAt disk path with
      | .ok text => c.mergeText path text
      | .error fault => (c, some (.io path fault)) := by
  show ((do
    match textAt disk path with
    | .ok text => return c.mergeText path text
    | .error fault => return (c, some (.io path fault)) : StateM Volume _) disk).1 = _
  cases textAt disk path <;> rfl

/-- A step makes its assignments, and fails if one of them is refused. Only a file without settings fails
otherwise. -/
theorem run_eq (c : Config) (step : Step) :
    (step.run c).1 = (c.assignAll step.assignments).1 ∧
      ((step.run c).2.isSome = (c.assignAll step.assignments).2.isSome ∨ step.assignments = []) := by
  cases step with
  | assign key text =>
    rw [run_assign, Step.assignments, assignAll]
    cases c.assign key text <;> exact ⟨rfl, .inl rfl⟩
  | environment listing => exact ⟨rfl, .inl rfl⟩
  | file path disk =>
    rw [run_file, Step.assignments, fileAssignments]
    cases textAt disk path with
    | error fault => exact ⟨rfl, .inr rfl⟩
    | ok text =>
      dsimp only
      delta mergeText
      cases Toml.read? text with
      | none => exact ⟨rfl, .inr rfl⟩
      | some entries => exact ⟨rfl, .inl (Option.isSome_map ..)⟩

/-- A step that fails has made the assignments before one that is refused, and nothing else. -/
theorem exists_split_of_failed (failed : (step.run c).2 ≠ none) :
    (step.assignments = [] ∧ (step.run c).1 = c) ∨
      ∃ before key text after e, step.assignments = before ++ (key, text) :: after ∧
        c.assignAll before = ((step.run c).1, none) ∧ (step.run c).1.assign key text = .error e := by
  obtain ⟨same, fails⟩ := run_eq c step
  rcases fails with fails | none
  · rw [Option.isSome_iff_ne_none.mpr failed] at fails
    obtain ⟨e, refused⟩ := Option.isSome_iff_exists.mp fails.symm
    obtain ⟨before, key, text, after, split, made, error⟩ := exists_split_of_refused refused
    rw [← same] at made error
    exact .inr ⟨before, key, text, after, e, split, made, error⟩
  · rw [none] at same
    exact .inl ⟨none, same⟩

/-- A step that does not fail has made all its assignments. -/
theorem assignAll_of_made (made : (step.run c).2 = none) :
    c.assignAll step.assignments = ((step.run c).1, none) := by
  obtain ⟨same, fails⟩ := run_eq c step
  rcases fails with fails | none
  · rw [made] at fails
    exact Prod.ext same.symm (Option.isSome_eq_false_iff.mp fails.symm |> Option.isNone_iff_eq_none.mp)
  · rw [none] at same ⊢
    exact Prod.ext same.symm rfl

/-- The keys of a settings file are in order. -/
theorem sorted_fileAssignments (disk : Volume) (path : String) :
    ((fileAssignments disk path).map (·.1)).Pairwise (· < ·) := by
  unfold fileAssignments
  cases textAt disk path with
  | error fault => exact List.Pairwise.nil
  | ok text =>
    dsimp only
    cases read : Toml.read? text with
    | none => exact List.Pairwise.nil
    | some entries =>
      rw [Option.getD_some, List.map_map, List.pairwise_map]
      exact Toml.isSorted_of_read? read

/-! ## Several steps -/

/-- Each setting has its value from the last assignment that has been made, if any has. -/
theorem value_after (c : Config) (steps : List Step) (s : Setting) :
    (c.after steps).value s =
      (last? s (steps.flatMap fun step => effective step.assignments)).getD (c.value s) := by
  induction steps generalizing c with
  | nil => rfl
  | cons step steps ih =>
    rw [List.flatMap_cons, last?_append]
    show ((step.run c).1.after steps).value s = _
    rw [ih, (run_eq c step).1, value_assignAll]
    cases last? s (steps.flatMap fun step => effective step.assignments) <;> rfl

/-- An assignment never allows no fetches at a time. -/
theorem one_le_of_last? {assignments : List (String × String)} {n : Nat}
    (last : last? .maxFetches assignments = some n) : 1 ≤ n := by
  obtain ⟨assignment, -, given⟩ := List.mem_filterMap.mp (List.mem_of_getLast? last)
  unfold given? at given
  split at given
  case isFalse => cases given
  case isTrue =>
    cases read : Setting.parse .maxFetches assignment.2 with
    | error e => rw [read] at given; cases given
    | ok n' =>
      rw [read] at given
      cases given
      exact one_le_of_parse read

/-- Some fetches stay allowed at a time. -/
theorem one_le_after (allowed : 1 ≤ c.maxFetches) (steps : List Step) :
    1 ≤ (c.after steps).maxFetches := by
  have value : (c.after steps).maxFetches = _ := value_after c steps .maxFetches
  rw [value]
  cases last : last? .maxFetches (steps.flatMap fun step => effective step.assignments) with
  | none => exact allowed
  | some n => exact one_le_of_last? last

/-! ## The order of an environment -/

variable {listing listing' : List (String × String)}

theorem ofKey?_eq_some {key : String} {s : Setting} (known : Setting.ofKey? key = some s) :
    s.key = key := by
  simpa using List.find?_some known

/-- The values that an environment gives to a setting are those of the entries for its key. -/
theorem filterMap_given? (s : Setting) (listing : List (String × String)) :
    (variableAssignments listing).filterMap (given? s) =
      (variableAssignments (listing.filter fun v => variableKey? v.1 = some s.key)).filterMap
        (given? s) := by
  unfold variableAssignments
  rw [List.filterMap_filterMap, List.filterMap_filterMap, List.filterMap_filter]
  refine List.filterMap_congr fun v _ => ?_
  by_cases same : variableKey? v.1 = some s.key
  · simp only [same, decide_true, if_true]
  · simp only [same, decide_false, Bool.false_eq_true, if_false]
    cases here : variableKey? v.1 with
    | none => rfl
    | some key =>
      show given? s (key, v.2) = none
      refine if_neg fun known => same ?_
      rw [here, ofKey?_eq_some known]

/-- An environment that is accepted can come in another order. -/
theorem mergeEnvironment_perm (perm : listing.Perm listing')
    (order : ∀ key, (listing.filter fun v => variableKey? v.1 = some key) =
      listing'.filter fun v => variableKey? v.1 = some key)
    (accepted : (c.mergeEnvironment listing).2 = none) :
    c.mergeEnvironment listing' = c.mergeEnvironment listing := by
  -- The assignments of both listings are all made, and those of one setting come in the same order.
  have all := assignAll_eq_none_iff.mp accepted
  have all' : ∀ assignment ∈ variableAssignments listing', accepts assignment = true :=
    fun assignment here => all assignment ((perm.filterMap _).mem_iff.mpr here)
  refine Prod.ext (eq_of_value fun s => ?_) ?_
  · show (c.assignAll _).1.value s = (c.assignAll _).1.value s
    rw [value_assignAll, value_assignAll, effective, effective,
      List.takeWhile_eq_self_iff.mpr all, List.takeWhile_eq_self_iff.mpr all', last?, last?,
      filterMap_given? s listing, filterMap_given? s listing', order s.key]
  · rw [accepted]
    exact assignAll_eq_none_iff.mpr all'

/-! ## Sessions -/

end ModuleLinker.Config
