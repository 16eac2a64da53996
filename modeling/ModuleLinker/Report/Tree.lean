import ModuleLinker.Report.Modules
import ModuleLinker.Report.Style

/-!
# Dependency trees

The tree of what the modules of a report import, one line for each import. A module is shown in full,
with its own imports below it, where it is met first; everywhere else it only gets a mark.
-/

set_option autoImplicit false

namespace ModuleLinker.Report

/-- How a module is shown in a tree. -/
inductive Shown where
  /-- With its size, and with its imports below. -/
  | full (module : ModuleReport)
  /-- With a mark, since it is shown in full above. -/
  | again (module : ModuleReport)
  /-- As one that the report does not have. -/
  | missing
  deriving DecidableEq, Repr

/-- A line of a tree. -/
structure Line where
  /-- What stands in front of the module. -/
  lead : String
  /-- The specifier of the module. -/
  specifier : String
  /-- How the module is shown. -/
  shown : Shown
  deriving DecidableEq, Repr

/-- A place in a tree. -/
structure Branch where
  /-- What stands in front of the module. -/
  lead : String
  /-- What stands in front of everything below it. -/
  below : String
  /-- The specifier of the module. -/
  specifier : String
  deriving DecidableEq, Repr

/-- The places of the imports of a module, below a text. -/
def branches (below : String) : List String → List Branch
  | [] => []
  | [s] => [⟨below ++ "└── ", below ++ "    ", s⟩]
  | s :: more => ⟨below ++ "├── ", below ++ "│   ", s⟩ :: branches below more

/-- The module with a specifier. -/
def module? (modules : List ModuleReport) (specifier : String) : Option ModuleReport :=
  modules.find? (·.specifier == specifier)

/-- The modules that have not been shown in full. -/
def unshown (modules : List ModuleReport) (shown : List String) : List ModuleReport :=
  modules.filter fun r => !shown.contains r.specifier

/-- Showing a module in full leaves fewer that have not been. -/
theorem length_unshown_cons_lt {modules : List ModuleReport} {s : String} {shown : List String}
    {r : ModuleReport} (fresh : ¬ shown.contains s = true) (found : module? modules s = some r) :
    (unshown modules (s :: shown)).length < (unshown modules shown).length := by
  have same : r.specifier = s := by simpa using List.find?_some found
  have step : unshown modules (s :: shown) =
      (unshown modules shown).filter fun r => r.specifier != s := by
    unfold unshown
    rw [List.filter_filter]
    refine List.filter_congr fun r _ => ?_
    by_cases same : r.specifier = s <;> simp [same]
  rw [step, List.length_filter_lt_length_iff_exists]
  refine ⟨r, ?_, by simp [same]⟩
  unfold unshown
  rw [List.mem_filter]
  exact ⟨List.mem_of_find?_eq_some found, by simpa [same] using fresh⟩

/-- The lines of some places and of what is below them. -/
def linesFrom (modules : List ModuleReport) :
    (places : List Branch) → (shown : List String) → List Line
  | [], _ => []
  | place :: places, shown =>
    match _found : module? modules place.specifier with
    | none => ⟨place.lead, place.specifier, .missing⟩ :: linesFrom modules places shown
    | some r =>
      if _fresh : shown.contains place.specifier then
        ⟨place.lead, place.specifier, .again r⟩ :: linesFrom modules places shown
      else
        ⟨place.lead, place.specifier, .full r⟩ ::
          linesFrom modules (branches place.below r.dependencies ++ places)
            (place.specifier :: shown)
termination_by places shown => ((unshown modules shown).length, places.length)
decreasing_by
  · exact Prod.Lex.right _ (by simp)
  · exact Prod.Lex.right _ (by simp)
  · exact Prod.Lex.left _ _ (length_unshown_cons_lt _fresh _found)

/-- The lines of the tree of a report. -/
def treeLines (report : GraphReport) : List Line :=
  linesFrom report.modules [⟨"", "", report.entry⟩] []

/-- The name of a module in a tree; its state is told unless it is linked. -/
def label (specifier : String) (r : ModuleReport) : String :=
  if r.state = .linked then styled .cyan specifier
  else styled .red (specifier ++ " (" ++ r.state.name ++ ")")

/-- A line as it is shown. -/
def Line.text (line : Line) : String :=
  line.lead ++
    match line.shown with
    | .full r =>
      label line.specifier r ++ " " ++
        styled .dimmed ("(" ++ r.media.name ++ ", " ++ sizeText r.size ++ ")")
    | .again r => label line.specifier r ++ " " ++ styled .dimmed "*"
    | .missing => line.specifier ++ " " ++ styled .red "(missing)"

end ModuleLinker.Report
