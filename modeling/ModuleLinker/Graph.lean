import ModuleLinker.Engine
import ModuleLinker.Media

/-!
# Module graphs

The modules of a run, by specifier. There is at most one record of a module: the first one that is
put in stays. The walk lists the records that can be reached from the entry, depth first, each one
before what it imports.
-/

set_option autoImplicit false

namespace ModuleLinker

/-- How far a module has come. -/
inductive LinkState where
  /-- Compiled, and in no graph yet. -/
  | unlinked
  /-- In the graph, while its imports are being looked at. -/
  | linking
  /-- All its imports are in the graph. -/
  | linked
  /-- The module or one of its imports could not be loaded. -/
  | failed
  deriving DecidableEq, Repr

namespace LinkState

/-- The name of a state in a report. -/
def key : LinkState → String
  | unlinked => "unlinked"
  | linking => "linking"
  | linked => "linked"
  | failed => "failed"

/-- The name of a state as it is shown. -/
def name : LinkState → String
  | unlinked => "Unlinked"
  | linking => "Linking"
  | linked => "Linked"
  | failed => "Failed"

/-- The state that a report knows by a name. -/
def ofKey? (key : String) : Option LinkState :=
  [unlinked, linking, linked, failed].find? (·.key == key)

end LinkState

/-- What is known about a module. -/
structure Record (U : Type) where
  /-- The specifier of the module. -/
  specifier : Specifier
  /-- The source as it was read or retrieved. -/
  rawSource : String
  /-- The source that the engine was given. -/
  executableSource : String
  /-- The media type. -/
  media : MediaType
  /-- How far the module has come. -/
  state : LinkState
  /-- Whether it is the entry of the run. -/
  isEntry : Bool
  /-- The compiled module. -/
  unit : U
  /-- The modules it imports, in order. -/
  dependencies : List Specifier

/-- The modules of a run. -/
structure Graph (U : Type) where
  /-- The module the run starts from. -/
  entry : Specifier
  /-- The records, in the order in which they were put in. -/
  records : List (Record U)

namespace Graph

variable {U : Type}

/-- The graph without modules. -/
def empty (entry : Specifier) : Graph U := ⟨entry, []⟩

/-- The record of a module. -/
def get? (g : Graph U) (s : Specifier) : Option (Record U) :=
  g.records.find? fun r => r.specifier == s

/-- Whether there is a record of a module. -/
def contains (g : Graph U) (s : Specifier) : Bool := (g.get? s).isSome

/-- How far a module has come. -/
def state? (g : Graph U) (s : Specifier) : Option LinkState := (g.get? s).map (·.state)

/-- The number of records. -/
def size (g : Graph U) : Nat := g.records.length

/-- The modules, in the order of their specifiers. -/
def specifiers (g : Graph U) : List Specifier :=
  (g.records.map (·.specifier)).mergeSort fun a b => a.text ≤ b.text

/-- A record as it is once it is in a graph. -/
def admitted (r : Record U) : Record U :=
  if r.state = .unlinked then { r with state := .linking } else r

/-- Puts a record in, unless there is one of its module. -/
def insert (g : Graph U) (r : Record U) : Graph U :=
  if g.contains r.specifier then g else { g with records := g.records ++ [admitted r] }

/-- Changes the record of a module. -/
def modify (g : Graph U) (s : Specifier) (f : Record U → Record U) : Graph U :=
  { g with records := g.records.map fun r => if r.specifier == s then f r else r }

/-- Changes how far a module has come. -/
def setState (g : Graph U) (s : Specifier) (state : LinkState) : Graph U :=
  g.modify s fun r => { r with state := state }

/-- Changes what a module imports. -/
def setDependencies (g : Graph U) (s : Specifier) (dependencies : List Specifier) : Graph U :=
  g.modify s fun r => { r with dependencies := dependencies }

/-- Whether there are records and all of them are linked. -/
def isFullyLinked (g : Graph U) : Bool :=
  !g.records.isEmpty && g.records.all fun r => r.state == .linked

/-- The records of modules that have not been visited. -/
def unvisited (g : Graph U) (visited : List Specifier) : List (Record U) :=
  g.records.filter fun r => !visited.contains r.specifier

/-- Visiting one more module takes its record away from the unvisited ones. -/
theorem unvisited_cons (g : Graph U) (s : Specifier) (visited : List Specifier) :
    g.unvisited (s :: visited) = (g.unvisited visited).filter fun r => r.specifier != s := by
  unfold unvisited
  rw [List.filter_filter]
  refine List.filter_congr fun r _ => ?_
  by_cases same : r.specifier = s <;> simp [same]

/-- Visiting one more module leaves no more records unvisited. -/
theorem length_unvisited_cons_le (g : Graph U) (s : Specifier) (visited : List Specifier) :
    (g.unvisited (s :: visited)).length ≤ (g.unvisited visited).length := by
  rw [unvisited_cons]
  exact List.length_filter_le ..

/-- Visiting a module that has a record and was not visited leaves fewer records unvisited. -/
theorem length_unvisited_cons_lt (g : Graph U) {s : Specifier} {visited : List Specifier}
    {r : Record U} (fresh : ¬ visited.contains s = true) (found : g.get? s = some r) :
    (g.unvisited (s :: visited)).length < (g.unvisited visited).length := by
  have same : r.specifier = s := by simpa using List.find?_some found
  rw [unvisited_cons, List.length_filter_lt_length_iff_exists]
  refine ⟨r, ?_, by simp [same]⟩
  unfold unvisited
  rw [List.mem_filter]
  exact ⟨List.mem_of_find?_eq_some found, by simpa [same] using fresh⟩

/-- The records that can be reached from the modules of a stack without passing the visited ones. -/
def walkFrom (g : Graph U) : (stack visited : List Specifier) → List (Record U)
  | [], _ => []
  | s :: stack, visited =>
    if _fresh : visited.contains s then walkFrom g stack visited
    else
      match _found : g.get? s with
      | none => walkFrom g stack (s :: visited)
      | some r => r :: walkFrom g (r.dependencies ++ stack) (s :: visited)
termination_by stack visited => ((g.unvisited visited).length, stack.length)
decreasing_by
  · exact Prod.Lex.right _ (by simp)
  · rcases Nat.lt_or_eq_of_le (g.length_unvisited_cons_le s visited) with fewer | same
    · exact Prod.Lex.left _ _ fewer
    · rw [same]
      exact Prod.Lex.right _ (by simp)
  · exact Prod.Lex.left _ _ (g.length_unvisited_cons_lt _fresh _found)

/-- The records that can be reached from the entry, each one once and before what it imports. -/
def walk (g : Graph U) : List (Record U) := g.walkFrom [g.entry] []

end Graph

/-- Runs the entry of a linked graph. -/
def Engine.evaluateEntry {U V : Type} (engine : Engine U V) (g : Graph U) : Except LoadError V :=
  match g.get? g.entry with
  | none => .error (.link g.entry.text "entry module is not in the graph")
  | some r =>
    if r.state = .linked then
      match engine.evaluate r.unit with
      | .ok v => .ok v
      | .error message => .error (.evaluation g.entry.text message)
    else
      .error (.link g.entry.text ("entry module is " ++ r.state.name ++ ", not linked"))

end ModuleLinker
