import ModuleLinker.Graph

/-!
# Reports of graphs

What is told of a graph and its modules to somebody outside: the records that can be reached from the
entry, without sources and compiled units.
-/

set_option autoImplicit false

namespace ModuleLinker

/-- What is reported of a module. -/
structure ModuleReport where
  /-- The specifier. -/
  specifier : String
  /-- How far the module has come. -/
  state : LinkState
  /-- The media type. -/
  media : MediaType
  /-- The number of bytes of its source as it was read or retrieved. -/
  size : Nat
  /-- The modules it imports, in order. -/
  dependencies : List String
  deriving DecidableEq, Repr

/-- What is reported of a graph. -/
structure GraphReport where
  /-- The module the run started from. -/
  entry : String
  /-- The modules that can be reached from it, in walk order. -/
  modules : List ModuleReport
  deriving DecidableEq, Repr

/-- The number of bytes of the sources of all modules in a report. -/
def GraphReport.size (r : GraphReport) : Nat :=
  r.modules.foldr (fun module size => module.size + size) 0

/-- The report of a record. -/
def Record.report {U : Type} (r : Record U) : ModuleReport :=
  ⟨r.specifier.text, r.state, r.media, r.rawSource.utf8ByteSize, r.dependencies.map (·.text)⟩

/-- The report of a graph. -/
def Graph.report {U : Type} (g : Graph U) : GraphReport := ⟨g.entry.text, g.walk.map (·.report)⟩

end ModuleLinker
