import ModuleLinker.Source.Imports
import ModuleLinker.Specifier
import ModuleLinker.Text.Search

/-!
# Execution engines

What compiles and runs modules. The loader never looks into a source itself: it hands executable
sources to an engine, asks the compiled unit for its static imports, and leaves running to the engine
once everything is linked.
-/

set_option autoImplicit false

namespace ModuleLinker

open Text

/-- What a module is told about itself. -/
structure ModuleInfo where
  /-- The specifier of the module. -/
  url : Specifier
  /-- Whether it is the entry of the run. -/
  main : Bool
  deriving DecidableEq, Repr

/-- An engine with compiled modules of type `U` whose runs give values of type `V`. Each operation
can fail with a message. -/
structure Engine (U V : Type) where
  /-- Compiles an executable source; the text is the name it is known by. -/
  compile : (source identifier : String) → ModuleInfo → Except String U
  /-- The references of the static imports of a unit, in order. -/
  imports : U → Except String (List String)
  /-- Runs a unit. -/
  evaluate : U → Except String V

/-- A module whose structure has been read. -/
structure Inspected where
  /-- What the module is told about itself. -/
  info : ModuleInfo
  /-- The references of its static imports. -/
  imports : List String
  deriving DecidableEq, Repr

/-- What is reported of a module instead of running it. -/
structure Inspection where
  /-- The specifier of the module. -/
  url : String
  /-- Whether it is the entry of the run. -/
  main : Bool
  /-- The references of its static imports. -/
  imports : List String
  deriving DecidableEq, Repr

namespace Engine

/-- The engine that reads the structure of modules and runs nothing. -/
def inspector : Engine Inspected Inspection where
  compile source identifier info :=
    match staticImports source with
    | .ok imports => .ok ⟨info, imports⟩
    | .error e => .error (e.complaint.message ++ " in " ++ identifier)
  imports unit := .ok unit.imports
  evaluate unit := .ok ⟨unit.info.url.text, unit.info.main, unit.imports⟩

/-- The inspector with marks in the source of a module that make single operations on it fail, for
trying out how a run takes a failure of its engine. -/
def marked : Engine (String × Inspected) Inspection where
  compile source identifier info :=
    if occursIn "@@reject".toList source.toList then .error "SyntaxError: unexpected token '@@'"
    else (inspector.compile source identifier info).map (source, ·)
  imports unit :=
    if occursIn "@@imports".toList unit.1.toList then .error "imports unavailable"
    else inspector.imports unit.2
  evaluate unit :=
    if occursIn "throw".toList unit.1.toList then .error "Error: boom"
    else inspector.evaluate unit.2

end Engine

end ModuleLinker
