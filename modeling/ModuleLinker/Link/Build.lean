import ModuleLinker.Graph
import ModuleLinker.Link.Work
import ModuleLinker.Transpile

/-!
# Records from sources

How the source of a module becomes a record, and how the references in it become the modules it
imports. References are resolved in order, and the first one that leads nowhere is the one that is
told; of several references to one module the first one counts.
-/

set_option autoImplicit false

namespace ModuleLinker.Link

variable {U V : Type}

/-- The executable source of a module, and the work of making it. -/
def executable (s : Specifier) (source : String) : Except LoadError String × List Work :=
  if s.media.needsTranspile then (transpile s.text source s.media, [.transpile s])
  else (.ok source, [])

/-- Compiles a module, and tells the work of it. -/
def compile (engine : Engine U V) (s : Specifier) (isEntry : Bool) (raw code : String) :
    Except LoadError (Record U) × List Work :=
  match engine.compile code s.text ⟨s, isEntry⟩ with
  | .error message => (.error (.link s.text message), [.compile s])
  | .ok unit =>
    (.ok ⟨s, raw, code, s.media, .unlinked, isEntry, unit, []⟩, [.compile s, .compiled s])

/-- The record of a module with a source, and the work of making it. -/
def build (engine : Engine U V) (s : Specifier) (isEntry : Bool) (raw : String) :
    Except LoadError (Record U) × List Work :=
  match executable s raw with
  | (.error e, work) => (.error e, work)
  | (.ok code, work) =>
    let (record, more) := compile engine s isEntry raw code
    (record, work ++ more)

/-- The modules that references lead to from a module, after the ones in `found`. -/
def resolveFrom (base : Specifier) (found : List Specifier) :
    List String → Except LoadError (List Specifier)
  | [] => .ok found
  | reference :: more =>
    match Specifier.resolve reference base with
    | .error e => .error e
    | .ok s => resolveFrom base (if found.contains s then found else found ++ [s]) more

/-- The modules that references lead to from a module. -/
def resolveAll (base : Specifier) (references : List String) :
    Except LoadError (List Specifier) := resolveFrom base [] references

/-- The modules that a record imports. -/
def importsOf (engine : Engine U V) (r : Record U) : Except LoadError (List Specifier) :=
  match engine.imports r.unit with
  | .error message => .error (.link r.specifier.text message)
  | .ok references => resolveAll r.specifier references

end ModuleLinker.Link
