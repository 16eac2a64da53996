import ModuleLinker.Erase.Step

/-!
# Erasing types

Plain code from code with types: what only states a type is overwritten with spaces, so that all
else keeps its line and column, and the few constructs with a meaning at run time are replaced by
code on their lines.
-/

set_option autoImplicit false

namespace ModuleLinker

open Erase

namespace Erase

/-- The edits that erase the types of a source text. A substitution is shorter than the text it lies
in; the test makes that evident. -/
def editsOf (source : List Char) : Except Failure Edits :=
  match Program.ofSource source with
  | .error e => .error (.rejected e)
  | .ok p =>
    let hole (h : Hole) : Except Failure Edits :=
      if h.text.length < source.length then editsOf h.text else .ok []
    (p.walk hole p.tokens.size nowhere ⟨0, []⟩).map (·.edits)
termination_by source.length

end Erase

/-- A source text without its types. -/
def erase (source : List Char) : Except Failure (List Char) := do
  let edits ← editsOf source
  .ok (edits.applyTo source)

end ModuleLinker
