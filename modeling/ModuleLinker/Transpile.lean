import ModuleLinker.Erase
import ModuleLinker.Error
import ModuleLinker.Media

/-!
# Executable sources

What a module's source becomes before it runs. Declaration files have no content at run time, types
are erased, markup is refused, and everything else runs as it is.
-/

set_option autoImplicit false

namespace ModuleLinker

/-- The executable source of a module. -/
def transpile (specifier : String) (source : String) : MediaType → Except LoadError String
  | .dts => .ok ""
  | .jsx | .tsx => .error (.transpile specifier ⟨1, 1⟩ "JSX syntax is not supported")
  | .typeScript =>
    match erase source.toList with
    | .ok code => .ok (String.ofList code)
    | .error (.rejected e) =>
      .error (.transpile specifier (.ofOffset source.toList e.offset) e.complaint.message)
    | .error .counterOverflow => .error .counterOverflow
  | .javaScript | .json | .unknown => .ok source

end ModuleLinker
