import ModuleLinker.Text.Search

/-!
# Media types

The kind of a module's source, told from the name of its file: declaration files first, then by what
follows the last dot, and plain code where there is no dot.
-/

set_option autoImplicit false

namespace ModuleLinker

open Text

/-- The kind of a module's source. -/
inductive MediaType where
  /-- Plain code. -/
  | javaScript
  /-- Code with types. -/
  | typeScript
  /-- Declarations without content at run time. -/
  | dts
  /-- Plain code with markup. -/
  | jsx
  /-- Code with types and markup. -/
  | tsx
  /-- Data. -/
  | json
  /-- Anything else. -/
  | unknown
  deriving DecidableEq, Repr

namespace MediaType

/-- The media type of a file, from its name. -/
def ofFileName (name : String) : MediaType :=
  let name := lower name.toList
  if ".d.ts".toList.isSuffixOf name || ".d.mts".toList.isSuffixOf name ||
      ".d.cts".toList.isSuffixOf name then .dts
  else
    match (afterLast? '.' name).map String.ofList with
    | none | some "js" | some "mjs" | some "cjs" => .javaScript
    | some "ts" | some "mts" | some "cts" => .typeScript
    | some "jsx" => .jsx
    | some "tsx" => .tsx
    | some "json" => .json
    | some _ => .unknown

/-- The media type of the file that a path leads to. -/
def ofPath (path : String) : MediaType :=
  ofFileName (String.ofList ((splitAt '/' path.toList).getLastD []))

/-- Whether sources of this type are transpiled before they run. -/
def needsTranspile : MediaType → Bool
  | typeScript | dts | jsx | tsx => true
  | _ => false

/-- The name of a media type as it is shown. -/
def name : MediaType → String
  | javaScript => "JavaScript"
  | typeScript => "TypeScript"
  | dts => "Dts"
  | jsx => "JSX"
  | tsx => "TSX"
  | json => "JSON"
  | unknown => "Unknown"

/-- The name of a media type in a report. -/
def key : MediaType → String
  | javaScript => "javascript"
  | typeScript => "typescript"
  | dts => "dts"
  | jsx => "jsx"
  | tsx => "tsx"
  | json => "json"
  | unknown => "unknown"

/-- All media types. -/
def all : List MediaType := [javaScript, typeScript, dts, jsx, tsx, json, unknown]

/-- The media type that is shown by a name. -/
def ofName? (name : String) : Option MediaType := all.find? (·.name == name)

end MediaType

end ModuleLinker
