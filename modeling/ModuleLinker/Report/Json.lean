import ModuleLinker.Report.Modules
import ModuleLinker.Text.Percent

/-!
# Reports as JSON

The report of a graph as indented JSON: two blanks for each level, one member or item on a line, and
nothing between the brackets of an empty list.
-/

set_option autoImplicit false

namespace ModuleLinker.Report

open Text

/-- A value of a report. -/
inductive Value where
  /-- A text. -/
  | text (value : String)
  /-- A number. -/
  | number (value : Nat)
  /-- A list. -/
  | list (items : List Value)
  /-- Values under names. -/
  | object (members : List (String × Value))

/-- A small hexadecimal digit. -/
def smallHexDigit (n : Nat) : Char := (hexDigit n).toLower

/-- What stands for a character between quotes. -/
def escapedChar (c : Char) : List Char :=
  match c with
  | '"' => ['\\', '"']
  | '\\' => ['\\', '\\']
  | '\n' => ['\\', 'n']
  | '\r' => ['\\', 'r']
  | '\t' => ['\\', 't']
  | '\x08' => ['\\', 'b']
  | '\x0c' => ['\\', 'f']
  | c =>
    if c.toNat < 0x20 then
      "\\u00".toList ++ [smallHexDigit (c.toNat / 16), smallHexDigit (c.toNat % 16)]
    else [c]

/-- A text between quotes. -/
def quotedText (text : String) : String :=
  "\"" ++ String.ofList (text.toList.flatMap escapedChar) ++ "\""

/-- The start of a line at a level. -/
def newLine (level : Nat) : String := "\n" ++ String.ofList (List.replicate (2 * level) ' ')

/-- Parts between brackets, each on a line of the level within. -/
def enclosed (opening closing : String) (level : Nat) (parts : List String) : String :=
  if parts.isEmpty then opening ++ closing
  else
    opening ++ ",".intercalate (parts.map (newLine (level + 1) ++ ·)) ++ newLine level ++ closing

mutual

/-- The JSON text of a value whose first line is at a level. -/
def Value.json (level : Nat) : Value → String
  | .text value => quotedText value
  | .number value => toString value
  | .list items => enclosed "[" "]" level (itemTexts (level + 1) items)
  | .object members => enclosed "\x7b" "\x7d" level (memberTexts (level + 1) members)

/-- The texts of the items of a list. -/
def itemTexts (level : Nat) : List Value → List String
  | [] => []
  | item :: items => item.json level :: itemTexts level items

/-- The texts of the members of an object. -/
def memberTexts (level : Nat) : List (String × Value) → List String
  | [] => []
  | (name, value) :: members =>
    (quotedText name ++ ": " ++ value.json level) :: memberTexts level members

end

/-- The value that reports a module. -/
def moduleValue (r : ModuleReport) : Value :=
  .object [("specifier", .text r.specifier), ("state", .text r.state.key),
    ("media_type", .text r.media.key), ("size", .number r.size),
    ("dependencies", .list (r.dependencies.map .text))]

/-- The value that reports a graph. -/
def graphValue (r : GraphReport) : Value :=
  .object [("entry", .text r.entry), ("modules", .list (r.modules.map moduleValue))]

/-- The report of a graph as JSON. -/
def jsonText (r : GraphReport) : String := (graphValue r).json 0

end ModuleLinker.Report
