import ModuleLinker.Decimal.Shortest
import ModuleLinker.Text.Percent
import ModuleLinker.Text.Search

/-!
# Values of a settings file

The values that can stand in a settings file, and their text: integers in decimal notation, floats
with the fewest digits that read back, strings in quotes. A string stands in single quotes, without
escapes, where that spares escapes and can be done; a string with a line end stands in three quotes.
-/

set_option autoImplicit false

namespace ModuleLinker.Toml

open Text

/-- A number with a fraction, or one of the values that are no number. -/
inductive FloatValue where
  /-- A number, by its 64 bits. -/
  | finite (bits : Nat)
  /-- Infinity. -/
  | infinity (negative : Bool)
  /-- Not a number. -/
  | notANumber
  deriving DecidableEq, Repr

/-- A value of a settings file. -/
inductive Value where
  /-- A text. -/
  | string (text : String)
  /-- An integer. -/
  | integer (value : Int)
  /-- A number with a fraction. -/
  | float (value : FloatValue)
  /-- A truth value. -/
  | boolean (value : Bool)
  /-- A list of values. -/
  | array (items : List Value)
  /-- Values under keys. -/
  | table (entries : List (String × Value))

/-- The text of a number with a fraction. -/
def FloatValue.text : FloatValue → String
  | .finite bits => Decimal.shortestText bits
  | .infinity negative => if negative then "-inf" else "inf"
  | .notANumber => "nan"

/-- Whether a character cannot stand for itself in a text. -/
def isControl (c : Char) : Bool := c != '\t' && c != '\n' && (c.toNat < 0x20 || c.toNat = 0x7F)

/-- Whether a text stands in single quotes: it has a double quote or a backslash, and nothing in it
needs an escape or looks like the closing quotes. -/
def isLiteral (cs : List Char) : Bool :=
  (cs.contains '"' || cs.contains '\\') &&
    !(cs.any isControl || cs.getLast? == some '\x27' || occursIn ['\x27', '\x27', '\x27'] cs)

/-- What stands for a character of a text in double quotes; a line end stands for itself in a text
over several lines. -/
def escaped (lines : Bool) (c : Char) : List Char :=
  match c with
  | '"' => ['\\', '"']
  | '\\' => ['\\', '\\']
  | '\n' => if lines then ['\n'] else ['\\', 'n']
  | '\t' => ['\\', 't']
  | '\r' => ['\\', 'r']
  | '\x08' => ['\\', 'b']
  | '\x0c' => ['\\', 'f']
  | c =>
    if isControl c then
      "\\u00".toList ++ [hexDigit (c.toNat / 16), hexDigit (c.toNat % 16)]
    else [c]

/-- A text in double quotes on one line. -/
def quotedLine (text : String) : String :=
  "\"" ++ String.ofList (text.toList.flatMap (escaped false)) ++ "\""

/-- A text in quotes. -/
def quoted (text : String) : String :=
  let cs := text.toList
  let lines := cs.contains '\n'
  if isLiteral cs then
    if lines then "\x27\x27\x27\n" ++ text ++ "\x27\x27\x27"
    else if cs.contains '\x27' then "\x27\x27\x27" ++ text ++ "\x27\x27\x27"
    else "\x27" ++ text ++ "\x27"
  else if lines then
    "\"\"\"\n" ++ String.ofList (cs.flatMap (escaped true)) ++ "\"\"\""
  else quotedLine text

/-- Whether a character stands for itself in a key. -/
def isKeyChar (c : Char) : Bool := c.isAlphanum || c == '_' || c == '-'

/-- A key, in quotes where it needs them. -/
def keyText (key : String) : String :=
  if key.isEmpty || !key.toList.all isKeyChar then quotedLine key else key

mutual

/-- The text of a value. -/
def Value.text : Value → String
  | .string text => quoted text
  | .integer value => toString value
  | .float value => value.text
  | .boolean value => if value then "true" else "false"
  | .array items => "[" ++ ", ".intercalate (textsOf items) ++ "]"
  | .table [] => "\x7b\x7d"
  | .table entries => "\x7b " ++ ", ".intercalate (entryTextsOf entries) ++ " \x7d"

/-- The texts of the items of an array. -/
def textsOf : List Value → List String
  | [] => []
  | item :: items => item.text :: textsOf items

/-- The texts of the entries of a table. -/
def entryTextsOf : List (String × Value) → List String
  | [] => []
  | (key, value) :: entries => (keyText key ++ " = " ++ value.text) :: entryTextsOf entries

end

/-- What a value says as the value of a setting: a text stands for itself. -/
def Value.plainText : Value → String
  | .string text => text
  | value => value.text

end ModuleLinker.Toml
