import ModuleLinker.Toml.Value
import ModuleLinker.Text.Percent

/-!
# Reading a settings file

A settings file has one `key = value` on a line, and headers that name the table the following lines
belong to. A key may be given once. The reader of a value gives the value and the rest of the text;
since a value takes characters, the length of the text bounds how deep values can nest.
-/

set_option autoImplicit false

namespace ModuleLinker.Toml

open Text

/-- What a reader gives: what it read and the rest of the text. -/
abbrev Reading (α : Type) := Option (α × List Char)

/-- A text without the blanks of a line at its start. -/
def skipBlanks (cs : List Char) : List Char := cs.dropWhile fun c => c == ' ' || c == '\t'

/-- Whether a character may stand in a comment or a quoted text. -/
def isAllowed (c : Char) : Bool := c == '\t' || (0x20 ≤ c.toNat && c.toNat != 0x7F)

/-- A text without the comment at its start. -/
def skipComment (cs : List Char) : List Char :=
  if cs.head? == some '#' then cs.dropWhile isAllowed else cs

/-- The text after the end of a line, where one stands or the text ends. -/
def afterLine? : List Char → Option (List Char)
  | [] => some []
  | '\n' :: cs => some cs
  | '\r' :: '\n' :: cs => some cs
  | _ => none

/-- A text without the blanks, comments and line ends at its start. -/
def skipLines (fuel : Nat) (cs : List Char) : List Char :=
  match fuel with
  | 0 => cs
  | fuel + 1 =>
    let rest := skipComment (skipBlanks cs)
    match rest with
    | [] => []
    | _ =>
      match afterLine? rest with
      | some next => skipLines fuel next
      | none => rest

/-- The character with a code point given by hexadecimal digits. -/
def charOfHex? (digits : List Char) : Option Char :=
  let value := digits.foldl (fun value c =>
    match value, hexValue? c with
    | some n, some d => some (16 * n + d)
    | _, _ => none) (some 0)
  match value with
  | some n => if n.isValidChar then some (Char.ofNat n) else none
  | none => none

/-- The character that an escape stands for, given what follows the backslash. -/
def readEscape (cs : List Char) : Reading Char :=
  match cs with
  | 'b' :: rest => some ('\x08', rest)
  | 't' :: rest => some ('\t', rest)
  | 'n' :: rest => some ('\n', rest)
  | 'f' :: rest => some ('\x0c', rest)
  | 'r' :: rest => some ('\r', rest)
  | '"' :: rest => some ('"', rest)
  | '\\' :: rest => some ('\\', rest)
  | 'u' :: rest =>
    if rest.length < 4 then none else (charOfHex? (rest.take 4)).map fun c => (c, rest.drop 4)
  | 'U' :: rest =>
    if rest.length < 8 then none else (charOfHex? (rest.take 8)).map fun c => (c, rest.drop 8)
  | _ => none

/-- A text in double quotes, after the opening one. -/
def readBasic (fuel : Nat) (read : List Char) (cs : List Char) : Reading String :=
  match fuel, cs with
  | 0, _ | _, [] => none
  | fuel + 1, c :: rest =>
    if c = '"' then some (String.ofList read.reverse, rest)
    else if c = '\\' then
      match readEscape rest with
      | some (c, rest) => readBasic fuel (c :: read) rest
      | none => none
    else if isAllowed c then readBasic fuel (c :: read) rest
    else none

/-- A text in single quotes, after the opening one. -/
def readLiteral (cs : List Char) : Reading String :=
  let text := cs.takeWhile fun c => c != '\x27' && isAllowed c
  match cs.drop text.length with
  | '\x27' :: rest => some (String.ofList text, rest)
  | _ => none

/-- A text without a line end at its start. -/
def dropLineEnd (cs : List Char) : List Char :=
  match cs with
  | '\n' :: rest => rest
  | '\r' :: '\n' :: rest => rest
  | _ => cs

/-- A text over several lines, after the opening quotes: up to the last of the next three or more
quotes of its kind. In double quotes escapes are resolved, and a backslash at the end of a line
takes the blanks and line ends after it. -/
def readMultiline (quote : Char) (escapes : Bool) (fuel : Nat) (read : List Char)
    (cs : List Char) : Reading String :=
  match fuel, cs with
  | 0, _ | _, [] => none
  | fuel + 1, c :: rest =>
    let quotes := (cs.takeWhile (· == quote)).length
    if 3 ≤ quotes then
      if 5 < quotes then none
      else
        some (String.ofList (read.reverse ++ List.replicate (quotes - 3) quote), cs.drop quotes)
    else if escapes && c = '\\' then
      match afterLine? (skipBlanks rest) with
      | some _ =>
        let blank (c : Char) : Bool := c == ' ' || c == '\t' || c == '\n' || c == '\r'
        readMultiline quote escapes fuel read (rest.dropWhile blank)
      | none =>
        match readEscape rest with
        | some (c, rest) => readMultiline quote escapes fuel (c :: read) rest
        | none => none
    else if isAllowed c || c = '\n' then readMultiline quote escapes fuel (c :: read) rest
    else if c = '\r' && rest.head? == some '\n' then
      readMultiline quote escapes fuel ('\n' :: read) (rest.drop 1)
    else none

/-- The text of some digits without the underscores between them. -/
def plainDigits? (isDigit : Char → Bool) (cs : List Char) : Option (List Char) :=
  let groups := splitOn cs
  if groups.all (fun g => !g.isEmpty && g.all isDigit) then some groups.flatten else none
where
  /-- The groups of digits between underscores. -/
  splitOn (cs : List Char) : List (List Char) :=
    match cs with
    | [] => [[]]
    | c :: cs =>
      if c = '_' then [] :: splitOn cs
      else
        match splitOn cs with
        | g :: gs => (c :: g) :: gs
        | [] => [[c]]

/-- The value of digits in a base. -/
def digitsValue (base : Nat) (digits : List Char) : Nat :=
  digits.foldl (fun n c => base * n + (hexValue? c).getD 0) 0

/-- Digits without a needless zero in front. -/
def decimalDigits? (cs : List Char) : Option (List Char) :=
  (plainDigits? Char.isDigit cs).bind fun digits =>
    if 1 < digits.length && digits.head? == some '0' then none else some digits

/-- The sign at the start of a number, and the number. -/
def splitSign (cs : List Char) : Bool × Bool × List Char :=
  match cs with
  | '-' :: rest => (true, true, rest)
  | '+' :: rest => (true, false, rest)
  | _ => (false, false, cs)

/-- The integer with a magnitude, within 64 bits. -/
def boundedInteger? (negative : Bool) (magnitude : Nat) : Option Value :=
  if negative then if magnitude ≤ Nat.pow 2 63 then some (.integer (-magnitude)) else none
  else if magnitude < Nat.pow 2 63 then some (.integer magnitude) else none

/-- The integer that a word is. -/
def integer? (word : List Char) : Option Value :=
  match word with
  | '0' :: 'x' :: digits =>
    (plainDigits? (fun c => (hexValue? c).isSome) digits).bind fun ds =>
      boundedInteger? false (digitsValue 16 ds)
  | '0' :: 'o' :: digits =>
    (plainDigits? (fun c => '0' ≤ c && c ≤ '7') digits).bind fun ds =>
      boundedInteger? false (digitsValue 8 ds)
  | '0' :: 'b' :: digits =>
    (plainDigits? (fun c => c == '0' || c == '1') digits).bind fun ds =>
      boundedInteger? false (digitsValue 2 ds)
  | _ =>
    let (_, negative, digits) := splitSign word
    (decimalDigits? digits).bind fun ds => boundedInteger? negative (digitsValue 10 ds)

/-- The number with a fraction or an exponent that a word is. A number that is too great is refused;
one that is too far below zero is negative infinity. -/
def float? (word : List Char) : Option Value :=
  let (_, negative, body) := splitSign word
  if body = "inf".toList then some (.float (.infinity negative))
  else if body = "nan".toList then some (.float .notANumber)
  else
    let isMark (c : Char) : Bool := c == 'e' || c == 'E'
    let base := body.takeWhile fun c => !isMark c
    let exponent := body.drop (base.length + 1)
    let whole := base.takeWhile (· != '.')
    let fraction := base.drop (whole.length + 1)
    let hasFraction := base.length != whole.length
    let hasExponent := body.length != base.length
    let (_, exponentNegative, exponentDigits) := splitSign exponent
    if !(hasFraction || hasExponent) then none
    else
      match decimalDigits? whole,
        (if hasFraction then plainDigits? Char.isDigit fraction else some []),
        (if hasExponent then plainDigits? Char.isDigit exponentDigits else some ['0']) with
      | some ws, some fs, some es =>
        let mantissa := digitsValue 10 (ws ++ fs)
        let scale := digitsValue 10 es
        let (down, places) :=
          if exponentNegative then (true, scale + fs.length)
          else if fs.length ≤ scale then (false, scale - fs.length)
          else (true, fs.length - scale)
        let bits := (Float.ofScientific mantissa down places).toBits.toNat
        if bits / Nat.pow 2 52 % Nat.pow 2 11 = 2047 then
          if negative then some (.float (.infinity true)) else none
        else some (.float (.finite (bits + if negative then Nat.pow 2 63 else 0)))
      | _, _, _ => none

/-- The value that a word without quotes is. -/
def word? (word : List Char) : Option Value :=
  if word = "true".toList then some (.boolean true)
  else if word = "false".toList then some (.boolean false)
  else (integer? word).or (float? word)

/-- Whether a character belongs to a word without quotes. -/
def isWordChar (c : Char) : Bool :=
  c.isAlphanum || c == '_' || c == '-' || c == '+' || c == '.'

/-- One part of a key. -/
def readKeyPart (cs : List Char) : Reading String :=
  match cs with
  | '"' :: rest => readBasic (rest.length + 1) [] rest
  | '\x27' :: rest => readLiteral rest
  | _ =>
    let key := cs.takeWhile isKeyChar
    if key.isEmpty then none else some (String.ofList key, cs.drop key.length)

/-- A key: parts with dots between them. -/
def readKey (fuel : Nat) (cs : List Char) : Reading (List String) :=
  match fuel with
  | 0 => none
  | fuel + 1 =>
    match readKeyPart (skipBlanks cs) with
    | none => none
    | some (part, rest) =>
      match skipBlanks rest with
      | '.' :: more => (readKey fuel more).map fun (parts, rest) => (part :: parts, rest)
      | rest => some ([part], rest)

/-- Entries with one more, in the order of their keys. -/
def place (key : String) (value : Value) : List (String × Value) → List (String × Value)
  | [] => [(key, value)]
  | entry :: entries =>
    if key < entry.1 then (key, value) :: entry :: entries else entry :: place key value entries

/-- A table with a value under a key of one or more parts; each key may be given once, and only
tables have keys below them. -/
def insertKey? (path : List String) (value : Value) (entries : List (String × Value)) :
    Option (List (String × Value)) :=
  match path with
  | [] => none
  | [key] => if entries.any (·.1 == key) then none else some (place key value entries)
  | key :: more =>
    match entries.find? (·.1 == key) with
    | none => (insertKey? more value []).map fun inner => place key (.table inner) entries
    | some (_, .table inner) =>
      (insertKey? more value inner).map fun inner =>
        entries.map fun entry => if entry.1 == key then (key, .table inner) else entry
    | some _ => none

mutual

/-- The value at the start of a text. -/
def readValue (fuel : Nat) (cs : List Char) : Reading Value :=
  match fuel with
  | 0 => none
  | fuel + 1 =>
    match cs with
    | '"' :: '"' :: '"' :: rest =>
      (readMultiline '"' true (rest.length + 1) [] (dropLineEnd rest)).map fun (t, r) =>
        (.string t, r)
    | '\x27' :: '\x27' :: '\x27' :: rest =>
      (readMultiline '\x27' false (rest.length + 1) [] (dropLineEnd rest)).map fun (t, r) =>
        (.string t, r)
    | '"' :: rest => (readBasic (rest.length + 1) [] rest).map fun (t, r) => (.string t, r)
    | '\x27' :: rest => (readLiteral rest).map fun (t, r) => (.string t, r)
    | '[' :: rest => (readItems fuel rest).map fun (items, r) => (.array items, r)
    | '\x7b' :: rest =>
      match skipBlanks rest with
      | '\x7d' :: r => some (.table [], r)
      | rest => (readEntries fuel [] rest).map fun (entries, r) => (.table entries, r)
    | _ =>
      let word := cs.takeWhile isWordChar
      (word? word).map fun value => (value, cs.drop word.length)

/-- The items of an array up to its closing bracket. -/
def readItems (fuel : Nat) (cs : List Char) : Reading (List Value) :=
  match fuel with
  | 0 => none
  | fuel + 1 =>
    match skipLines (cs.length + 1) cs with
    | ']' :: rest => some ([], rest)
    | start =>
      match readValue fuel start with
      | none => none
      | some (item, rest) =>
        match skipLines (rest.length + 1) rest with
        | ',' :: more => (readItems fuel more).map fun (items, r) => (item :: items, r)
        | ']' :: more => some ([item], more)
        | _ => none

/-- The entries of a table on one line up to its closing brace. -/
def readEntries (fuel : Nat) (entries : List (String × Value)) (cs : List Char) :
    Reading (List (String × Value)) :=
  match fuel with
  | 0 => none
  | fuel + 1 =>
    match readKey (cs.length + 1) cs with
    | some (path, '=' :: rest) =>
      match readValue fuel (skipBlanks rest) with
      | none => none
      | some (value, rest) =>
        match insertKey? path value entries, skipBlanks rest with
        | some entries, ',' :: more => readEntries fuel entries more
        | some entries, '\x7d' :: more => some (entries, more)
        | _, _ => none
    | _ => none

end

/-- What has been read of a settings file. -/
structure Document where
  /-- The values outside all tables and the tables. -/
  entries : List (String × Value)
  /-- The table that the next lines belong to. -/
  header : List String
  /-- The headers so far. -/
  headers : List (List String)

/-- Reads the lines of a settings file. -/
def readLines (fuel : Nat) (d : Document) (cs : List Char) : Option Document :=
  match fuel with
  | 0 => none
  | fuel + 1 =>
    match skipLines (cs.length + 1) cs with
    | [] => some d
    | '[' :: rest =>
      match readKey (rest.length + 1) rest with
      | some (path, ']' :: rest) =>
        let opened := if d.headers.contains path then none
          else if (d.entries.any fun e => [e.1] == path) then none
          else
            let known := d.headers.any fun h => path.isPrefixOf h
            if known then some d.entries else insertKey? path (.table []) d.entries
        match opened, afterLine? (skipComment (skipBlanks rest)) with
        | some entries, some rest =>
          readLines fuel ⟨entries, path, d.headers ++ [path]⟩ rest
        | _, _ => none
      | _ => none
    | start =>
      match readKey (start.length + 1) start with
      | some (path, '=' :: rest) =>
        match readValue (rest.length + 1) (skipBlanks rest) with
        | none => none
        | some (value, rest) =>
          match insertKey? (d.header ++ path) value d.entries,
            afterLine? (skipComment (skipBlanks rest)) with
          | some entries, some rest => readLines fuel { d with entries } rest
          | _, _ => none
      | _ => none

/-- The entries of a settings file in the order of their keys, with or without a mark for the byte
order at its start. -/
def read? (text : String) : Option (List (String × Value)) :=
  let cs := text.toList
  let cs := if cs.head? == some '\ufeff' then cs.drop 1 else cs
  (readLines (cs.length + 2) ⟨[], [], []⟩ cs).map (·.entries)

end ModuleLinker.Toml
