import ModuleLinker.Erase.State

/-!
# Enums

An enum becomes a variable and a function that fills it in. A member without a value counts on from
the member before it: from zero at the start, by one while the value is a known integer, and by an
expression otherwise. A value may name earlier members, which then become properties of the enum.
-/

set_option autoImplicit false

namespace ModuleLinker.Erase

/-- The greatest 64-bit integer. -/
def maxInteger : Int := 9223372036854775807

/-- The integer that a run of digits stands for, within 64 bits. -/
def digitsValue? (text : String) : Option Int :=
  let digits := text.toList
  if digits.isEmpty || !digits.all Char.isDigit then none
  else
    let value : Nat := digits.foldl (fun n c => 10 * n + (c.toNat - 48)) 0
    if value ≤ maxInteger then some value else none

/-- A member as the next one counts on from it. -/
structure EnumMember where
  /-- The key as it is written in the code, quotes included. -/
  key : String
  /-- The value, where it is a known integer. -/
  value : Option Int
  deriving DecidableEq, Repr

/-- What has been written of an enum. -/
structure EnumState where
  /-- The position of the next token. -/
  pos : Nat
  /-- The statements that fill in the members so far. -/
  statements : List String
  /-- The members so far that can be named in a value. -/
  declared : List String
  /-- The last member. -/
  previous : Option EnumMember

/-- The value, as code and where it is known, of a member without one. -/
def nextValue (name : String) : Option EnumMember → Except Failure (String × Option Int)
  | none => .ok ("0", some 0)
  | some ⟨_, some n⟩ =>
    if n < maxInteger then .ok (toString (n + 1), some (n + 1)) else .error .counterOverflow
  | some ⟨key, none⟩ => .ok (name ++ "[" ++ key ++ "] + 1", none)

/-- The statement of a member whose value is a string. -/
def textStatement (name key value : String) : String :=
  name ++ "[" ++ key ++ "] = " ++ value ++ ";"

/-- The statement of any other member, which can be found by its value too. -/
def valueStatement (name key value : String) : String :=
  name ++ "[" ++ name ++ "[" ++ key ++ "] = " ++ value ++ "] = " ++ key ++ ";"

/-- The code of an enum. -/
def enumCode (name : String) (statements : List String) : String :=
  "var " ++ name ++ "; (function (" ++ name ++ ") \x7b " ++ " ".intercalate statements ++ " \x7d)(" ++
    name ++ " || (" ++ name ++ " = \x7b\x7d));"

namespace Program

variable (p : Program)

/-- The position of the comma that ends the value at a position, or of the limit. -/
def valueEnd (limit i : Nat) : Nat :=
  if i < limit then
    if p.isPunct i "," then i
    else if p.is i (·.isOpener) then
      have := p.lt_close i
      valueEnd limit (p.close i + 1)
    else valueEnd limit (i + 1)
  else i
termination_by limit - i

/-- The integer literal, with a sign or without, that the tokens up to a position make up. -/
def integer? (first last : Nat) : Option Int :=
  if last = first + 1 then digitsValue? (p.text first)
  else if last = first + 2 ∧ p.isPunct first "-" then
    (digitsValue? (p.text (first + 1))).map fun n => -n
  else none

/-- The code of `count` tokens from position `i` on, where `cursor` is the offset up to which the
source has been copied, with earlier members named as properties of the enum. -/
def memberCode (name : String) (declared : List String) (first cursor i : Nat) : Nat → String
  | 0 => p.slice cursor (((p.tokens[i - 1]?).map (·.stop)).getD cursor)
  | count + 1 =>
    if p.isName i && declared.contains (p.text i) && !(first < i && p.afterDot i) then
      p.slice cursor (p.offset i) ++ name ++ "." ++ p.text i ++
        memberCode name declared first (((p.tokens[i]?).map (·.stop)).getD cursor) (i + 1) count
    else memberCode name declared first cursor (i + 1) count

/-- The key of the enum member at a position, as it is written in the code. -/
def memberKey? (i : Nat) : Option String :=
  match p.kind? i with
  | some .ident => some ("\"" ++ p.text i ++ "\"")
  | some .string => some (p.text i)
  | _ => none

/-- Writes the member at the state's position, with the comma after it, in an enum that closes at
`close`. -/
def enumMember (name : String) (close : Nat) (s : EnumState) : Except Failure EnumState := do
  match p.memberKey? s.pos with
  | none => p.fail s.pos .enumMemberExpected
  | some key =>
    let next := s.pos + 1
    let declared := if p.isName s.pos then s.declared ++ [p.text s.pos] else s.declared
    let afterComma (i : Nat) : Nat := if p.isPunct i "," then i + 1 else i
    if p.isPunct next "=" then
      let first := next + 1
      let last := p.valueEnd close first
      if last = first then p.fail first .expressionExpected
      else
        let code := p.memberCode name s.declared first (p.offset first) first (last - first)
        if last = first + 1 ∧ p.kind? first = some .string then
          .ok ⟨afterComma last, s.statements ++ [textStatement name key code], declared,
            some ⟨key, none⟩⟩
        else
          .ok ⟨afterComma last, s.statements ++ [valueStatement name key code], declared,
            some ⟨key, p.integer? first last⟩⟩
    else
      let (code, value) ← nextValue name s.previous
      .ok ⟨afterComma next, s.statements ++ [valueStatement name key code], declared,
        some ⟨key, value⟩⟩

/-- Writes the members up to the position `close`. -/
def enumMembers (name : String) (close : Nat) (s : EnumState) : Except Failure EnumState :=
  if s.pos < close then
    match p.enumMember name close s with
    | .error e => .error e
    | .ok next => enumMembers name close { next with pos := max next.pos (s.pos + 1) }
  else .ok s
termination_by close - s.pos

/-- Replaces the enum that starts at a position, with the word `const` in front or without. -/
def enumeration (i : Nat) (s : State) : Walk := do
  let keyword := if p.isWord i "const" then i + 1 else i
  let opener := keyword + 2
  if p.isName (keyword + 1) && p.isPunct opener openBrace then
    let name := p.text (keyword + 1)
    let close := p.close opener
    let written ← p.enumMembers name close ⟨opener + 1, [], [], none⟩
    let start := p.offset i
    let stop := ((p.tokens[close]?).map (·.stop)).getD start
    .ok ((s.edit ⟨start, stop, some (enumCode name written.statements)⟩).goto (close + 1))
  else p.fail keyword .enumNameExpected

end Program

end ModuleLinker.Erase
