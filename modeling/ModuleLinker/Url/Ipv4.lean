import ModuleLinker.Text.Percent
import ModuleLinker.Text.Search
import ModuleLinker.Url.Fault

/-!
# IPv4 addresses in hosts

A host whose last label is a number is an IPv4 address. It has up to four numbers, decimal, octal
after a `0` or hexadecimal after `0x`; the last one fills the bytes that are left. It is written as
four decimal numbers.
-/

set_option autoImplicit false

namespace ModuleLinker.Url.Ipv4

open Text

/-- The value of some digits in a base, where all of them are digits of it. -/
def digitsValue? (base : Nat) (digits : List Char) : Option Nat :=
  digits.foldl (fun value c =>
    match value, hexValue? c with
    | some n, some d => if d < base then some (base * n + d) else none
    | _, _ => none) (some 0)

/-- The value of a number in an address. -/
def number? (text : List Char) : Option Nat :=
  match text with
  | [] => none
  | '0' :: 'x' :: digits | '0' :: 'X' :: digits => digitsValue? 16 digits
  | '0' :: c :: digits => digitsValue? 8 (c :: digits)
  | digits => digitsValue? 10 digits

/-- The labels of a host, without the empty one after a final dot. -/
def labels (host : List Char) : List (List Char) :=
  let all := splitAt '.' host
  if all.getLast? = some [] && all.length != 1 then all.dropLast else all

/-- Whether the last label of a host is a number, so that the host is an address. -/
def endsInNumber (host : List Char) : Bool :=
  match (labels host).getLast? with
  | none => false
  | some last => (!last.isEmpty && last.all Char.isDigit) || (number? last).isSome

/-- The value of an address with these numbers, the last of which fills the bytes that are left. -/
def value? (numbers : List Nat) : Option Nat :=
  match numbers.reverse with
  | [] => none
  | last :: others =>
    let left := Nat.pow 256 (5 - numbers.length)
    if numbers.length ≤ 4 && last < left && others.all (· < 256) then
      some (others.reverse.foldl (fun value n => 256 * value + n) 0 * left + last)
    else none

/-- An address as it is written. -/
def text (value : Nat) : List Char :=
  let byte (place : Nat) := value / Nat.pow 256 place % 256
  (".".intercalate ([byte 3, byte 2, byte 1, byte 0].map toString)).toList

/-- The written form of a host that is an address. -/
def read (host : List Char) : Except Fault (List Char) :=
  match ((labels host).mapM number?).bind value? with
  | some value => .ok (text value)
  | none => .error .ipv4

end ModuleLinker.Url.Ipv4
