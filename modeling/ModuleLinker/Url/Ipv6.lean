import ModuleLinker.Url.Ipv4

/-!
# IPv6 addresses in hosts

Eight pieces of up to four hexadecimal digits, of which one run of zeros may be left out between two
colons and the last two may be written as an IPv4 address. In the written form the first of the
longest runs of at least two zeros is left out.
-/

set_option autoImplicit false

namespace ModuleLinker.Url.Ipv6

open Text

/-- The pieces of an address that have been read: those before the run that is left out, and those
after it once it has been met. -/
structure Pieces where
  /-- The pieces before the gap. -/
  before : List Nat
  /-- The pieces after the gap. -/
  after : Option (List Nat)

namespace Pieces

/-- How many places are taken; the gap takes one at least. -/
def count (p : Pieces) : Nat :=
  p.before.length + match p.after with | none => 0 | some after => after.length + 1

/-- Adds a piece. -/
def push (p : Pieces) (piece : Nat) : Pieces :=
  match p.after with
  | none => { p with before := p.before ++ [piece] }
  | some after => { p with after := some (after ++ [piece]) }

/-- All eight pieces. -/
def all? (p : Pieces) : Option (List Nat) :=
  match p.after with
  | none => if p.before.length = 8 then some p.before else none
  | some after =>
    if p.count ≤ 8 then
      some (p.before ++ List.replicate (8 - p.before.length - after.length) 0 ++ after)
    else none

end Pieces

/-- A number of the IPv4 address at the end: no leading zero, and below 256. -/
def byte? (digits : List Char) : Option Nat :=
  match digits with
  | [] => none
  | ['0'] => some 0
  | '0' :: _ => none
  | _ =>
    if digits.length ≤ 3 && digits.all Char.isDigit then
      (Ipv4.digitsValue? 10 digits).bind fun n => if n < 256 then some n else none
    else none

/-- The pieces of an address that ends in an IPv4 address. -/
def ipv4Tail? (p : Pieces) (text : List Char) : Option Pieces :=
  match (splitAt '.' text).mapM byte? with
  | some [a, b, c, d] =>
    if p.count ≤ 6 then some ((p.push (256 * a + b)).push (256 * c + d)) else none
  | _ => none

/-- Reads the rest of an address: a colon that makes the gap, an IPv4 address, or a piece. -/
def readPieces? (p : Pieces) (text : List Char) : Option Pieces :=
  match text with
  | [] => some p
  | c :: rest =>
    if p.count ≥ 8 then none
    else if c = ':' then
      if p.after.isSome then none else readPieces? { p with after := some [] } rest
    else
      let digits := ((c :: rest).take 4).takeWhile fun d => (hexValue? d).isSome
      match _h : (c :: rest).drop digits.length with
      | [] => (Ipv4.digitsValue? 16 digits).map p.push
      | ':' :: more =>
        if more.isEmpty then none
        else
          match Ipv4.digitsValue? 16 digits with
          | some piece => readPieces? (p.push piece) more
          | none => none
      | '.' :: _ => if digits.isEmpty then none else ipv4Tail? p (c :: rest)
      | _ :: _ => none
termination_by text.length
decreasing_by
  · simp
  · have := congrArg List.length _h
    simp only [List.length_drop, List.length_cons] at this ⊢
    omega

/-- The eight pieces of an address. -/
def pieces? (text : List Char) : Option (List Nat) :=
  match text with
  | first :: second :: rest =>
    if first ≠ ':' then (readPieces? ⟨[], none⟩ text).bind Pieces.all?
    else if second = ':' then (readPieces? ⟨[], some []⟩ rest).bind Pieces.all?
    else none
  | _ => none

/-- How many zeros a list of pieces starts with. -/
def zeros (pieces : List Nat) : Nat := (pieces.takeWhile (· == 0)).length

/-- Where the first of the longest runs of zeros starts and how long it is, among the pieces from
position `i` on. -/
def longestRun (i : Nat) : List Nat → Nat × Nat
  | [] => (i, 0)
  | piece :: pieces =>
    let here := zeros (piece :: pieces)
    let later := longestRun (i + 1) pieces
    if later.2 ≤ here then (i, here) else later

/-- A piece as it is written. -/
def pieceText (piece : Nat) : List Char := Nat.toDigits 16 piece

/-- Pieces with colons between them. -/
def joined (pieces : List Nat) : List Char := (List.intersperse [':'] (pieces.map pieceText)).flatten

/-- An address as it is written. -/
def text (pieces : List Nat) : List Char :=
  let (start, length) := longestRun 0 pieces
  if length < 2 then joined pieces
  else joined (pieces.take start) ++ [':', ':'] ++ joined (pieces.drop (start + length))

/-- The written form of the address between the brackets of a host. -/
def read (address : List Char) : Except Fault (List Char) :=
  match pieces? address with
  | some pieces => .ok (['['] ++ text pieces ++ [']'])
  | none => .error .ipv6

end ModuleLinker.Url.Ipv6
