/-!
# Shortest decimal text of a binary number

The fewest decimal digits that read back to a number in the 64-bit binary format, nearest to it
among those, written positionally with at least one place after the point.
-/

set_option autoImplicit false

namespace ModuleLinker.Decimal

/-- A positive binary number `mantissa * 2 ^ (exponent - 1074)`. -/
structure Binary where
  /-- The mantissa. -/
  mantissa : Nat
  /-- The exponent above the least one. -/
  exponent : Nat

/-- The binary number with these bits, without its sign. -/
def Binary.ofBits (bits : Nat) : Binary :=
  let fraction := bits % Nat.pow 2 52
  let exponent := bits / Nat.pow 2 52 % Nat.pow 2 11
  if exponent = 0 then ⟨fraction, 0⟩ else ⟨fraction + Nat.pow 2 52, exponent - 1⟩

/-- Four times the number in units of the least binary number, and the ends of the interval of
numbers that read back to it. -/
structure Interval where
  /-- The lower end. -/
  low : Nat
  /-- The number itself. -/
  middle : Nat
  /-- The upper end. -/
  high : Nat
  /-- Whether the ends read back to the number. -/
  closed : Bool

/-- The numbers that read back to a binary number. -/
def Binary.interval (b : Binary) : Interval :=
  let unit := Nat.pow 2 b.exponent
  let below := if b.mantissa = Nat.pow 2 52 && 0 < b.exponent then unit else 2 * unit
  let middle := 4 * b.mantissa * unit
  ⟨middle - below, middle, middle + 2 * unit, b.mantissa % 2 = 0⟩

/-- Whether `c * 10 ^ (k - 400)` lies in the interval. -/
def Interval.contains (i : Interval) (c k : Nat) : Bool :=
  let value := 4 * c * Nat.pow 10 k * Nat.pow 2 1074
  let low := i.low * Nat.pow 10 400
  let high := i.high * Nat.pow 10 400
  if i.closed then low ≤ value && value ≤ high else low < value && value < high

/-- The multiple of `10 ^ (k - 400)` in the interval that is nearest to the number, if there is
one. -/
def Interval.nearest? (i : Interval) (k : Nat) : Option Nat :=
  let num := i.middle * Nat.pow 10 400
  let den := 4 * Nat.pow 10 k * Nat.pow 2 1074
  let c := num / den
  let candidates := if 2 * (num % den) < den then [c, c + 1] else [c + 1, c]
  candidates.find? fun c => 0 < c && i.contains c k

/-- The digits and the power of ten of the shortest decimal, looked for on grids from `10 ^ k` down
to finer ones. -/
def Interval.shortest (i : Interval) : Nat → Nat × Nat
  | 0 => (0, 0)
  | k + 1 =>
    match i.nearest? (k + 1) with
    | some c => (c, k + 1)
    | none => i.shortest k

/-- The text of `c * 10 ^ (k - 400)`, positional. -/
def positional (c k : Nat) : String :=
  let digits := (toString c).toList
  if 400 ≤ k then String.ofList (digits ++ List.replicate (k - 400) '0' ++ ['.', '0'])
  else
    let places := 400 - k
    let padded := List.replicate (places + 1 - digits.length) '0' ++ digits
    let whole := padded.length - places
    String.ofList (padded.take whole ++ ['.'] ++ padded.drop whole)

/-- The shortest text of a binary number given by its bits. -/
def shortestText (bits : Nat) : String :=
  let sign := if bits / Nat.pow 2 63 % 2 = 1 then "-" else ""
  let b := Binary.ofBits bits
  if b.mantissa = 0 then sign ++ "0.0"
  else
    let (c, k) := b.interval.shortest 720
    sign ++ positional c k

end ModuleLinker.Decimal
