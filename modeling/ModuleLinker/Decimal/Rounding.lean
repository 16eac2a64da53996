/-!
# Rounding to a decimal grid

The integer nearest to a quotient, where a quotient halfway between two integers goes to the even
one, and the text of a quotient with a fixed number of decimal places.
-/

set_option autoImplicit false

namespace ModuleLinker.Decimal

/-- The integer nearest to a quotient, the even one of two. -/
def roundDiv (num den : Nat) : Nat :=
  let q := num / den
  let r := num % den
  if 2 * r < den then q
  else if den < 2 * r then q + 1
  else if q % 2 = 0 then q else q + 1

/-- A quotient with some decimal places. -/
def fixedText (places num den : Nat) : String :=
  let scaled := roundDiv (num * Nat.pow 10 places) den
  let digits := (toString scaled).toList
  let padded := List.replicate (places + 1 - digits.length) '0' ++ digits
  let whole := padded.length - places
  String.ofList (padded.take whole ++ ['.'] ++ padded.drop whole)

end ModuleLinker.Decimal
