import ModuleLinker.Decimal.Rounding

/-!
# Styled text and sizes

Text between the escapes that a terminal takes for colours and weights, and sizes in the unit that
suits them, with two places where the unit is not a byte.
-/

set_option autoImplicit false

namespace ModuleLinker.Report

/-- How a text is shown on a terminal. -/
inductive Style where
  /-- Heavy. -/
  | bold
  /-- Faint. -/
  | dimmed
  /-- In red. -/
  | red
  /-- In green. -/
  | green
  /-- In yellow. -/
  | yellow
  /-- In cyan. -/
  | cyan
  deriving DecidableEq, Repr

/-- The number that switches a style on. -/
def Style.on : Style → Nat
  | bold => 1
  | dimmed => 2
  | red => 31
  | green => 32
  | yellow => 33
  | cyan => 36

/-- The number that switches a style off. -/
def Style.off : Style → Nat
  | bold | dimmed => 0
  | red | green | yellow | cyan => 39

/-- The escape with a number. -/
def escape (code : Nat) : String := "\x1b[" ++ toString code ++ "m"

/-- A text in a style. -/
def styled (style : Style) (text : String) : String := escape style.on ++ text ++ escape style.off

/-- A size. -/
def sizeText (bytes : Nat) : String :=
  if bytes ≥ 1024 * 1024 then Decimal.fixedText 2 bytes (1024 * 1024) ++ " MB"
  else if bytes ≥ 1024 then Decimal.fixedText 2 bytes 1024 ++ " KB"
  else toString bytes ++ " B"

end ModuleLinker.Report
