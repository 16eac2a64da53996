import ModuleLinker.Source.Complaint
import ModuleLinker.Source.Token

/-!
# Matching brackets

The partner of every bracket of a token list. A closing bracket goes with the innermost bracket that
is still open, which has to be of the same kind, and every bracket has to be closed.
-/

set_option autoImplicit false

namespace ModuleLinker

/-- For each token the position of its partner, where it is a bracket. -/
abbrev Partners := Array (Option Nat)

/-- The brackets that are open and the pairs found so far, while the token list is read from its
start. -/
structure BracketState where
  /-- The open brackets with their positions, innermost first. -/
  opened : List (Nat × Token)
  /-- The partners found so far. -/
  partners : Partners

/-- Reads the token at position `i`. -/
def BracketState.read (s : BracketState) (i : Nat) (t : Token) : Except SourceError BracketState :=
  if t.isOpener then .ok { s with opened := (i, t) :: s.opened }
  else if t.isCloser then
    match s.opened with
    | (j, o) :: outer =>
      if closerOf o.text = t.text then
        .ok ⟨outer, (s.partners.setIfInBounds j (some i)).setIfInBounds i (some j)⟩
      else .error ⟨t.start, .unexpectedCloser t.text⟩
    | [] => .error ⟨t.start, .unexpectedCloser t.text⟩
  else .ok s

/-- Reads the tokens from position `i` on. -/
def BracketState.readAll (s : BracketState) (i : Nat) : List Token → Except SourceError BracketState
  | [] => .ok s
  | t :: ts => do
    let s ← s.read i t
    s.readAll (i + 1) ts

/-- The partners of the brackets of a token list. -/
def matchBrackets (tokens : Array Token) : Except SourceError Partners := do
  let s ← BracketState.readAll ⟨[], Array.replicate tokens.size none⟩ 0 tokens.toList
  match s.opened with
  | (_, o) :: _ => .error ⟨o.start, .neverClosed o.text⟩
  | [] => .ok s.partners

end ModuleLinker
