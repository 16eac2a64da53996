import ModuleLinker.Erase.Edit
import ModuleLinker.Erase.TypeEnd

/-!
# The state of a walk

A walk goes through the tokens of a program and collects edits. Its state is the position of the
next token and the edits so far. The small steps here are shared by all constructs: stepping over an
optional marker, an annotation or type parameters, and walking through a bracket. How a walk goes on
inside a construct is given to each of them as a `Walker`.
-/

set_option autoImplicit false

namespace ModuleLinker.Erase

/-- Why a text cannot be erased. -/
inductive Failure where
  /-- The text is not well formed, or has no plain form. -/
  | rejected (error : SourceError)
  /-- An enum member counts on from the greatest 64-bit integer. -/
  | counterOverflow
  deriving DecidableEq, Repr

/-- The same failure in a text that has `n` characters before this one. -/
def Failure.shifted (f : Failure) (n : Nat) : Failure :=
  match f with
  | .rejected e => .rejected (e.shifted n)
  | .counterOverflow => .counterOverflow

/-- How far a walk has come. -/
structure State where
  /-- The position of the next token. -/
  pos : Nat
  /-- The edits so far. -/
  edits : Edits

/-- The state of a walk, or why it cannot go on. -/
abbrev Walk := Except Failure State

/-- How a walk goes on inside a construct. -/
structure Walker where
  /-- Walks from a state up to a limit or to the first position at which it has to stop. -/
  walk : (limit : Nat) → (stop : Nat → Bool) → State → Walk
  /-- The edits of the text of a substitution. -/
  hole : Hole → Except Failure Edits

namespace State

/-- The same edits at another position. -/
def goto (s : State) (pos : Nat) : State := { s with pos }

/-- The same state after `n` more tokens. -/
def skip (s : State) (n : Nat) : State := s.goto (s.pos + n)

/-- The same state, at a position after `i` in any case. -/
def past (s : State) (i : Nat) : State := s.goto (max s.pos (i + 1))

/-- Adds an edit. -/
def edit (s : State) (e : Edit) : State := { s with edits := s.edits.absorb e }

end State

/-- No position to stop at. -/
def nowhere : Nat → Bool := fun _ => false

namespace Program

variable (p : Program)

/-- The failure with a complaint about a token. -/
def fail {α : Type} (i : Nat) (complaint : Complaint) : Except Failure α :=
  .error (.rejected ⟨p.offset i, complaint⟩)

/-- The position after the type at a position, where one has to stand. -/
def expectType (i : Nat) : Except Failure Nat :=
  match p.typeEnd? i with
  | some ⟨j, _⟩ => .ok j
  | none => p.fail i .typeExpected

/-- The position after the type arguments or parameters at a position, where they are complete. -/
def expectAngle (i : Nat) : Except Failure Nat :=
  match p.angleEnd? i with
  | some ⟨j, _⟩ => .ok j
  | none => p.fail i (.punctuatorExpected ">")

/-- Overwrites the tokens from one position up to another, if there are any. -/
def blank (s : State) (first last : Nat) : State :=
  if first < last then
    match p.tokens[first]?, p.tokens[last - 1]? with
    | some a, some z => s.edit ⟨a.start, z.stop, none⟩
    | _, _ => s
  else s

/-- Overwrites the tokens from the state's position up to another one and goes there. -/
def blankTo (s : State) (last : Nat) : State := (p.blank s s.pos last).goto last

/-- Overwrites a punctuator where it stands. -/
def blankMarker (s : State) (text : String) : State :=
  if p.isPunct s.pos text then p.blankTo s (s.pos + 1) else s

/-- Steps over a punctuator where it stands. -/
def skipPunct (s : State) (text : String) : State :=
  if p.isPunct s.pos text then s.skip 1 else s

/-- Overwrites a type annotation, colon included, where it stands. -/
def blankAnnotation (s : State) : Walk := do
  if p.isPunct s.pos ":" then
    .ok (p.blankTo s (← p.expectType (s.pos + 1)))
  else .ok s

/-- Overwrites type parameters where they stand. -/
def blankTypeParameters (s : State) : Walk := do
  if p.isPunct s.pos "<" then
    .ok (p.blankTo s (← p.expectAngle s.pos))
  else .ok s

/-- Walks through the bracket that opens at the state's position and goes on after it. -/
def walkBracket (w : Walker) (s : State) : Walk := do
  let close := p.close s.pos
  let inside ← w.walk close nowhere (s.skip 1)
  .ok (inside.goto (close + 1))

/-- Walks through the value after an equals sign, where one stands, up to a limit or to one of some
punctuators. -/
def walkValue (w : Walker) (limit : Nat) (stops : List String) (s : State) : Walk :=
  if p.isPunct s.pos "=" then
    w.walk limit (fun i => stops.any fun text => p.isPunct i text) (s.skip 1)
  else .ok s

end Program

end ModuleLinker.Erase
