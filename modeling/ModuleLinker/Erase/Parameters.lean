import ModuleLinker.Erase.State

/-!
# Parameter lists

The types in a parameter list: markers and annotations, a parameter that only states the type of
`this`, and the modifiers that make a constructor parameter a property. Patterns and default values
are walked through.
-/

set_option autoImplicit false

namespace ModuleLinker.Erase.Program

variable (p : Program)

/-- The modifiers that make a parameter a property. -/
def parameterModifiers : List String := ["public", "private", "protected", "readonly", "override"]

/-- Overwrites the modifiers in front of a parameter. -/
def blankParameterModifiers (s : State) : State :=
  if h : p.isOneOf s.pos parameterModifiers ∧ p.bindsAt (s.pos + 1) then
    have inside : s.pos < p.tokens.size := p.lt_size_of_is h.1
    blankParameterModifiers (p.blankTo s (s.pos + 1))
  else s
termination_by p.tokens.size - s.pos
decreasing_by
  simp only [blankTo, State.goto]
  omega

/-- Steps over what a parameter binds: a name, or a pattern, which is walked through. -/
def walkBinding (w : Walker) (s : State) : Walk :=
  if p.isPunct s.pos openBrace || p.isPunct s.pos "[" then p.walkBracket w s
  else if p.isName s.pos then .ok (s.skip 1)
  else p.fail s.pos .parameterExpected

/-- Erases the types of one parameter of a list that closes at `close`, with the comma after it; the
answer names the property that the parameter declares. -/
def parameter (w : Walker) (close : Nat) (s : State) :
    Except Failure (State × Option String) := do
  if p.isPunct s.pos "@" then
    p.fail s.pos .parameterDecorator
  else
    let start := s.pos
    let unmodified := p.blankParameterModifiers s
    let isProperty := start < unmodified.pos
    let s := p.skipPunct unmodified "..."
    if p.isWord s.pos "this" && p.isPunct (s.pos + 1) ":" then
      let typed := s.goto (← p.expectType (s.pos + 2))
      let next := p.skipPunct typed ","
      .ok ((p.blank next start next.pos), none)
    else
      let name := p.text s.pos
      let s ← p.walkBinding w s
      let s ← p.blankAnnotation (p.blankMarker s "?")
      let s ← p.walkValue w close [","] s
      let property := if isProperty then some name else none
      if p.isPunct s.pos "," then .ok (s.skip 1, property)
      else if s.pos = close then .ok (s, property)
      else p.fail s.pos (.punctuatorExpected ",")

/-- Erases the types of the parameters up to the position `close`. -/
def parametersTo (w : Walker) (close : Nat) (properties : List String) (s : State) :
    Except Failure (State × List String) :=
  if s.pos < close then
    match p.parameter w close s with
    | .error e => .error e
    | .ok (next, property) =>
      parametersTo w close (properties ++ property.toList) (next.past s.pos)
  else .ok (s, properties)
termination_by close - s.pos
decreasing_by
  simp only [State.past, State.goto]
  omega

/-- Erases the types of the parameter list that opens at the state's position and goes on after it;
the answer lists the properties that its parameters declare. -/
def parameters (w : Walker) (s : State) : Except Failure (State × List String) := do
  let close := p.close s.pos
  let (inside, properties) ← p.parametersTo w close [] (s.skip 1)
  .ok (inside.goto (close + 1), properties)

/-- Erases the types of a parameter list in which no parameter may be a property, and the type of
the result. -/
def signature (w : Walker) (s : State) : Walk := do
  let (next, properties) ← p.parameters w s
  if properties.isEmpty then p.blankAnnotation next
  else p.fail s.pos .propertyOutsideConstructor

end ModuleLinker.Erase.Program
