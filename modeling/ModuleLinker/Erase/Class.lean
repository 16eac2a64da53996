import ModuleLinker.Erase.Parameters

/-!
# Classes

The types in a class: its type parameters and those of its base, the interfaces it implements, and
in its body the modifiers, markers and annotations of members. Members that only state a type go as
a whole: abstract and declared members, overloads and index signatures. A constructor parameter with
a modifier becomes an assignment at the start of the body.
-/

set_option autoImplicit false

namespace ModuleLinker.Erase.Program

variable (p : Program)

/-- The position of the brace at which a header goes over into its body; a header without one is a
complaint about the token at `report`. -/
def bodyAhead (report i : Nat) : Except Failure Nat :=
  match h : p.tokens[i]? with
  | none => p.fail report (.punctuatorExpected openBrace)
  | some t =>
    have : i < p.tokens.size := (Array.getElem?_eq_some_iff.1 h).1
    if t.isPunct openBrace then .ok i
    else if t.isPunct "<" then
      match p.angleEnd? i with
      | none => p.fail i (.punctuatorExpected ">")
      | some ⟨j, _⟩ => bodyAhead report j
    else bodyAhead report (i + 1)
termination_by p.tokens.size - i

/-- Walks through the expression that a class extends, up to its interfaces or its body. -/
def walkHeritage (w : Walker) (s : State) : Walk :=
  match h : p.tokens[s.pos]? with
  | none => .ok s
  | some t =>
    have : s.pos < p.tokens.size := (Array.getElem?_eq_some_iff.1 h).1
    if t.isPunct openBrace || t.isWord "implements" then .ok s
    else
      let next : Walk :=
        if t.isPunct "(" || t.isPunct "[" then p.walkBracket w s
        else if t.isPunct "<" then p.blankTypeParameters s
        else .ok (s.skip 1)
      match next with
      | .error e => .error e
      | .ok next => walkHeritage w (next.past s.pos)
termination_by p.tokens.size - s.pos
decreasing_by
  simp only [State.past, State.goto]
  omega

/-- The modifiers of class members. -/
def memberModifiers : List String := [
  "public", "private", "protected", "readonly", "override", "abstract", "declare", "static",
  "async", "get", "set", "accessor"]

/-- Whether a token is a modifier of the member after it, and not itself the name of a member. -/
def modifiesMember (i : Nat) : Bool :=
  p.isOneOf i memberModifiers && !p.newlineBefore (i + 1) &&
    p.is (i + 1) fun t =>
      match t.kind with
      | .ident | .string | .number | .privateName => true
      | .punct => t.text == "[" || t.text == "*" || (t.text == openBrace && p.isWord i "static")
      | _ => false

/-- What the modifiers of a member say. -/
structure MemberModifiers where
  /-- The member only states a type. -/
  ambient : Bool := false
  /-- The member belongs to the class itself. -/
  isStatic : Bool := false

/-- Overwrites the modifiers of a member that have no meaning at run time. -/
def blankMemberModifiers (found : MemberModifiers) (s : State) : State × MemberModifiers :=
  if h : p.modifiesMember s.pos then
    have : s.pos < p.tokens.size := by
      simp only [modifiesMember, Bool.and_eq_true] at h
      exact p.lt_size_of_is h.1.1
    let word := p.text s.pos
    let next := if parameterModifiers.contains word then p.blank s s.pos (s.pos + 1) else s
    blankMemberModifiers
      { ambient := found.ambient || word == "abstract" || word == "declare",
        isStatic := found.isStatic || word == "static" }
      (next.goto (s.pos + 1))
  else (s, found)
termination_by p.tokens.size - s.pos
decreasing_by
  simp only [State.goto]
  omega

/-- Walks through the decorators in front of a member. -/
def walkDecorators (w : Walker) (s : State) : Walk :=
  if h : p.isPunct s.pos "@" then
    have : s.pos < p.tokens.size := p.lt_size_of_is h
    let named := if p.isName (s.pos + 1) then s.pos + 2 else s.pos + 1
    let called := s.goto (p.qualifiersEnd named).1
    let next := if p.isPunct called.pos "(" then p.walkBracket w called else .ok called
    match next with
    | .error e => .error e
    | .ok next => walkDecorators w (next.past s.pos)
  else .ok s
termination_by p.tokens.size - s.pos
decreasing_by
  simp only [State.past, State.goto]
  omega

/-- The code that assigns the properties a constructor's parameters declare. -/
def assignments (properties : List String) : String :=
  " " ++ " ".intercalate (properties.map fun name => "this." ++ name ++ " = " ++ name ++ ";")

/-- Erases the method whose parameters open at the state's position, where `start` and `name` are
the positions of its first token and of its name. -/
def method (w : Walker) (derived ambient : Bool) (start name : Nat) (s : State) : Walk := do
  let (afterParameters, properties) ← p.parameters w s
  let typed ← p.blankAnnotation afterParameters
  if p.isPunct typed.pos openBrace && !ambient then
    if properties.isEmpty then p.walkBracket w typed
    else if !p.isWord name "constructor" then p.fail s.pos .propertyOutsideConstructor
    else if derived then p.fail s.pos .propertyInDerivedClass
    else
      let inside := p.offset typed.pos + 1
      p.walkBracket w
        { typed with edits := ⟨inside, inside, some (assignments properties)⟩ :: typed.edits }
  else
    let ended := p.skipPunct typed ";"
    .ok (p.blank ended start ended.pos)

/-- Whether the value of a field that starts at `first` ends before position `i`: at a semicolon, or
where another member starts on a line of its own. -/
def endsField (first i : Nat) : Bool :=
  p.isPunct i ";" ||
    (first < i && p.newlineBefore i && !p.expectsOperand (i - 1) &&
      p.is i fun t =>
        match t.kind with
        | .ident | .string | .number | .privateName => true
        | .punct => t.text == "@" || t.text == "*"
        | _ => false)

/-- Erases the types of the field whose name ends before the state's position, where `start` is the
position of its first token. -/
def classField (w : Walker) (close : Nat) (ambient : Bool) (start : Nat) (s : State) : Walk := do
  let typed ← p.blankAnnotation s
  let valued ←
    if p.isPunct typed.pos "=" then
      w.walk close (p.endsField (typed.pos + 1)) (typed.skip 1)
    else .ok typed
  let ended := p.skipPunct valued ";"
  .ok (if ambient then p.blank ended start ended.pos else ended)

/-- Steps over the name of a member; a computed name is walked through. -/
def walkMemberName (w : Walker) (s : State) : Walk :=
  match p.kind? s.pos with
  | some .ident | some .string | some .number | some .privateName => .ok (s.skip 1)
  | _ =>
    if p.isPunct s.pos "[" then p.walkBracket w s
    else p.fail s.pos .unexpectedInClass

/-- Erases the index signature that opens at the state's position. -/
def indexSignature (start : Nat) (s : State) : Walk := do
  let close := p.close s.pos + 1
  let typed ← if p.isPunct close ":" then p.expectType (close + 1) else .ok close
  let ended := p.skipPunct (s.goto typed) ";"
  .ok (p.blank ended start ended.pos)

/-- Erases the types of one member of a class body that closes at `close`. -/
def classMember (w : Walker) (derived : Bool) (close : Nat) (s : State) : Walk := do
  if p.isPunct s.pos ";" then .ok (s.skip 1)
  else
    let start := s.pos
    let decorated ← p.walkDecorators w s
    let (s, modifiers) := p.blankMemberModifiers {} decorated
    if modifiers.isStatic && p.isPunct s.pos openBrace then p.walkBracket w s
    else
      let s := p.skipPunct s "*"
      if p.isPunct s.pos "[" && p.isName (s.pos + 1) && p.isPunct (s.pos + 2) ":" then
        p.indexSignature start s
      else
        let name := s.pos
        let named ← p.walkMemberName w s
        let marked :=
          if p.isPunct named.pos "?" then p.blankMarker named "?" else p.blankMarker named "!"
        let s ← p.blankTypeParameters marked
        if p.isPunct s.pos "(" then p.method w derived modifiers.ambient start name s
        else p.classField w close modifiers.ambient start s

/-- Erases the types of the members up to the position `close`. -/
def classMembers (w : Walker) (derived : Bool) (close : Nat) (s : State) : Walk :=
  if s.pos < close then
    match p.classMember w derived close s with
    | .error e => .error e
    | .ok next => classMembers w derived close (next.past s.pos)
  else .ok s
termination_by close - s.pos
decreasing_by
  simp only [State.past, State.goto]
  omega

/-- Erases the types of the class whose keyword stands at position `i`; where no class body follows,
the walk goes on at `resume`. -/
def classDeclaration (w : Walker) (i resume : Nat) (s : State) : Walk := do
  let named :=
    if p.isName (i + 1) && !p.isWord (i + 1) "extends" && !p.isWord (i + 1) "implements" then
      i + 2
    else i + 1
  let generic ← p.blankTypeParameters (s.goto named)
  let derived := p.isWord generic.pos "extends"
  let inherited ← if derived then p.walkHeritage w (generic.skip 1) else .ok generic
  let headed ←
    if p.isWord inherited.pos "implements" then
      .ok (p.blankTo inherited (← p.bodyAhead inherited.pos inherited.pos))
    else .ok inherited
  if p.isPunct headed.pos openBrace then
    let close := p.close headed.pos
    let members ← p.classMembers w derived close (headed.skip 1)
    .ok (members.goto (close + 1))
  else .ok (headed.goto resume)

end ModuleLinker.Erase.Program
