import ModuleLinker.Erase.Statement

/-!
# One step of a walk

What a walk does with the token at its position: it erases the construct that starts there and goes
on after it, or leaves the token alone. Whether a parenthesis holds parameters, a `<` opens type
arguments, a `!` asserts or a word is a keyword is decided from the neighbouring tokens.
-/

set_option autoImplicit false

namespace ModuleLinker.Erase.Program

variable (p : Program)

/-- Whether a result type stands after the parenthesis that closes at a position, with a punctuator
right after it on the same line. -/
def typedBefore (close : Nat) (text : String) : Bool :=
  p.isPunct (close + 1) ":" &&
    match p.typeEnd? (close + 2) with
    | some ⟨j, _⟩ => p.isPunct j text && !p.newlineBefore j
    | none => false

/-- Walks through the parenthesis at the state's position: the parameters of an arrow function or
of a method, or an expression. -/
def stepParenthesis (w : Walker) (s : State) : Walk :=
  let i := s.pos
  let close := p.close i
  let arrow := p.isPunct (close + 1) "=>" || p.typedBefore close "=>"
  let method := i != 0 && p.endsMethodName (i - 1) &&
    ((p.isPunct (close + 1) openBrace && !p.newlineBefore (close + 1)) ||
      p.typedBefore close openBrace)
  if arrow || method then p.signature w s else p.walkBracket w s

/-- Overwrites the type arguments of a call, the type parameters of an arrow function or a type
assertion, where the `<` at the state's position opens one of them. -/
def stepAngle (s : State) : State :=
  let i := s.pos
  match p.angleEnd? i with
  | none => s.skip 1
  | some ⟨stop, _⟩ =>
    let erases :=
      if i != 0 && p.endsValue (i - 1) then
        p.isName (i - 1) && !p.newlineBefore i &&
          (p.isPunct stop "(" || p.kind? stop == some .template)
      else
        p.is stop fun t =>
          t.isPunct "(" || t.kind == .ident || t.kind == .string || t.kind == .number
    if erases then p.blankTo s stop else s.skip 1

/-- Overwrites the type assertion whose keyword stands at the state's position, after a value on the
same line. -/
def stepAssertion (s : State) : Walk := do
  if s.pos == 0 || !p.endsValue (s.pos - 1) || p.newlineBefore s.pos then .ok (s.skip 1)
  else .ok (p.blankTo s (← p.expectType (s.pos + 1)))

/-- Erases the construct that the word at the state's position starts, if it starts one. -/
def stepWord (w : Walker) (limit : Nat) (s : State) : Walk :=
  let i := s.pos
  let word := p.text i
  if p.afterDot i then .ok (s.skip 1)
  else if word == "import" then p.importDeclaration i s
  else if word == "export" then p.exportDeclaration w i s
  else if word == "function" then p.functionDeclaration w i i (i + 1) s
  else if word == "class" then p.classDeclaration w i (i + 1) s
  else if word == "const" && p.isWord (i + 1) "enum" then p.enumeration i s
  else if word == "let" || word == "const" || word == "var" then p.variableDeclaration w i limit s
  else if word == "as" || word == "satisfies" then p.stepAssertion s
  else if word == "catch" && p.isPunct (i + 1) "(" then do
    let (next, _) ← p.parameters w (s.skip 1)
    .ok next
  else if p.startsStatement i then p.typeStatement w i i (i + 1) s
  else .ok (s.skip 1)

/-- Erases the types in the substitutions of a template literal, one after another. -/
def stepHoles (w : Walker) (s : State) : List Hole → Walk
  | [] => .ok s
  | hole :: holes =>
    match w.hole hole with
    | .error e => .error (e.shifted hole.start)
    | .ok edits => stepHoles w { s with edits := s.edits.adopt edits hole.start } holes

/-- Takes one step from the state's position. -/
def step (w : Walker) (limit : Nat) (s : State) : Walk :=
  match p.tokens[s.pos]? with
  | none => .ok (s.goto limit)
  | some t =>
    if t.isPunct "(" then p.stepParenthesis w s
    else if t.isPunct openBrace || t.isPunct "[" then p.walkBracket w s
    else if t.isPunct "<" then .ok (p.stepAngle s)
    else if t.isPunct "!" && s.pos != 0 && p.endsValue (s.pos - 1) && !t.newlineBefore then
      .ok (p.blankTo s (s.pos + 1))
    else if t.kind == .ident then p.stepWord w limit s
    else if t.kind == .template then stepHoles w (s.skip 1) t.holes
    else .ok (s.skip 1)

/-- Walks from a state up to a limit or to the first position at which it has to stop, where `hole`
gives the edits of a substitution. A step goes forward, and so does every walk within it; that a
walk goes on at a later position in any case shows that it ends. -/
def walk (hole : Hole → Except Failure Edits) (limit : Nat) (stop : Nat → Bool) (s : State) :
    Walk :=
  if _inside : s.pos < p.tokens.size then
    if s.pos < limit && !stop s.pos then
      let inner : Walker := ⟨fun limit stop t => walk hole limit stop (t.past s.pos), hole⟩
      match p.step inner limit s with
      | .error e => .error e
      | .ok next => walk hole limit stop (next.past s.pos)
    else .ok s
  else .ok s
termination_by p.tokens.size - s.pos
decreasing_by
  all_goals
    simp only [State.past, State.goto]
    omega

end ModuleLinker.Erase.Program
