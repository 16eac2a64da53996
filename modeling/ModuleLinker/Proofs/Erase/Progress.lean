import ModuleLinker.Proofs.Checked.Erase

/-!
# The eraser comes forward

A loop is given by its turn: what it does once, and how its result depends on what it gives where it goes
on. It comes forward (`ComesForward`) if it goes on at a later place in every case. The walk through the
tokens, with the walks that are nested in it, is such a loop, and so are the loops within a step: through
the parameters of a list, the variables of a declaration, the header and the members of a class, the
members of an enum, and a value or an ambient declaration up to its end (`Erase.Program.Progresses`). None
of them needs to be told to go on behind the place where it was.

So the eraser ends: in a text it takes one turn more than there are tokens at most, and a substitution is
a shorter text (`erase_comes_forward`).
-/

set_option autoImplicit false

namespace ModuleLinker

open Erase

/-- Whether a loop is given by its turn and comes forward: of what the loop gives, a turn uses only that
at later places. -/
def ComesForward {ι α : Type} (inside : ι → Prop) (place : ι → Nat) (turn : (ι → α) → ι → α)
    (loop : ι → α) : Prop :=
  ∀ i, inside i → ∀ rest : ι → α, (∀ j, inside j → place i < place j → rest j = loop j) →
    turn rest i = loop i

/-- A loop that comes forward is done after as many turns as there are places, whatever would be taken as
its result where the turns do not suffice. -/
theorem ComesForward.iterate {ι α : Type} {inside : ι → Prop} {place : ι → Nat}
    {turn : (ι → α) → ι → α} {loop : ι → α} {bound : Nat} (forward : ComesForward inside place turn loop)
    (within : ∀ i, inside i → place i ≤ bound) (lost : ι → α) {n : Nat} {i : ι} (here : inside i)
    (many : bound - place i < n) : turn^[n] lost i = loop i := by
  induction n generalizing i with
  | zero => exact absurd many (Nat.not_lt_zero _)
  | succ n ih =>
    rw [Function.iterate_succ_apply']
    refine forward i here _ fun j inside later => ih inside ?_
    have le := within j inside
    omega

namespace Erase.Program

/-! ## Turns -/

/-- A part of a walk: from a state up to a limit or to the first position at which it has to stop. -/
structure Leg where
  /-- The position that the walk goes up to. -/
  limit : Nat
  /-- Whether it has to stop at a position. -/
  stop : Nat → Bool
  /-- Where it starts. -/
  state : State

section

variable (p : Program)

/-- One step of a walk; `rest` walks on, and in what the step meets. -/
def walkTurn (hole : Hole → Except Failure Edits) (rest : Leg → Walk) (leg : Leg) : Walk :=
  if leg.state.pos < leg.limit && !leg.stop leg.state.pos then
    match p.step ⟨fun limit stop s => rest ⟨limit, stop, s⟩, hole⟩ leg.limit leg.state with
    | .error e => .error e
    | .ok next => rest ⟨leg.limit, leg.stop, next⟩
  else .ok leg.state

/-- One modifier in front of a parameter. -/
def parameterModifiersTurn (rest : State → State) (s : State) : State :=
  if p.isOneOf s.pos parameterModifiers ∧ p.bindsAt (s.pos + 1) then rest (p.blankTo s (s.pos + 1))
  else s

/-- One parameter of a list that closes at `close`, behind those that declare some properties. -/
def parametersTurn (w : Walker) (close : Nat)
    (rest : List String × State → Except Failure (State × List String)) :
    List String × State → Except Failure (State × List String)
  | (properties, s) =>
    if s.pos < close then
      match p.parameter w close s with
      | .error e => .error e
      | .ok (next, property) => rest (properties ++ property.toList, next)
    else .ok (s, properties)

/-- One variable of a declaration. -/
def variablesTurn (w : Walker) (limit : Nat) (rest : State → Walk) (s : State) : Walk :=
  if p.bindsAt s.pos then
    match p.walkVariable w limit s with
    | .error e => .error e
    | .ok next =>
      if p.isPunct next.pos "," && p.bindsAt (next.pos + 1) then rest (next.skip 1) else .ok next
  else .ok s

/-- One token, or one list of type arguments, of a header. -/
def headerTurn (report : Nat) (rest : Nat → Except Failure Nat) (i : Nat) : Except Failure Nat :=
  match p.tokens[i]? with
  | none => p.fail report (.punctuatorExpected openBrace)
  | some t =>
    if t.isPunct openBrace then .ok i
    else if t.isPunct "<" then
      match p.angleEnd? i with
      | none => p.fail i (.punctuatorExpected ">")
      | some ⟨j, _⟩ => rest j
    else rest (i + 1)

/-- One part of the expression that a class extends. -/
def heritageTurn (w : Walker) (rest : State → Walk) (s : State) : Walk :=
  match p.tokens[s.pos]? with
  | none => .ok s
  | some t =>
    if t.isPunct openBrace || t.isWord "implements" then .ok s
    else
      let next : Walk :=
        if t.isPunct "(" || t.isPunct "[" then p.walkBracket w s
        else if t.isPunct "<" then p.blankTypeParameters s
        else .ok (s.skip 1)
      match next with
      | .error e => .error e
      | .ok next => rest next

/-- One modifier of a class member, behind those that say what is found. -/
def memberModifiersTurn (rest : MemberModifiers × State → State × MemberModifiers) :
    MemberModifiers × State → State × MemberModifiers
  | (found, s) =>
    if p.modifiesMember s.pos then
      let word := p.text s.pos
      let next := if parameterModifiers.contains word then p.blank s s.pos (s.pos + 1) else s
      rest ({ ambient := found.ambient || word == "abstract" || word == "declare",
              isStatic := found.isStatic || word == "static" }, next.goto (s.pos + 1))
    else (s, found)

/-- One decorator of a class member. -/
def decoratorsTurn (w : Walker) (rest : State → Walk) (s : State) : Walk :=
  if p.isPunct s.pos "@" then
    let named := if p.isName (s.pos + 1) then s.pos + 2 else s.pos + 1
    let called := s.goto (p.qualifiersEnd named).1
    match if p.isPunct called.pos "(" then p.walkBracket w called else .ok called with
    | .error e => .error e
    | .ok next => rest next
  else .ok s

/-- One member of a class body that closes at `close`. -/
def classMembersTurn (w : Walker) (derived : Bool) (close : Nat) (rest : State → Walk) (s : State) :
    Walk :=
  if s.pos < close then
    match p.classMember w derived close s with
    | .error e => .error e
    | .ok next => rest next
  else .ok s

/-- One member of an enum that closes at `close`. -/
def enumMembersTurn (name : String) (close : Nat) (rest : EnumState → Except Failure EnumState)
    (s : EnumState) : Except Failure EnumState :=
  if s.pos < close then
    match p.enumMember name close s with
    | .error e => .error e
    | .ok next => rest next
  else .ok s

/-- One token, or one bracket, of the value of an enum member. -/
def valueTurn (limit : Nat) (rest : Nat → Nat) (i : Nat) : Nat :=
  if i < limit then
    if p.isPunct i "," then i
    else if p.is i (·.isOpener) then rest (p.close i + 1)
    else rest (i + 1)
  else i

/-- One token, or one bracket, of an ambient declaration that starts at `first`. -/
def declarationTurn (first : Nat) (rest : Nat → Nat) (i : Nat) : Nat :=
  match p.tokens[i]? with
  | none => i
  | some t =>
    if t.isPunct ";" then i + 1
    else if t.isPunct closeBrace then i
    else if t.isPunct openBrace then
      let next := p.close i + 1
      if p.isPunct next ";" then next + 1
      else if p.newlineBefore next then next
      else rest next
    else if t.isPunct "(" || t.isPunct "[" then rest (p.close i + 1)
    else if first < i && t.newlineBefore && !p.expectsOperand (i - 1) && !t.isPunct "|" &&
        !t.isPunct "&" then i
    else rest (i + 1)

/-- The edits of the text of a substitution. -/
def substitution (h : Hole) : Except Failure Edits := editsOf h.text

/-- How the eraser walks on inside a construct. -/
def eraser : Walker := ⟨p.walk substitution, substitution⟩

/-- Whether the edits of every text that is shorter than the program's are those of the eraser. -/
def ErasesShorter (hole : Hole → Except Failure Edits) : Prop :=
  ∀ h : Hole, h.text.length < p.source.length → hole h = editsOf h.text

/-- Whether a walker does what the eraser does on all walks that start behind a position, and on shorter
texts. What it does on other walks and texts is left open. -/
structure Follows (w : Walker) (i : Nat) : Prop where
  /-- The walks are the same. -/
  walk : ∀ (limit : Nat) (stop : Nat → Bool) (s : State), limit ≤ p.tokens.size → i < s.pos →
    s.pos ≤ p.tokens.size → w.walk limit stop s = p.eraser.walk limit stop s
  /-- The edits of substitutions are the same. -/
  hole : p.ErasesShorter w.hole

/-- Whether the eraser comes forward in a program, at every position and in every construct. -/
structure Progresses : Prop where
  /-- A step fails or leads on. -/
  step : ∀ (limit : Nat) (s next : State), limit ≤ p.tokens.size → s.pos < limit →
    p.step p.eraser limit s = .ok next → s.pos < next.pos ∧ next.pos ≤ p.tokens.size
  /-- A step asks for walks from later positions and for the edits of shorter texts, and for nothing
  else. -/
  nested : ∀ (limit : Nat) (s : State) (w : Walker), limit ≤ p.tokens.size → s.pos < limit →
    p.Follows w s.pos → p.step w limit s = p.step p.eraser limit s
  /-- A substitution is shorter than the text that it lies in. -/
  shorter : ∀ t ∈ p.tokens, ∀ h ∈ t.holes, h.text.length < p.source.length
  /-- An opening bracket is left behind its partner. -/
  closes : ∀ (i : Nat) (t : Token), p.tokens[i]? = some t → t.isOpener = true →
    p.partners[i]? = some (some (p.close i)) ∧ p.close i < p.tokens.size
  /-- A walk, up to any limit and with any stops, such as the ends of a field in a class. -/
  walk : ComesForward (fun leg : Leg => leg.limit ≤ p.tokens.size ∧ leg.state.pos ≤ p.tokens.size)
    (·.state.pos) (p.walkTurn substitution) fun leg => p.eraser.walk leg.limit leg.stop leg.state
  /-- The modifiers in front of a parameter. -/
  parameterModifiers : ComesForward (·.pos ≤ p.tokens.size) State.pos p.parameterModifiersTurn
    p.blankParameterModifiers
  /-- The parameters of a list. -/
  parameters : ∀ close ≤ p.tokens.size,
    ComesForward (·.2.pos ≤ p.tokens.size) (·.2.pos) (p.parametersTurn p.eraser close) fun i =>
      p.parametersTo p.eraser close i.1 i.2
  /-- The variables of a declaration. -/
  bindings : ∀ limit ≤ p.tokens.size,
    ComesForward (·.pos ≤ p.tokens.size) State.pos (p.variablesTurn p.eraser limit)
      (p.walkVariables p.eraser limit)
  /-- The header of a class or an interface. -/
  header : ∀ report, ComesForward (· ≤ p.tokens.size) id (p.headerTurn report) (p.bodyAhead report)
  /-- The expression that a class extends. -/
  heritage : ComesForward (·.pos ≤ p.tokens.size) State.pos (p.heritageTurn p.eraser)
    (p.walkHeritage p.eraser)
  /-- The decorators of a class member. -/
  decorators : ComesForward (·.pos ≤ p.tokens.size) State.pos (p.decoratorsTurn p.eraser)
    (p.walkDecorators p.eraser)
  /-- The modifiers of a class member. -/
  memberModifiers : ComesForward (·.2.pos ≤ p.tokens.size) (·.2.pos) p.memberModifiersTurn fun i =>
    p.blankMemberModifiers i.1 i.2
  /-- The members of a class. -/
  classMembers : ∀ (derived : Bool), ∀ close ≤ p.tokens.size,
    ComesForward (·.pos ≤ p.tokens.size) State.pos (p.classMembersTurn p.eraser derived close)
      (p.classMembers p.eraser derived close)
  /-- The members of an enum. -/
  enumMembers : ∀ (name : String), ∀ close ≤ p.tokens.size,
    ComesForward (·.pos ≤ p.tokens.size) EnumState.pos (p.enumMembersTurn name close)
      (p.enumMembers name close)
  /-- The value of an enum member. -/
  value : ∀ limit ≤ p.tokens.size,
    ComesForward (· ≤ p.tokens.size) id (p.valueTurn limit) (p.valueEnd limit)
  /-- The rest of an ambient declaration. -/
  declaration : ∀ first,
    ComesForward (· ≤ p.tokens.size) id (p.declarationTurn first) (p.declarationEnd first)

end

end Erase.Program

/-! ## Computations that agree with the same one -/

namespace Checked

/-- The walks of the eraser, with checks. -/
def eraser (p : Program) : Walker :=
  ⟨walk p fun h => editsOf h.text, fun h => editsOf h.text⟩

theorem ofFailure_injective : Function.Injective Halt.ofFailure := by
  intro f g same
  cases f <;> cases g <;> cases same <;> rfl

/-- With one checked computation agrees one without checks at most. -/
theorem Agrees.unique {α : Type} {source : List Char} {m : Checked α} {x y : Except Failure α}
    {kind kind' : α → Prop} (first : Agrees source m x kind) (second : Agrees source m y kind') :
    x = y := by
  have same : x.mapError Halt.ofFailure = y.mapError Halt.ofFailure :=
    first.outcome.symm.trans second.outcome
  cases x <;> cases y
  · exact congrArg _ (ofFailure_injective (Except.error.inj same))
  · cases same
  · cases same
  · exact congrArg _ (Except.ok.inj same)

end Checked

namespace Erase.Program.IsSound

open Checked

variable {p : Program} (sound : p.IsSound)
include sound

/-! ## What a step asks for -/

theorem holes_agree {hole : Hole → Except Failure Edits} (shorter : p.ErasesShorter hole) :
    ∀ t ∈ p.tokens, ∀ h ∈ t.holes, Checked.Agrees h.text (Checked.editsOf h.text) (hole h) fun edits =>
      ∀ e ∈ edits, e.IsInside h.text.length := by
  intro t token h inside
  rw [shorter h (length_hole_lt sound.read token inside)]
  exact editsOf_agrees h.text

theorem walker_agrees {w : Walker} {i : Nat} (follows : p.Follows w i) :
    (Checked.eraser p).Agrees w p i where
  walk limit stop' stop s same within later le := by
    rw [follows.walk limit stop s within later le]
    exact walk_agrees sound (sound.holes_agree fun _ _ => rfl) same within le
  hole := sound.holes_agree follows.hole

theorem eraser_agrees (i : Nat) : (Checked.eraser p).Agrees p.eraser p i :=
  sound.walker_agrees ⟨fun _ _ _ _ _ _ => rfl, fun _ _ => rfl⟩

/-- A step fails or leads to a later position. -/
theorem step_from {limit : Nat} {s next : State} (within : limit ≤ p.tokens.size) (less : s.pos < limit)
    (done : p.step p.eraser limit s = .ok next) : From p (s.pos + 1) next := by
  have inside := Nat.lt_of_lt_of_le less within
  exact (step_agrees sound (sound.eraser_agrees s.pos) rfl inside within).result _ done

/-- A step is the same with any walker that does what the eraser does from later positions on. -/
theorem step_eq {limit : Nat} {s : State} {w : Walker} (within : limit ≤ p.tokens.size)
    (less : s.pos < limit) (follows : p.Follows w s.pos) :
    p.step w limit s = p.step p.eraser limit s := by
  have inside := Nat.lt_of_lt_of_le less within
  exact (step_agrees sound (sound.walker_agrees follows) rfl inside within).unique
    (step_agrees sound (sound.eraser_agrees s.pos) rfl inside within)

/-- A walk is the same whatever the edits of longer texts are. -/
theorem walk_eq {hole : Hole → Except Failure Edits} (shorter : p.ErasesShorter hole) {limit : Nat}
    {stop : Nat → Bool} {s : State} (within : limit ≤ p.tokens.size) (le : s.pos ≤ p.tokens.size) :
    p.walk hole limit stop s = p.eraser.walk limit stop s :=
  (walk_agrees sound (sound.holes_agree shorter) (fun _ => rfl) within le).unique
    (walk_agrees sound (sound.holes_agree fun _ _ => rfl) (fun _ => rfl) within le)

omit sound in
/-- Where a part of a turn leads to a later position, the loop goes on from there. -/
theorem onward_eq {s : State} {part : Walk} {rest loop : State → Walk} :
    (∀ next, part = .ok next → From p (s.pos + 1) next) →
    (∀ next : State, next.pos ≤ p.tokens.size → s.pos < next.pos → rest next = loop next) →
    (match part with
      | .error e => .error e
      | .ok next => rest next) =
    (match part with
      | .error e => .error e
      | .ok next => loop (next.past s.pos) : Walk) := by
  intro after same
  cases part with
  | error e => rfl
  | ok next =>
    obtain ⟨further, inside⟩ := after next rfl
    dsimp only
    rw [past_eq_self further]
    exact same next inside further

/-- A walk comes forward, whatever the edits of longer texts are. -/
theorem walk_comesForward {hole : Hole → Except Failure Edits} (shorter : p.ErasesShorter hole) :
    ComesForward (fun leg : Leg => leg.limit ≤ p.tokens.size ∧ leg.state.pos ≤ p.tokens.size)
      (·.state.pos) (p.walkTurn hole) fun leg => p.eraser.walk leg.limit leg.stop leg.state := by
  rintro ⟨limit, stop, s⟩ ⟨within, le⟩ rest same
  dsimp only at within le same ⊢
  rw [walkTurn]
  change _ = p.walk substitution limit stop s
  rw [Program.walk]
  by_cases goes : (decide (s.pos < limit) && !stop s.pos) = true
  case neg =>
    rw [if_neg goes]
    split <;> rfl
  case pos =>
    have less : s.pos < limit := of_decide_eq_true (Bool.and_eq_true _ _ |>.mp goes).1
    rw [if_pos goes, dif_pos (Nat.lt_of_lt_of_le less within), if_pos goes]
    -- Both the turn and the guarded walk step with a walker that follows the eraser.
    have free : p.Follows ⟨fun limit stop s => rest ⟨limit, stop, s⟩, hole⟩ s.pos :=
      ⟨fun limit' stop' s' within' later le' => same ⟨limit', stop', s'⟩ ⟨within', le'⟩ later, shorter⟩
    have guarded : p.Follows (p.walkerAt substitution s.pos) s.pos :=
      ⟨fun limit' stop' _ _ later _ => congrArg (p.walk substitution limit' stop') (past_eq_self later),
        fun _ _ => rfl⟩
    have step := sound.step_eq within less guarded
    rw [walkerAt] at step
    dsimp only
    rw [sound.step_eq within less free, step]
    exact onward_eq (fun _ => sound.step_from within less) fun next inside further =>
      same ⟨limit, stop, next⟩ ⟨within, inside⟩ further

/-! ## Loops within a step -/

omit sound in
theorem parameterModifiers_comesForward :
    ComesForward (·.pos ≤ p.tokens.size) State.pos p.parameterModifiersTurn p.blankParameterModifiers := by
  intro s le rest same
  rw [parameterModifiersTurn, Program.blankParameterModifiers]
  split
  case isTrue modifier => exact same _ (p.lt_size_of_is modifier.1) (Nat.lt_succ_self s.pos)
  case isFalse => rfl

theorem parameters_comesForward {close : Nat} (within : close ≤ p.tokens.size) :
    ComesForward (·.2.pos ≤ p.tokens.size) (·.2.pos) (p.parametersTurn p.eraser close) fun i =>
      p.parametersTo p.eraser close i.1 i.2 := by
  rintro ⟨properties, s⟩ le rest same
  dsimp only at le same ⊢
  rw [parametersTurn, Program.parametersTo]
  split
  case isFalse => rfl
  case isTrue less =>
    cases found : p.parameter p.eraser close s with
    | error e => rfl
    | ok r =>
      obtain ⟨next, property⟩ := r
      have after : From p (s.pos + 1) next :=
        (parameter_agrees sound (sound.eraser_agrees s.pos) within (Nat.le_refl _) le).result _ found
      dsimp only
      rw [past_eq_self after.1]
      exact same (_, next) after.2 after.1

theorem bindings_comesForward {limit : Nat} (within : limit ≤ p.tokens.size) :
    ComesForward (·.pos ≤ p.tokens.size) State.pos (p.variablesTurn p.eraser limit)
      (p.walkVariables p.eraser limit) := by
  intro s le rest same
  rw [variablesTurn, Program.walkVariables]
  split
  case isFalse => rfl
  case isTrue =>
    cases found : p.walkVariable p.eraser limit s with
    | error e => rfl
    | ok next =>
      have after : From p (s.pos + 1) next :=
        (walkVariable_agrees sound (sound.eraser_agrees s.pos) within (Nat.le_refl _) le).result _ found
      have further : s.pos < (next.skip 1).pos := Nat.lt_succ_of_lt after.1
      dsimp only
      split
      case isFalse => rfl
      case isTrue more =>
        rw [Bool.and_eq_true] at more
        rw [past_eq_self further]
        exact same _ (p.lt_size_of_is more.1) further

theorem header_comesForward (report : Nat) :
    ComesForward (· ≤ p.tokens.size) id (p.headerTurn report) (p.bodyAhead report) := by
  intro i le rest same
  rw [Program.bodyAhead]
  split
  case h_1 none => rw [headerTurn, none]
  case h_2 t found =>
    have inside : i < p.tokens.size := (Array.getElem?_eq_some_iff.mp found).1
    dsimp only
    rw [headerTurn, found]
    dsimp only
    split
    · rfl
    split
    case isTrue angle =>
      have opens : p.isPunct i "<" = true := (Option.any_eq_true ..).mpr ⟨t, found, angle⟩
      cases ends : p.angleEnd? i with
      | none => rfl
      | some j => exact same j.1 ((angleEnd?_finds sound opens).within j ends) j.2
    case isFalse => exact same (i + 1) inside (Nat.lt_succ_self i)

theorem heritage_comesForward :
    ComesForward (·.pos ≤ p.tokens.size) State.pos (p.heritageTurn p.eraser) (p.walkHeritage p.eraser) := by
  intro s le rest same
  rw [Program.walkHeritage]
  split
  case h_1 none => rw [heritageTurn, none]
  case h_2 t found =>
    dsimp only
    rw [heritageTurn, found]
    dsimp only
    split
    case isTrue => rfl
    case isFalse =>
      have part := heritagePart_agrees sound (sound.eraser_agrees s.pos) found (Nat.le_refl _)
      exact onward_eq part.result same

/-- The name of a decorator ends at a later position. -/
theorem decoratorEnd_from {i : Nat} (sign : p.isPunct i "@" = true) :
    i < (p.qualifiersEnd (if p.isName (i + 1) then i + 2 else i + 1)).1 ∧
      (p.qualifiersEnd (if p.isName (i + 1) then i + 2 else i + 1)).1 ≤ p.tokens.size := by
  have named : i < (if p.isName (i + 1) then i + 2 else i + 1) ∧
      (if p.isName (i + 1) then i + 2 else i + 1) ≤ p.tokens.size := by
    split
    case isTrue name => exact ⟨by omega, p.lt_size_of_is name⟩
    case isFalse => exact ⟨Nat.lt_succ_self i, p.lt_size_of_is sign⟩
  exact ⟨Nat.lt_of_lt_of_le named.1 (p.qualifiersEnd _).2, (qualifiersEnd_eq sound named.2).2⟩

theorem decorators_comesForward :
    ComesForward (·.pos ≤ p.tokens.size) State.pos (p.decoratorsTurn p.eraser)
      (p.walkDecorators p.eraser) := by
  intro s le rest same
  rw [decoratorsTurn, Program.walkDecorators]
  split
  case isFalse => rfl
  case isTrue sign =>
    obtain ⟨past, within⟩ := sound.decoratorEnd_from sign
    have call := walkCall_agrees sound (sound.eraser_agrees s.pos) (s := s.goto _) (Nat.le_of_lt past) within
    exact onward_eq (fun next done => (call.result next done).trans past) same

omit sound in
theorem memberModifiers_comesForward :
    ComesForward (·.2.pos ≤ p.tokens.size) (·.2.pos) p.memberModifiersTurn fun i =>
      p.blankMemberModifiers i.1 i.2 := by
  rintro ⟨found, s⟩ le rest same
  dsimp only at le same ⊢
  rw [memberModifiersTurn, Program.blankMemberModifiers]
  split
  case isFalse => rfl
  case isTrue modifier => exact same (_, _) (lt_size_of_modifiesMember modifier) (Nat.lt_succ_self s.pos)

theorem classMembers_comesForward (derived : Bool) {close : Nat} (within : close ≤ p.tokens.size) :
    ComesForward (·.pos ≤ p.tokens.size) State.pos (p.classMembersTurn p.eraser derived close)
      (p.classMembers p.eraser derived close) := by
  intro s le rest same
  rw [classMembersTurn, Program.classMembers]
  split
  case isFalse => rfl
  case isTrue less =>
    have member := classMember_agrees sound (sound.eraser_agrees s.pos) derived within (Nat.le_refl _) le
    exact onward_eq member.result same

/-- A member of an enum is written up to a later position. -/
theorem enumMember_from {name : String} {close : Nat} {s next : EnumState} (within : close ≤ p.tokens.size)
    (done : p.enumMember name close s = .ok next) : s.pos < next.pos ∧ next.pos ≤ p.tokens.size := by
  have afterComma {i : Nat} (le : i ≤ p.tokens.size) :
      i ≤ (if p.isPunct i "," then i + 1 else i) ∧ (if p.isPunct i "," then i + 1 else i) ≤ p.tokens.size :=
    (punctEnd_eq sound le ",").2
  unfold enumMember at done
  split at done
  case h_1 => cases done
  case h_2 key found =>
  dsimp only at done
  split at done
  case isTrue equals =>
    have value := (valueEnd_eq sound within (i := s.pos + 1 + 1) (p.lt_size_of_is equals)).2
    have comma := afterComma value.2
    generalize p.valueEnd close (s.pos + 1 + 1) = last at done value comma
    have further : s.pos < if p.isPunct last "," then last + 1 else last := by omega
    split at done
    case isTrue => cases done
    case isFalse => split at done <;> cases done <;> exact ⟨further, comma.2⟩
  case isFalse =>
    obtain ⟨⟨code, value⟩, -, done⟩ := bind_eq_ok.mp done
    cases done
    exact afterComma (lt_size_of_memberKey? found)

theorem enumMembers_comesForward (name : String) {close : Nat} (within : close ≤ p.tokens.size) :
    ComesForward (·.pos ≤ p.tokens.size) EnumState.pos (p.enumMembersTurn name close)
      (p.enumMembers name close) := by
  intro s le rest same
  rw [enumMembersTurn, Program.enumMembers]
  split
  case isFalse => rfl
  case isTrue less =>
    cases found : p.enumMember name close s with
    | error e => rfl
    | ok next =>
      obtain ⟨further, inside⟩ := sound.enumMember_from within found
      have unmoved : { next with pos := max next.pos (s.pos + 1) } = next := by
        rw [Nat.max_eq_left further]
      dsimp only
      rw [unmoved]
      exact same next inside further

theorem value_comesForward {limit : Nat} (within : limit ≤ p.tokens.size) :
    ComesForward (· ≤ p.tokens.size) id (p.valueTurn limit) (p.valueEnd limit) := by
  intro i le rest same
  rw [valueTurn, Program.valueEnd]
  split
  case isFalse => rfl
  case isTrue less =>
    split
    · rfl
    split
    case isTrue opens =>
      obtain ⟨t, found, isOpener⟩ := (Option.any_eq_true ..).mp opens
      exact same _ (sound.partner_eq found isOpener).2 (Nat.lt_succ_of_lt (p.lt_close i))
    case isFalse => exact same (i + 1) (Nat.lt_of_lt_of_le less within) (Nat.lt_succ_self i)

theorem declaration_comesForward (first : Nat) :
    ComesForward (· ≤ p.tokens.size) id (p.declarationTurn first) (p.declarationEnd first) := by
  intro i le rest same
  rw [Program.declarationEnd]
  split
  case h_1 none => rw [declarationTurn, none]
  case h_2 t found =>
    have inside : i < p.tokens.size := (Array.getElem?_eq_some_iff.mp found).1
    have here {text : String} (punct : t.isPunct text = true) : p.isPunct i text = true :=
      (Option.any_eq_true ..).mpr ⟨t, found, punct⟩
    have closes {text : String} (punct : t.isPunct text = true) (among : text ∈ openers) :
        rest (p.close i + 1) = p.declarationEnd first (p.close i + 1) :=
      same _ (sound.partner_punct (here punct) among).2 (Nat.lt_succ_of_lt (p.lt_close i))
    dsimp only
    rw [declarationTurn, found]
    dsimp only
    split
    · rfl
    split
    · rfl
    split
    case isTrue opens => rw [closes opens (by decide)]
    split
    case isTrue opens =>
      rcases Bool.or_eq_true _ _ |>.mp opens with opens | opens <;> exact closes opens (by decide)
    split
    · rfl
    · exact same (i + 1) inside (Nat.lt_succ_self i)

/-- The eraser comes forward in a program whose brackets have partners. -/
theorem progresses : p.Progresses where
  step _ _ _ within less done := sound.step_from within less done
  nested _ _ _ within less follows := sound.step_eq within less follows
  shorter _ token _ inside := length_hole_lt sound.read token inside
  closes i t found isOpener := by
    obtain ⟨j, pair, later, inside⟩ := sound.matched i t found isOpener
    have close : p.close i = j := by
      unfold Program.close
      rw [pair]
      exact Nat.max_eq_left later
    exact ⟨close ▸ pair, close ▸ inside⟩
  walk := sound.walk_comesForward fun _ _ => rfl
  parameterModifiers := parameterModifiers_comesForward
  parameters _ within := sound.parameters_comesForward within
  bindings _ within := sound.bindings_comesForward within
  header := sound.header_comesForward
  heritage := sound.heritage_comesForward
  decorators := sound.decorators_comesForward
  memberModifiers := memberModifiers_comesForward
  classMembers derived _ within := sound.classMembers_comesForward derived within
  enumMembers name _ within := sound.enumMembers_comesForward name within
  value _ within := sound.value_comesForward within
  declaration := sound.declaration_comesForward

end Erase.Program.IsSound

/-! ## The eraser ends -/

namespace Erase

open Program

/-- The edits that erase the types of a source text, found by turns alone: at most `n` texts lie one within
another, and in each of them no chain of turns is longer than the tokens are many, by more than one. Where
that does not suffice the eraser is lost. -/
def editsWithin (lost : Failure) : Nat → List Char → Except Failure Edits
  | 0, _ => .error lost
  | n + 1, source =>
    match Program.ofSource source with
    | .error e => .error (.rejected e)
    | .ok p =>
      let walks := (p.walkTurn fun h => editsWithin lost n h.text)^[p.tokens.size + 1]
      (walks (fun _ => .error lost) ⟨p.tokens.size, nowhere, ⟨0, []⟩⟩).map (·.edits)

/-- As many texts one within another as there are characters are enough. -/
theorem editsWithin_eq (lost : Failure) {n : Nat} {source : List Char} (less : source.length < n) :
    editsWithin lost n source = editsOf source := by
  induction n generalizing source with
  | zero => exact absurd less (Nat.not_lt_zero _)
  | succ n ih =>
    rw [editsWithin, editsOf]
    cases opened : Program.ofSource source with
    | error e => rfl
    | ok p =>
      have sound := Checked.isSound_of_ofSource opened
      obtain ⟨rfl, -⟩ := Program.ofSource_eq_ok opened
      have deeper : p.ErasesShorter fun h => editsWithin lost n h.text := fun h shorter =>
        ih (Nat.lt_of_lt_of_le shorter (Nat.le_of_lt_succ less))
      have guarded : p.ErasesShorter fun h =>
          if h.text.length < p.source.length then editsOf h.text else .ok [] := fun h shorter =>
        if_pos shorter
      have walked := (sound.walk_comesForward deeper).iterate (fun leg inside => inside.2)
        (fun _ => .error lost) (n := p.tokens.size + 1) (i := ⟨p.tokens.size, nowhere, ⟨0, []⟩⟩)
        ⟨Nat.le_refl _, Nat.zero_le _⟩ (Nat.lt_succ_self _)
      dsimp only
      rw [walked, sound.walk_eq guarded (Nat.le_refl _) (Nat.zero_le _)]

/-- A source text without its types, where at most `n` texts are one within another. -/
def eraseWithin (lost : Failure) (n : Nat) (source : List Char) : Except Failure (List Char) := do
  let edits ← editsWithin lost n source
  .ok (edits.applyTo source)

end Erase

/-- The eraser comes forward in every text whose brackets match, step by step and in each of its loops. So
it ends on every text: by turns alone, in no more texts one within another than there are characters, it
gives the same result and is never lost. -/
theorem erase_comes_forward (source : List Char) :
    (∀ p, Program.ofSource source = .ok p → p.Progresses) ∧
      ∀ (lost : Failure) (n : Nat), source.length < n → eraseWithin lost n source = erase source := by
  refine ⟨fun p opened => (Checked.isSound_of_ofSource opened).progresses, fun lost n less => ?_⟩
  rw [eraseWithin, editsWithin_eq lost less, erase]

/-- What a class without a body extends is walked through, and once more when the class is given up. -/
theorem erase_comes_forward_given_up :
    let source := "class extends f(a as B, `$\x7bc as D\x7d`)".toList
    let out := "class extends f(a     , `$\x7bc     \x7d`)".toList
    (∃ p, Program.ofSource source = .ok p ∧ p.Progresses) ∧
      ∀ lost, eraseWithin lost (source.length + 1) source = .ok out := by
  intro source out
  obtain ⟨forward, ends⟩ := erase_comes_forward source
  have matched : (Program.ofSource source).toBool = true := by
    unfold source
    cbv
  have done : erase source = .ok out := by
    unfold source out
    cbv
  refine ⟨?_, fun lost => (ends lost _ (Nat.lt_succ_self _)).trans done⟩
  cases opened : Program.ofSource source with
  | error e =>
    rw [opened] at matched
    cases matched
  | ok p => exact ⟨p, rfl, forward p opened⟩

end ModuleLinker
