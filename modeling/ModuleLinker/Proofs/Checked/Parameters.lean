import ModuleLinker.Proofs.Checked.Types
import ModuleLinker.Proofs.Erase.Inside
import ModuleLinker.Proofs.Erase.TypedWalk

/-!
# The small steps of a walk, with checks

Overwriting tokens, walking through brackets and erasing the types of parameters, with checks. Each of
these agrees with the same step without checks, and leads from a position in the program to a later one
(`From`).
-/

set_option autoImplicit false

namespace ModuleLinker.Checked

open Erase Erase.Program

/-- How a walk with checks goes on inside a construct. -/
structure Walker where
  /-- Walks from a state up to a limit or to the first position at which it has to stop. -/
  walk : (limit : Nat) → (stop : Nat → Checked Bool) → State → Checked State
  /-- The edits of the text of a substitution. -/
  hole : Hole → Checked Edits

/-- Whether a state lies at a position of the program, from some position on. -/
def From (p : Program) (i : Nat) (s : State) : Prop := i ≤ s.pos ∧ s.pos ≤ p.tokens.size

theorem From.trans {p : Program} {i j : Nat} {s : State} (later : From p j s) (le : i ≤ j) :
    From p i s :=
  ⟨Nat.le_trans le later.1, later.2⟩

/-- Whether a walker with checks agrees with another one on all walks that start behind a position. -/
structure Walker.Agrees (w' : Walker) (w : Erase.Walker) (p : Program) (i : Nat) : Prop where
  /-- The walks agree. -/
  walk : ∀ (limit : Nat) (stop' : Nat → Checked Bool) (stop : Nat → Bool) (s : State),
    (∀ k, stop' k = pure (stop k)) → limit ≤ p.tokens.size → i < s.pos → s.pos ≤ p.tokens.size →
      Checked.Agrees p.source (w'.walk limit stop' s) (w.walk limit stop s) (From p s.pos)
  /-- The edits of substitutions agree. -/
  hole : ∀ t ∈ p.tokens, ∀ h ∈ t.holes, Checked.Agrees h.text (w'.hole h) (w.hole h) fun edits =>
    ∀ e ∈ edits, e.IsInside h.text.length

section

variable (p : Program)

/-- The failure with a complaint about a token. -/
def fail {α : Type} (i : Nat) (complaint : Complaint) : Checked α := reject ⟨p.offset i, complaint⟩

/-- The position after the type at a position, where one has to stand. -/
def expectType (i : Nat) : Checked Nat := do
  match ← typeEnd? p i with
  | some ⟨j, _⟩ => pure j
  | none => fail p i .typeExpected

/-- The position after the type arguments or parameters at a position, where they are complete. -/
def expectAngle (i : Nat) : Checked Nat := do
  match ← angleEnd? p i with
  | some ⟨j, _⟩ => pure j
  | none => fail p i (.punctuatorExpected ">")

/-- Overwrites the tokens from one position up to another, if there are any. -/
def blank (s : State) (first last : Nat) : Checked State :=
  if first < last ∧ last ≤ p.tokens.size then do
    let a ← tokenAt p.tokens first
    let z ← tokenAt p.tokens (← difference last 1)
    pure (s.edit ⟨a.start, z.stop, none⟩)
  else pure s

/-- Overwrites the tokens from one position up to another, if there are any, and goes there. -/
def blankFrom (s : State) (first last : Nat) : Checked State := do
  let blanked ← blank p s first last
  pure (blanked.goto last)

/-- Overwrites the tokens from the state's position up to another one and goes there. -/
def blankTo (s : State) (last : Nat) : Checked State := blankFrom p s s.pos last

/-- The position behind a punctuator where it stands. -/
def punctEnd (i : Nat) (text : String) : Checked Nat := do
  reach p.source i
  pure (if p.isPunct i text then i + 1 else i)

/-- Overwrites a punctuator where it stands. -/
def blankMarker (s : State) (text : String) : Checked State := do
  reach p.source s.pos
  if p.isPunct s.pos text then blankTo p s (s.pos + 1) else pure s

/-- Steps over a punctuator where it stands. -/
def skipPunct (s : State) (text : String) : Checked State := do
  reach p.source s.pos
  if p.isPunct s.pos text then pure (s.skip 1) else pure s

/-- Overwrites a construct from a position on, together with a punctuator after it. -/
def blankWith (s : State) (start : Nat) (text : String) : Checked State := do
  let ended ← skipPunct p s text
  blank p ended start ended.pos

/-- Overwrites a type annotation, colon included, where it stands. -/
def blankAnnotation (s : State) : Checked State := do
  reach p.source s.pos
  if p.isPunct s.pos ":" then blankTo p s (← expectType p (s.pos + 1)) else pure s

/-- Overwrites type parameters where they stand. -/
def blankTypeParameters (s : State) : Checked State :=
  if p.isPunct s.pos "<" then do blankTo p s (← expectAngle p s.pos) else pure s

/-- Walks through the bracket that opens at the state's position and goes on after it. -/
def walkBracket (w : Walker) (s : State) : Checked State := do
  let ⟨close, _⟩ ← partner p s.pos
  let inside ← w.walk close (fun _ => pure false) (s.skip 1)
  pure (inside.goto (close + 1))

/-- Walks through the value after an equals sign, where one stands, up to a limit or to one of some
punctuators. -/
def walkValue (w : Walker) (limit : Nat) (stops : List String) (s : State) : Checked State := do
  reach p.source s.pos
  if p.isPunct s.pos "=" then
    w.walk limit (fun i => pure (stops.any fun text => p.isPunct i text)) (s.skip 1)
  else pure s

/-! ## Parameters -/

/-- Overwrites the modifiers in front of a parameter. -/
def blankParameterModifiers (s : State) : Checked State := do
  reach p.source s.pos
  if h : p.isOneOf s.pos parameterModifiers ∧ p.bindsAt (s.pos + 1) then do
    have inside : s.pos < p.tokens.size := p.lt_size_of_is h.1
    let next ← blankTo p s (s.pos + 1)
    if s.pos < next.pos then blankParameterModifiers next else crash (.standstill s.pos)
  else pure s
termination_by p.tokens.size - s.pos

/-- Steps over what a parameter binds: a name, or a pattern, which is walked through. -/
def walkBinding (w : Walker) (s : State) : Checked State := do
  reach p.source s.pos
  if p.isPunct s.pos openBrace || p.isPunct s.pos "[" then walkBracket p w s
  else if p.isName s.pos then pure (s.skip 1)
  else fail p s.pos .parameterExpected

/-- Erases the types of one parameter of a list that closes at `close`, with the comma after it. -/
def parameter (w : Walker) (close : Nat) (s : State) : Checked (State × Option String) := do
  if p.isPunct s.pos "@" then fail p s.pos .parameterDecorator
  else do
    let start := s.pos
    let unmodified ← blankParameterModifiers p s
    let isProperty := start < unmodified.pos
    let s ← skipPunct p unmodified "..."
    reach p.source s.pos
    if p.isWord s.pos "this" && p.isPunct (s.pos + 1) ":" then do
      let typed := s.goto (← expectType p (s.pos + 2))
      pure (← blankWith p typed start ",", none)
    else do
      let name := p.text s.pos
      let s ← walkBinding p w s
      let s ← blankAnnotation p (← blankMarker p s "?")
      let s ← walkValue p w close [","] s
      let property := if isProperty then some name else none
      if p.isPunct s.pos "," then do
        reach p.source s.pos
        pure (s.skip 1, property)
      else if s.pos = close then pure (s, property)
      else fail p s.pos (.punctuatorExpected ",")

/-- Erases the types of the parameters up to the position `close`. -/
def parametersTo (w : Walker) (close : Nat) (properties : List String) (s : State) :
    Checked (State × List String) :=
  if s.pos < close then do
    let (next, property) ← parameter p w close s
    if s.pos < next.pos then parametersTo w close (properties ++ property.toList) next
    else crash (.standstill s.pos)
  else pure (s, properties)
termination_by close - s.pos

/-- Erases the types of the parameter list that opens at the state's position and goes on after it. -/
def parameters (w : Walker) (s : State) : Checked (State × List String) := do
  let ⟨close, _⟩ ← partner p s.pos
  let (inside, properties) ← parametersTo p w close [] (s.skip 1)
  pure (inside.goto (close + 1), properties)

/-- Erases the types of a parameter list in which no parameter may be a property, and the type of the
result. -/
def signature (w : Walker) (s : State) : Checked State := do
  let (next, properties) ← parameters p w s
  if properties.isEmpty then blankAnnotation p next
  else fail p s.pos .propertyOutsideConstructor

end

/-! ## No check fails -/

section

variable {p : Program}

theorem not_lt_size {i : Nat} (none : p.tokens[i]? = none) : ¬ i < p.tokens.size :=
  Nat.not_lt.mpr (Array.getElem?_eq_none_iff.mp none)

theorem blank_pos (s : State) (first last : Nat) : (p.blank s first last).pos = s.pos := by
  unfold Program.blank
  split
  · split <;> rfl
  · rfl

theorem blank_eq (s : State) (first last : Nat) :
    blank p s first last = pure (p.blank s first last) := by
  unfold blank Program.blank
  split
  case isTrue tokens =>
    have a : p.tokens[first]? = some p.tokens[first] := Array.getElem?_eq_getElem (by omega)
    have z : p.tokens[last - 1]? = some p.tokens[last - 1] := Array.getElem?_eq_getElem (by omega)
    rw [tokenAt_eq a, pure_bind, difference_eq (by omega), pure_bind, tokenAt_eq z, pure_bind,
      if_pos tokens.1, a, z]
  case isFalse none =>
    split
    case isFalse => rfl
    case isTrue some =>
      have z : p.tokens[last - 1]? = Option.none := Array.getElem?_eq_none (by omega)
      rw [z]
      cases p.tokens[first]? <;> rfl

theorem blankFrom_eq (s : State) (first last : Nat) :
    blankFrom p s first last = pure ((p.blank s first last).goto last) := by
  rw [blankFrom, blank_eq, pure_bind]

theorem blankTo_eq (s : State) (last : Nat) : blankTo p s last = pure (p.blankTo s last) :=
  blankFrom_eq ..

theorem blank_self (s : State) (i : Nat) : p.blank s i i = s := if_neg (Nat.lt_irrefl i)

theorem blankTo_from {s : State} {i last : Nat} (later : i ≤ last) (within : last ≤ p.tokens.size) :
    From p i (p.blankTo s last) :=
  ⟨later, within⟩

variable (sound : p.IsSound)
include sound

theorem fail_agrees {α : Type} {kind : α → Prop} (i : Nat) (complaint : Complaint) :
    Agrees p.source (fail p i complaint) (p.fail i complaint) kind :=
  .reject (sound.read.offset_le_length i)

theorem expectType_agrees {i : Nat} (le : i ≤ p.tokens.size) :
    Agrees p.source (expectType p i) (p.expectType i) fun j => i < j ∧ j ≤ p.tokens.size := by
  have finds := typeEnd?_finds sound le
  rw [expectType, Program.expectType, finds.same, pure_bind]
  cases found : p.typeEnd? i with
  | none => exact fail_agrees sound ..
  | some j => exact .pure ⟨j.2, finds.within j found⟩

theorem expectAngle_agrees {i : Nat} (opens : p.isPunct i "<" = true) :
    Agrees p.source (expectAngle p i) (p.expectAngle i) fun j => i < j ∧ j ≤ p.tokens.size := by
  have finds := angleEnd?_finds sound opens
  rw [expectAngle, Program.expectAngle, finds.same, pure_bind]
  cases found : p.angleEnd? i with
  | none => exact fail_agrees sound ..
  | some j => exact .pure ⟨j.2, finds.within j found⟩

theorem punctEnd_eq {i : Nat} (le : i ≤ p.tokens.size) (text : String) :
    punctEnd p i text = pure (if p.isPunct i text then i + 1 else i) ∧
      i ≤ (if p.isPunct i text then i + 1 else i) ∧
      (if p.isPunct i text then i + 1 else i) ≤ p.tokens.size := by
  rw [punctEnd, sound.reach_eq le, pure_bind]
  refine ⟨rfl, ?_⟩
  split
  case isTrue here => exact ⟨Nat.le_succ _, p.lt_size_of_is here⟩
  case isFalse => exact ⟨Nat.le_refl _, le⟩

theorem blankMarker_eq {s : State} (le : s.pos ≤ p.tokens.size) (text : String) :
    blankMarker p s text = pure (p.blankMarker s text) ∧ From p s.pos (p.blankMarker s text) := by
  rw [blankMarker, Program.blankMarker, sound.reach_eq le, pure_bind]
  split
  case isTrue here => exact ⟨blankTo_eq .., blankTo_from (Nat.le_succ _) (p.lt_size_of_is here)⟩
  case isFalse => exact ⟨rfl, Nat.le_refl _, le⟩

theorem skipPunct_eq {s : State} (le : s.pos ≤ p.tokens.size) (text : String) :
    skipPunct p s text = pure (p.skipPunct s text) ∧ From p s.pos (p.skipPunct s text) := by
  rw [skipPunct, Program.skipPunct, sound.reach_eq le, pure_bind]
  split
  case isTrue here => exact ⟨rfl, Nat.le_succ _, p.lt_size_of_is here⟩
  case isFalse => exact ⟨rfl, Nat.le_refl _, le⟩

theorem blankWith_eq {s : State} (le : s.pos ≤ p.tokens.size) (start : Nat) (text : String) :
    blankWith p s start text =
        pure (p.blank (p.skipPunct s text) start (p.skipPunct s text).pos) ∧
      From p s.pos (p.blank (p.skipPunct s text) start (p.skipPunct s text).pos) := by
  obtain ⟨same, later⟩ := skipPunct_eq sound le text
  rw [blankWith, same, pure_bind, blank_eq, From, blank_pos]
  exact ⟨rfl, later⟩

theorem blankAnnotation_agrees {s : State} (le : s.pos ≤ p.tokens.size) :
    Agrees p.source ( blankAnnotation p s) ( p.blankAnnotation s) (From p s.pos) := by
  rw [ blankAnnotation,  Program.blankAnnotation, sound.reach_eq le, pure_bind]
  refine .ite (fun colon => ?_) fun _ => .pure ⟨Nat.le_refl _, le⟩
  refine (expectType_agrees sound (p.lt_size_of_is colon)).bind fun j ⟨later, within⟩ => ?_
  exact .of_eq (blankTo_eq ..) (blankTo_from (by omega) within)

/-- Type parameters that stand somewhere are overwritten, which leads forward. -/
theorem blankTypeParameters_past {s : State} (opens : p.isPunct s.pos "<" = true) :
    Agrees p.source (blankTypeParameters p s) (p.blankTypeParameters s) (From p (s.pos + 1)) := by
  rw [blankTypeParameters, Program.blankTypeParameters, if_pos opens, if_pos opens]
  refine (expectAngle_agrees sound opens).bind fun j ⟨later, within⟩ => ?_
  exact .of_eq (blankTo_eq ..) (blankTo_from later within)

theorem blankTypeParameters_agrees {s : State} (le : s.pos ≤ p.tokens.size) :
    Agrees p.source (blankTypeParameters p s) (p.blankTypeParameters s) (From p s.pos) := by
  by_cases opens : p.isPunct s.pos "<" = true
  · exact (blankTypeParameters_past sound opens).weaken fun _ after => after.trans (Nat.le_succ _)
  · rw [blankTypeParameters, Program.blankTypeParameters, if_neg opens, if_neg opens]
    exact .pure ⟨Nat.le_refl _, le⟩

theorem blankParameterModifiers_eq {s : State} (le : s.pos ≤ p.tokens.size) :
    blankParameterModifiers p s = pure (p.blankParameterModifiers s) ∧
      From p s.pos (p.blankParameterModifiers s) := by
  rw [blankParameterModifiers, Program.blankParameterModifiers, sound.reach_eq le, pure_bind]
  split
  case isTrue modifier =>
    have inside := p.lt_size_of_is modifier.1
    have forward : s.pos < (p.blankTo s (s.pos + 1)).pos := Nat.lt_succ_self _
    obtain ⟨same, later⟩ := blankParameterModifiers_eq (s := p.blankTo s (s.pos + 1)) inside
    rw [blankTo_eq, pure_bind, if_pos forward]
    exact ⟨same, later.trans (Nat.le_of_lt forward)⟩
  case isFalse => exact ⟨rfl, Nat.le_refl _, le⟩
termination_by p.tokens.size - s.pos

variable {w' : Walker} {w : Erase.Walker} {i : Nat} (walker : w'.Agrees w p i)
include walker

theorem walkBracket_agrees {s : State} {text : String} (here : p.isPunct s.pos text = true)
    (among : text ∈ openers) (later : i ≤ s.pos) :
    Agrees p.source (walkBracket p w' s) (p.walkBracket w s) (From p (s.pos + 1)) := by
  obtain ⟨same, closes⟩ := sound.partner_punct here among
  have after := p.lt_close s.pos
  rw [walkBracket, Program.walkBracket, same, pure_bind]
  refine (walker.walk _ _ nowhere (s.skip 1) (fun _ => rfl) (Nat.le_of_lt closes) ?_ ?_).bind ?_
  · exact Nat.lt_succ_of_le later
  · exact p.lt_size_of_is here
  · exact fun inside _ => .pure ⟨by change s.pos + 1 ≤ p.close s.pos + 1; omega, closes⟩

theorem walkValue_agrees {s : State} {limit : Nat} (stops : List String) (within : limit ≤ p.tokens.size)
    (later : i ≤ s.pos) (le : s.pos ≤ p.tokens.size) :
    Agrees p.source (walkValue p w' limit stops s) (p.walkValue w limit stops s) (From p s.pos) := by
  rw [walkValue, Program.walkValue, sound.reach_eq le, pure_bind]
  refine .ite (fun equals => ?_) fun _ => .pure ⟨Nat.le_refl _, le⟩
  refine (walker.walk _ _ _ (s.skip 1) (fun _ => rfl) within ?_ ?_).weaken fun s' after => ?_
  · exact Nat.lt_succ_of_le later
  · exact p.lt_size_of_is equals
  · exact after.trans (Nat.le_succ _)

theorem walkBinding_agrees {s : State} (later : i ≤ s.pos) (le : s.pos ≤ p.tokens.size) :
    Agrees p.source (walkBinding p w' s) (p.walkBinding w s) (From p (s.pos + 1)) := by
  rw [walkBinding, Program.walkBinding, sound.reach_eq le, pure_bind]
  refine .ite (fun pattern => ?_) fun _ => ?_
  · rcases Bool.or_eq_true _ _ |>.mp pattern with opens | opens <;>
      exact walkBracket_agrees sound walker opens (by decide) later
  refine .ite (fun name => ?_) fun _ => fail_agrees sound ..
  exact .pure ⟨Nat.le_refl _, p.lt_size_of_is name⟩

theorem parameter_agrees {s : State} {close : Nat} (within : close ≤ p.tokens.size) (later : i ≤ s.pos)
    (le : s.pos ≤ p.tokens.size) :
    Agrees p.source (parameter p w' close s) (p.parameter w close s) fun r => From p (s.pos + 1) r.1 := by
  rw [parameter, Program.parameter]
  refine .ite (fun _ => fail_agrees sound ..) fun _ => ?_
  obtain ⟨same, after⟩ := blankParameterModifiers_eq sound le
  obtain ⟨same', after'⟩ := skipPunct_eq sound after.2 "..."
  have start := Nat.le_trans after.1 after'.1
  dsimp only
  rw [same, pure_bind, same', pure_bind, sound.reach_eq after'.2, pure_bind]
  refine .ite (fun this => ?_) fun _ => ?_
  · rw [Bool.and_eq_true] at this
    refine (expectType_agrees sound (p.lt_size_of_is this.2)).bind fun j ⟨past, inside⟩ => ?_
    obtain ⟨same, after⟩ := blankWith_eq sound (s := State.goto _ j) inside s.pos ","
    rw [same, pure_bind]
    exact .pure (after.trans (by change s.pos + 1 ≤ j; omega))
  · refine (walkBinding_agrees sound walker (by omega) after'.2).bind fun bound bounds => ?_
    obtain ⟨same, after⟩ := blankMarker_eq sound bounds.2 "?"
    rw [same, pure_bind]
    refine (blankAnnotation_agrees sound after.2).bind fun typed types => ?_
    have past : s.pos + 1 ≤ typed.pos := by
      have := bounds.1
      have := after.1
      have := types.1
      omega
    refine (walkValue_agrees sound walker [","] within (by omega) types.2).bind fun valued values => ?_
    have past := Nat.le_trans past values.1
    refine .ite (fun comma => ?_) fun _ => .ite (fun _ => .pure ⟨past, values.2⟩) fun _ => fail_agrees sound ..
    rw [sound.reach_eq values.2, pure_bind]
    exact .pure ⟨Nat.le_succ_of_le past, p.lt_size_of_is comma⟩

theorem parametersTo_agrees {s : State} {close : Nat} (properties : List String)
    (within : close ≤ p.tokens.size) (later : i ≤ s.pos) (le : s.pos ≤ p.tokens.size) :
    Agrees p.source (parametersTo p w' close properties s) (p.parametersTo w close properties s)
      fun r => From p s.pos r.1 := by
  rw [parametersTo, Program.parametersTo]
  refine .ite (fun less => ?_) fun _ => .pure ⟨Nat.le_refl _, le⟩
  have first := parameter_agrees sound walker within later le
  cases found : p.parameter w close s with
  | error e =>
    rw [found] at first
    exact first.error_bind
  | ok r =>
    obtain ⟨next, property⟩ := r
    rw [found] at first
    refine first.ok_bind fun after => ?_
    have forward : s.pos < next.pos := after.1
    dsimp only
    rw [if_pos forward, past_eq_self forward]
    have rest := parametersTo_agrees (s := next) (properties ++ property.toList) within (by omega) after.2
    exact rest.weaken fun _ last => last.trans (Nat.le_of_lt forward)
termination_by close - s.pos

theorem parameters_agrees {s : State} (opens : p.isPunct s.pos "(" = true) (later : i ≤ s.pos) :
    Agrees p.source (parameters p w' s) (p.parameters w s) fun r => From p (s.pos + 1) r.1 := by
  obtain ⟨same, closes⟩ := sound.partner_punct opens (by decide)
  have after := p.lt_close s.pos
  rw [parameters, Program.parameters, same, pure_bind]
  refine (parametersTo_agrees sound walker (s := s.skip 1) [] (Nat.le_of_lt closes)
    (Nat.le_succ_of_le later) (p.lt_size_of_is opens)).bind fun (inside, properties) _ => ?_
  exact .pure ⟨by change s.pos + 1 ≤ p.close s.pos + 1; omega, closes⟩

theorem signature_agrees {s : State} (opens : p.isPunct s.pos "(" = true) (later : i ≤ s.pos) :
    Agrees p.source (signature p w' s) (p.signature w s) (From p (s.pos + 1)) := by
  rw [signature, Program.signature]
  refine (parameters_agrees sound walker opens later).bind fun (next, properties) after => ?_
  refine .ite (fun _ => ?_) fun _ => fail_agrees sound ..
  exact (blankAnnotation_agrees sound after.2).weaken fun _ last => last.trans after.1

end

end ModuleLinker.Checked
