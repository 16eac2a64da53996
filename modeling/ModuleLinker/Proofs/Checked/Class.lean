import ModuleLinker.Proofs.Checked.Parameters

/-!
# Classes, with checks

The types of a class, with checks. The brace behind a constructor's parameters is asked for where it
stops, and the token in front of a line that may start another member for what it is; every loop
through a header or a body has to come forward.
-/

set_option autoImplicit false

namespace ModuleLinker.Checked

open Erase Erase.Program

/-- A modifier is a token. -/
theorem lt_size_of_modifiesMember {p : Program} {i : Nat} (modifier : p.modifiesMember i = true) :
    i < p.tokens.size := by
  rw [modifiesMember, Bool.and_eq_true, Bool.and_eq_true] at modifier
  exact p.lt_size_of_is modifier.1.1

section

variable (p : Program)

/-- The position of the brace at which a header goes over into its body. -/
def bodyAhead (report i : Nat) : Checked Nat := do
  reach p.source i
  if i < p.tokens.size then do
    let t ← tokenAt p.tokens i
    if t.isPunct openBrace then pure i
    else if t.isPunct "<" then do
      match ← angleEnd? p i with
      | none => fail p i (.punctuatorExpected ">")
      | some ⟨j, _⟩ => bodyAhead report j
    else bodyAhead report (i + 1)
  else fail p report (.punctuatorExpected openBrace)
termination_by p.tokens.size - i

/-- Walks through one part of the expression that a class extends. -/
def heritagePart (w : Walker) (t : Token) (s : State) : Checked State :=
  if t.isPunct "(" || t.isPunct "[" then walkBracket p w s
  else if t.isPunct "<" then blankTypeParameters p s
  else pure (s.skip 1)

/-- Walks through the expression that a class extends, up to its interfaces or its body. -/
def walkHeritage (w : Walker) (s : State) : Checked State := do
  reach p.source s.pos
  if s.pos < p.tokens.size then do
    let t ← tokenAt p.tokens s.pos
    if t.isPunct openBrace || t.isWord "implements" then pure s
    else do
      let next ← heritagePart p w t s
      if s.pos < next.pos then walkHeritage w next else crash (.standstill s.pos)
  else pure s
termination_by p.tokens.size - s.pos

/-- Overwrites a modifier that has no meaning at run time, and steps over any other. -/
def stepModifier (s : State) : Checked State := do
  let next ← blank p s s.pos
    (if parameterModifiers.contains (p.text s.pos) then s.pos + 1 else s.pos)
  pure (next.goto (s.pos + 1))

/-- Overwrites the modifiers of a member that have no meaning at run time. -/
def blankMemberModifiers (found : MemberModifiers) (s : State) : Checked (State × MemberModifiers) := do
  reach p.source s.pos
  if h : p.modifiesMember s.pos then do
    have _inside := lt_size_of_modifiesMember h
    let word := p.text s.pos
    let next ← stepModifier p s
    if s.pos < next.pos then
      blankMemberModifiers
        { ambient := found.ambient || word == "abstract" || word == "declare",
          isStatic := found.isStatic || word == "static" }
        next
    else crash (.standstill s.pos)
  else pure (s, found)
termination_by p.tokens.size - s.pos

/-- Walks through the arguments of a call where they stand. -/
def walkCall (w : Walker) (s : State) : Checked State :=
  if p.isPunct s.pos "(" then walkBracket p w s else pure s

/-- Walks through the decorators in front of a member. -/
def walkDecorators (w : Walker) (s : State) : Checked State := do
  reach p.source s.pos
  if h : p.isPunct s.pos "@" then do
    have _inside : s.pos < p.tokens.size := p.lt_size_of_is h
    let ⟨called, _⟩ ← qualifiersEnd p (if p.isName (s.pos + 1) then s.pos + 2 else s.pos + 1)
    let next ← walkCall p w (s.goto called)
    if s.pos < next.pos then walkDecorators w next else crash (.standstill s.pos)
  else pure s
termination_by p.tokens.size - s.pos

/-- Erases the method whose parameters open at the state's position, where `start` and `name` are
the positions of its first token and of its name. -/
def method (w : Walker) (derived ambient : Bool) (start name : Nat) (s : State) : Checked State := do
  let (afterParameters, properties) ← parameters p w s
  let typed ← blankAnnotation p afterParameters
  if p.isPunct typed.pos openBrace && !ambient then
    if properties.isEmpty then walkBracket p w typed
    else if !p.isWord name "constructor" then fail p s.pos .propertyOutsideConstructor
    else if derived then fail p s.pos .propertyInDerivedClass
    else do
      let brace ← tokenAt p.tokens typed.pos
      walkBracket p w
        { typed with edits := ⟨brace.stop, brace.stop, some (assignments properties)⟩ :: typed.edits }
  else blankWith p typed start ";"

/-- Whether the value of a field that starts at `first` ends before position `i`. -/
def endsField (first i : Nat) : Checked Bool :=
  if p.isPunct i ";" then pure true
  else if first < i then do
    let before ← difference i 1
    pure (p.newlineBefore i && !p.expectsOperand before &&
      p.is i fun t =>
        match t.kind with
        | .ident | .string | .number | .privateName => true
        | .punct => t.text == "@" || t.text == "*"
        | _ => false)
  else pure false

/-- Walks through the value of a field where one stands. -/
def walkField (w : Walker) (close : Nat) (s : State) : Checked State :=
  if p.isPunct s.pos "=" then w.walk close (endsField p (s.pos + 1)) (s.skip 1) else pure s

/-- Erases the types of the field whose name ends before the state's position, where `start` is the
position of its first token. -/
def classField (w : Walker) (close : Nat) (ambient : Bool) (start : Nat) (s : State) : Checked State := do
  let typed ← blankAnnotation p s
  let valued ← walkField p w close typed
  if ambient then blankWith p valued start ";" else skipPunct p valued ";"

/-- Steps over the name of a member; a computed name is walked through. -/
def walkMemberName (w : Walker) (s : State) : Checked State :=
  match p.kind? s.pos with
  | some .ident | some .string | some .number | some .privateName => pure (s.skip 1)
  | _ =>
    if p.isPunct s.pos "[" then walkBracket p w s
    else fail p s.pos .unexpectedInClass

/-- The position behind the type of an index signature whose key ends before a position. -/
def indexedTypeEnd (i : Nat) : Checked Nat := do
  reach p.source i
  if p.isPunct i ":" then expectType p (i + 1) else pure i

/-- Erases the index signature that opens at the state's position. -/
def indexSignature (start : Nat) (s : State) : Checked State := do
  let ⟨close, _⟩ ← partner p s.pos
  let typed ← indexedTypeEnd p (close + 1)
  blankWith p (s.goto typed) start ";"

/-- Erases the types of one member of a class body that closes at `close`. -/
def classMember (w : Walker) (derived : Bool) (close : Nat) (s : State) : Checked State := do
  reach p.source s.pos
  if p.isPunct s.pos ";" then pure (s.skip 1)
  else do
    let start := s.pos
    let decorated ← walkDecorators p w s
    let (s, modifiers) ← blankMemberModifiers p {} decorated
    if modifiers.isStatic && p.isPunct s.pos openBrace then walkBracket p w s
    else do
      let s ← skipPunct p s "*"
      reach p.source s.pos
      if p.isPunct s.pos "[" && p.isName (s.pos + 1) && p.isPunct (s.pos + 2) ":" then
        indexSignature p start s
      else do
        let name := s.pos
        let named ← walkMemberName p w s
        let marked ← blankMarker p named (if p.isPunct named.pos "?" then "?" else "!")
        let s ← blankTypeParameters p marked
        if p.isPunct s.pos "(" then method p w derived modifiers.ambient start name s
        else classField p w close modifiers.ambient start s

/-- Erases the types of the members up to the position `close`. -/
def classMembers (w : Walker) (derived : Bool) (close : Nat) (s : State) : Checked State :=
  if s.pos < close then do
    let next ← classMember p w derived close s
    if s.pos < next.pos then classMembers w derived close next else crash (.standstill s.pos)
  else pure s
termination_by close - s.pos

/-- The position behind the name of the class whose keyword stands at a position. -/
def classNameEnd (i : Nat) : Checked Nat := do
  reach p.source i
  pure (if p.isName (i + 1) && !p.isWord (i + 1) "extends" && !p.isWord (i + 1) "implements" then i + 2
    else i + 1)

/-- Walks through what the class extends whose header is read up to the state's position. -/
def walkExtends (w : Walker) (s : State) : Checked State :=
  if p.isWord s.pos "extends" then walkHeritage p w (s.skip 1) else pure s

/-- Overwrites the interfaces that a class implements, where they stand. -/
def blankImplements (s : State) : Checked State :=
  if p.isWord s.pos "implements" then do blankTo p s (← bodyAhead p s.pos s.pos) else pure s

/-- Erases the types of the class whose keyword stands at position `i`; where no class body follows,
the walk goes on at `resume`. -/
def classDeclaration (w : Walker) (i resume : Nat) (s : State) : Checked State := do
  let generic ← blankTypeParameters p (s.goto (← classNameEnd p i))
  let derived := p.isWord generic.pos "extends"
  let inherited ← walkExtends p w generic
  let headed ← blankImplements p inherited
  if p.isPunct headed.pos openBrace then do
    let ⟨close, _⟩ ← partner p headed.pos
    let members ← classMembers p w derived close (headed.skip 1)
    pure (members.goto (close + 1))
  else pure (headed.goto resume)

end

/-! ## No check fails -/

section

variable {p : Program}

theorem stepModifier_eq (s : State) :
    stepModifier p s =
      pure ((if parameterModifiers.contains (p.text s.pos) then p.blank s s.pos (s.pos + 1) else s).goto
        (s.pos + 1)) := by
  rw [stepModifier, blank_eq, pure_bind]
  split
  · rfl
  · rw [blank_self]

theorem endsField_eq (first i : Nat) : endsField p first i = pure (p.endsField first i) := by
  unfold endsField Program.endsField
  cases p.isPunct i ";" with
  | true => rfl
  | false =>
    rw [if_neg Bool.false_ne_true, Bool.false_or]
    split
    case isFalse before => rw [decide_eq_false before, Bool.false_and, Bool.false_and, Bool.false_and]
    case isTrue after =>
      rw [difference_eq (by omega), decide_eq_true after]
      exact pure_bind ..

variable (sound : p.IsSound)
include sound

theorem bodyAhead_agrees (report : Nat) {i : Nat} (le : i ≤ p.tokens.size) :
    Agrees p.source (bodyAhead p report i) (p.bodyAhead report i) fun j => i ≤ j ∧ p.isPunct j openBrace = true := by
  rw [Program.bodyAhead]
  split
  case h_1 none =>
    rw [bodyAhead, sound.reach_eq le, pure_bind, if_neg (not_lt_size none)]
    exact fail_agrees sound ..
  case h_2 t found =>
    have inside : i < p.tokens.size := (Array.getElem?_eq_some_iff.mp found).1
    have here (text : String) (punct : t.isPunct text = true) : p.isPunct i text = true :=
      (Option.any_eq_true ..).mpr ⟨t, found, punct⟩
    rw [bodyAhead, sound.reach_eq le, pure_bind, if_pos inside, tokenAt_eq found, pure_bind]
    refine .ite (fun brace => .pure ⟨Nat.le_refl _, here _ brace⟩) fun _ => .ite (fun angle => ?_) fun _ => ?_
    · have finds := angleEnd?_finds sound (here _ angle)
      rw [finds.same, pure_bind]
      cases ends : p.angleEnd? i with
      | none => exact fail_agrees sound ..
      | some j =>
        have later := j.2
        refine (bodyAhead_agrees report (finds.within j ends)).weaken fun k ⟨after, brace⟩ => ?_
        exact ⟨by omega, brace⟩
    · refine (bodyAhead_agrees report (i := i + 1) inside).weaken fun k ⟨after, brace⟩ => ?_
      exact ⟨by omega, brace⟩
termination_by p.tokens.size - i

theorem blankMemberModifiers_eq (found : MemberModifiers) {s : State} (le : s.pos ≤ p.tokens.size) :
    blankMemberModifiers p found s = pure (p.blankMemberModifiers found s) ∧
      From p s.pos (p.blankMemberModifiers found s).1 := by
  rw [blankMemberModifiers, Program.blankMemberModifiers, sound.reach_eq le, pure_bind]
  split
  case isTrue modifier =>
    have inside := lt_size_of_modifiesMember modifier
    rw [stepModifier_eq, pure_bind]
    dsimp only
    obtain ⟨next, same, place⟩ : ∃ next : State,
        (if parameterModifiers.contains (p.text s.pos) then p.blank s s.pos (s.pos + 1) else s).goto
          (s.pos + 1) = next ∧ next.pos = s.pos + 1 := ⟨_, rfl, rfl⟩
    rw [same, if_pos (by omega)]
    obtain ⟨same, after⟩ := blankMemberModifiers_eq
      { ambient := found.ambient || p.text s.pos == "abstract" || p.text s.pos == "declare",
        isStatic := found.isStatic || p.text s.pos == "static" }
      (s := next) (by omega)
    exact ⟨same, after.trans (by omega)⟩
  case isFalse => exact ⟨rfl, Nat.le_refl _, le⟩
termination_by p.tokens.size - s.pos

variable {w' : Walker} {w : Erase.Walker} {i : Nat} (walker : w'.Agrees w p i)
include walker

theorem heritagePart_agrees {s : State} {t : Token} (found : p.tokens[s.pos]? = some t) (later : i ≤ s.pos) :
    Agrees p.source (heritagePart p w' t s)
      (if t.isPunct "(" || t.isPunct "[" then p.walkBracket w s
        else if t.isPunct "<" then p.blankTypeParameters s
        else .ok (s.skip 1))
      (From p (s.pos + 1)) := by
  have inside : s.pos < p.tokens.size := (Array.getElem?_eq_some_iff.mp found).1
  have here (text : String) (punct : t.isPunct text = true) : p.isPunct s.pos text = true :=
    (Option.any_eq_true ..).mpr ⟨t, found, punct⟩
  rw [heritagePart]
  refine .ite (fun bracket => ?_) fun _ => .ite (fun angle => ?_) fun _ => ?_
  · rcases Bool.or_eq_true _ _ |>.mp bracket with opens | opens <;>
      exact walkBracket_agrees sound walker (here _ opens) (by decide) later
  · exact blankTypeParameters_past sound (here _ angle)
  · exact .pure ⟨Nat.le_refl _, inside⟩

theorem walkHeritage_agrees {s : State} (later : i ≤ s.pos) (le : s.pos ≤ p.tokens.size) :
    Agrees p.source (walkHeritage p w' s) (p.walkHeritage w s) (From p s.pos) := by
  rw [Program.walkHeritage]
  split
  case h_1 none =>
    rw [walkHeritage, sound.reach_eq le, pure_bind, if_neg (not_lt_size none)]
    exact .pure ⟨Nat.le_refl _, le⟩
  case h_2 t found =>
    have inside : s.pos < p.tokens.size := (Array.getElem?_eq_some_iff.mp found).1
    rw [walkHeritage, sound.reach_eq le, pure_bind, if_pos inside, tokenAt_eq found, pure_bind]
    refine .ite (fun _ => .pure ⟨Nat.le_refl _, le⟩) fun _ => ?_
    have first := heritagePart_agrees sound walker found later
    dsimp only
    revert first
    generalize (if t.isPunct "(" || t.isPunct "[" then p.walkBracket w s
        else if t.isPunct "<" then p.blankTypeParameters s
        else .ok (s.skip 1) : Walk) = part
    intro first
    cases part with
    | error e => exact first.error_bind
    | ok next =>
      refine first.ok_bind fun after => ?_
      have forward : s.pos < next.pos := after.1
      dsimp only
      rw [if_pos forward, past_eq_self forward]
      have rest := walkHeritage_agrees (s := next) (by omega) after.2
      exact rest.weaken fun _ last => last.trans (Nat.le_of_lt forward)
termination_by p.tokens.size - s.pos

theorem walkCall_agrees {s : State} (later : i ≤ s.pos) (le : s.pos ≤ p.tokens.size) :
    Agrees p.source (walkCall p w' s) (if p.isPunct s.pos "(" then p.walkBracket w s else .ok s)
      (From p s.pos) := by
  rw [walkCall]
  refine .ite (fun opens => ?_) fun _ => .pure ⟨Nat.le_refl _, le⟩
  exact (walkBracket_agrees sound walker opens (by decide) later).weaken fun _ after =>
    after.trans (Nat.le_succ _)

theorem walkDecorators_agrees {s : State} (later : i ≤ s.pos) (le : s.pos ≤ p.tokens.size) :
    Agrees p.source (walkDecorators p w' s) (p.walkDecorators w s) (From p s.pos) := by
  rw [walkDecorators, Program.walkDecorators, sound.reach_eq le, pure_bind]
  refine .dite (fun sign => ?_) fun _ => .pure ⟨Nat.le_refl _, le⟩
  have named : s.pos < (if p.isName (s.pos + 1) then s.pos + 2 else s.pos + 1) ∧
      (if p.isName (s.pos + 1) then s.pos + 2 else s.pos + 1) ≤ p.tokens.size := by
    split
    case isTrue name => exact ⟨by omega, p.lt_size_of_is name⟩
    case isFalse => exact ⟨Nat.lt_succ_self _, p.lt_size_of_is sign⟩
  obtain ⟨same, within⟩ := qualifiersEnd_eq sound named.2
  have past := Nat.lt_of_lt_of_le named.1 (p.qualifiersEnd _).2
  rw [same, pure_bind]
  dsimp only
  generalize (p.qualifiersEnd (if p.isName (s.pos + 1) then s.pos + 2 else s.pos + 1)).1 = called
    at within past
  have first := walkCall_agrees sound walker (s := s.goto called) (Nat.le_trans later (Nat.le_of_lt past))
    within
  revert first
  generalize (if p.isPunct (s.goto called).pos "(" then p.walkBracket w (s.goto called)
    else .ok (s.goto called) : Walk) = part
  intro first
  cases part with
  | error e => exact first.error_bind
  | ok next =>
    refine first.ok_bind fun after => ?_
    have forward : s.pos < next.pos := Nat.lt_of_lt_of_le past after.1
    dsimp only
    rw [if_pos forward, past_eq_self forward]
    have rest := walkDecorators_agrees (s := next) (by omega) after.2
    exact rest.weaken fun _ last => last.trans (Nat.le_of_lt forward)
termination_by p.tokens.size - s.pos

theorem method_agrees {s : State} (derived ambient : Bool) (start name : Nat)
    (opens : p.isPunct s.pos "(" = true) (later : i ≤ s.pos) :
    Agrees p.source (method p w' derived ambient start name s) (p.method w derived ambient start name s)
      (From p (s.pos + 1)) := by
  rw [method, Program.method]
  refine (parameters_agrees sound walker opens later).bind fun (afterParameters, properties) params => ?_
  refine (blankAnnotation_agrees sound params.2).bind fun typed types => ?_
  have past : s.pos + 1 ≤ typed.pos := Nat.le_trans params.1 types.1
  refine .ite (fun body => ?_) fun _ => ?_
  · rw [Bool.and_eq_true] at body
    have bracket (edits : Edits) : Agrees p.source (walkBracket p w' ⟨typed.pos, edits⟩)
        (p.walkBracket w ⟨typed.pos, edits⟩) (From p (s.pos + 1)) :=
      (walkBracket_agrees sound walker (s := ⟨typed.pos, edits⟩) body.1 (by decide)
        (Nat.le_trans later (Nat.le_of_succ_le past))).weaken fun _ after => after.trans (Nat.le_succ_of_le past)
    refine .ite (fun _ => bracket _) fun _ => .ite (fun _ => fail_agrees sound ..) fun _ => ?_
    refine .ite (fun _ => fail_agrees sound ..) fun _ => ?_
    obtain ⟨brace, found, punct⟩ := (Option.any_eq_true ..).mp body.1
    rw [tokenAt_eq found, pure_bind, stop_of_brace found punct]
    exact bracket _
  · obtain ⟨same, after⟩ := blankWith_eq sound types.2 start ";"
    exact .of_eq same (after.trans past)

omit sound in
theorem walkField_agrees {s : State} {close : Nat} (within : close ≤ p.tokens.size) (later : i ≤ s.pos)
    (le : s.pos ≤ p.tokens.size) :
    Agrees p.source (walkField p w' close s)
      (if p.isPunct s.pos "=" then w.walk close (p.endsField (s.pos + 1)) (s.skip 1) else .ok s)
      (From p s.pos) := by
  rw [walkField]
  refine .ite (fun equals => ?_) fun _ => .pure ⟨Nat.le_refl _, le⟩
  refine (walker.walk _ _ _ (s.skip 1) (endsField_eq _) within ?_ ?_).weaken fun s' after => ?_
  · exact Nat.lt_succ_of_le later
  · exact p.lt_size_of_is equals
  · exact after.trans (Nat.le_succ _)

theorem classField_agrees {s : State} {close : Nat} (ambient : Bool) (start : Nat)
    (within : close ≤ p.tokens.size) (later : i ≤ s.pos) (le : s.pos ≤ p.tokens.size) :
    Agrees p.source (classField p w' close ambient start s) (p.classField w close ambient start s)
      (From p s.pos) := by
  rw [classField, Program.classField]
  refine (blankAnnotation_agrees sound le).bind fun typed types => ?_
  have value := walkField_agrees walker within (Nat.le_trans later types.1) types.2
  refine value.ite_bind fun valued values => ?_
  have past := Nat.le_trans types.1 values.1
  obtain ⟨same, after⟩ := blankWith_eq sound values.2 start ";"
  obtain ⟨same', after'⟩ := skipPunct_eq sound values.2 ";"
  cases ambient with
  | true => exact .of_eq same (after.trans past)
  | false => exact .of_eq same' (after'.trans past)

theorem walkMemberName_agrees {s : State} (later : i ≤ s.pos) :
    Agrees p.source (walkMemberName p w' s) (p.walkMemberName w s) (From p (s.pos + 1)) := by
  have bracket : Agrees p.source
      (if p.isPunct s.pos "[" then walkBracket p w' s else fail p s.pos .unexpectedInClass)
      (if p.isPunct s.pos "[" then p.walkBracket w s else p.fail s.pos .unexpectedInClass)
      (From p (s.pos + 1)) :=
    .ite (fun opens => walkBracket_agrees sound walker opens (by decide) later) fun _ => fail_agrees sound ..
  rw [walkMemberName, Program.walkMemberName]
  cases kind : p.kind? s.pos with
  | none => exact bracket
  | some k =>
    have plain : Agrees p.source (pure (s.skip 1)) (.ok (s.skip 1)) (From p (s.pos + 1)) :=
      .pure ⟨Nat.le_refl _, p.lt_size_of_kind? kind⟩
    cases k <;> first | exact plain | exact bracket

omit walker in
theorem indexedTypeEnd_agrees {i : Nat} (le : i ≤ p.tokens.size) :
    Agrees p.source (indexedTypeEnd p i) (if p.isPunct i ":" then p.expectType (i + 1) else .ok i)
      fun j => i ≤ j ∧ j ≤ p.tokens.size := by
  rw [indexedTypeEnd, sound.reach_eq le, pure_bind]
  refine .ite (fun colon => ?_) fun _ => .pure ⟨Nat.le_refl _, le⟩
  exact (expectType_agrees sound (p.lt_size_of_is colon)).weaken fun j ⟨past, within⟩ => ⟨by omega, within⟩

omit walker in
theorem indexSignature_agrees {s : State} (start : Nat) (opens : p.isPunct s.pos "[" = true) :
    Agrees p.source (indexSignature p start s) (p.indexSignature start s) (From p (s.pos + 1)) := by
  obtain ⟨same, closes⟩ := sound.partner_punct opens (by decide)
  have past := p.lt_close s.pos
  rw [indexSignature, Program.indexSignature, same, pure_bind]
  refine (indexedTypeEnd_agrees sound closes).ite_bind fun typed ⟨later, within⟩ => ?_
  obtain ⟨same, after⟩ := blankWith_eq sound (s := s.goto typed) within start ";"
  exact .of_eq same (after.trans (by change s.pos + 1 ≤ typed; omega))

theorem classMember_agrees {s : State} (derived : Bool) {close : Nat} (within : close ≤ p.tokens.size)
    (later : i ≤ s.pos) (le : s.pos ≤ p.tokens.size) :
    Agrees p.source (classMember p w' derived close s) (p.classMember w derived close s) (From p (s.pos + 1)) := by
  rw [classMember, Program.classMember, sound.reach_eq le, pure_bind]
  refine .ite (fun semicolon => .pure ⟨Nat.le_refl _, p.lt_size_of_is semicolon⟩) fun _ => ?_
  refine (walkDecorators_agrees sound walker later le).bind fun decorated decorates => ?_
  obtain ⟨same, modified⟩ := blankMemberModifiers_eq sound {} decorates.2
  have past := Nat.le_trans decorates.1 modified.1
  rw [same, pure_bind]
  revert modified past
  generalize p.blankMemberModifiers {} decorated = result
  obtain ⟨bare, modifiers⟩ := result
  intro modified past
  dsimp only at modified past ⊢
  have bracket {s' : State} (opens : p.isPunct s'.pos openBrace = true) (past : s.pos ≤ s'.pos) :
      Agrees p.source (walkBracket p w' s') (p.walkBracket w s') (From p (s.pos + 1)) :=
    (walkBracket_agrees sound walker opens (by decide) (Nat.le_trans later past)).weaken fun _ after =>
      after.trans (Nat.succ_le_succ past)
  refine .ite (fun block => ?_) fun _ => ?_
  · rw [Bool.and_eq_true] at block
    exact bracket block.2 past
  obtain ⟨same, starred⟩ := skipPunct_eq sound modified.2 "*"
  rw [same, pure_bind, sound.reach_eq starred.2, pure_bind]
  have past := Nat.le_trans past starred.1
  refine .ite (fun index => ?_) fun _ => ?_
  · rw [Bool.and_eq_true, Bool.and_eq_true] at index
    exact (indexSignature_agrees sound s.pos index.1.1).weaken fun _ after =>
      after.trans (Nat.succ_le_succ past)
  refine (walkMemberName_agrees sound walker (Nat.le_trans later past)).bind fun named names => ?_
  have marked : (if p.isPunct named.pos "?" then p.blankMarker named "?" else p.blankMarker named "!") =
      p.blankMarker named (if p.isPunct named.pos "?" then "?" else "!") :=
    (apply_ite (p.blankMarker named) _ _ _).symm
  obtain ⟨same, marks⟩ := blankMarker_eq sound names.2 (if p.isPunct named.pos "?" then "?" else "!")
  rw [same, pure_bind, marked]
  refine (blankTypeParameters_agrees sound marks.2).bind fun generic types => ?_
  have past : s.pos + 1 ≤ generic.pos :=
    Nat.le_trans (Nat.succ_le_succ past) (Nat.le_trans names.1 (Nat.le_trans marks.1 types.1))
  refine .ite (fun opens => ?_) fun _ => ?_
  · exact (method_agrees sound walker derived _ _ _ opens (by omega)).weaken fun _ after =>
      after.trans (Nat.le_succ_of_le past)
  · exact (classField_agrees sound walker _ _ within (by omega) types.2).weaken fun _ after =>
      after.trans past

theorem classMembers_agrees {s : State} (derived : Bool) {close : Nat} (within : close ≤ p.tokens.size)
    (later : i ≤ s.pos) (le : s.pos ≤ p.tokens.size) :
    Agrees p.source (classMembers p w' derived close s) (p.classMembers w derived close s) (From p s.pos) := by
  rw [classMembers, Program.classMembers]
  refine .ite (fun less => ?_) fun _ => .pure ⟨Nat.le_refl _, le⟩
  have first := classMember_agrees sound walker derived within later le
  cases found : p.classMember w derived close s with
  | error e =>
    rw [found] at first
    exact first.error_bind
  | ok next =>
    rw [found] at first
    refine first.ok_bind fun after => ?_
    have forward : s.pos < next.pos := after.1
    dsimp only
    rw [if_pos forward, past_eq_self forward]
    have rest := classMembers_agrees (s := next) derived within (by omega) after.2
    exact rest.weaken fun _ last => last.trans (Nat.le_of_lt forward)
termination_by close - s.pos

theorem walkExtends_agrees {s : State} (later : i ≤ s.pos) (le : s.pos ≤ p.tokens.size) :
    Agrees p.source (walkExtends p w' s)
      (if p.isWord s.pos "extends" then p.walkHeritage w (s.skip 1) else .ok s) (From p s.pos) := by
  rw [walkExtends]
  refine .ite (fun base => ?_) fun _ => .pure ⟨Nat.le_refl _, le⟩
  refine (walkHeritage_agrees sound walker (s := s.skip 1) ?_ ?_).weaken fun _ after => ?_
  · exact Nat.le_succ_of_le later
  · exact p.lt_size_of_is base
  · exact after.trans (Nat.le_succ _)

omit walker in
theorem classNameEnd_eq {i : Nat} (inside : i < p.tokens.size) :
    ∃ j, classNameEnd p i = pure j ∧
      (if p.isName (i + 1) && !p.isWord (i + 1) "extends" && !p.isWord (i + 1) "implements" then i + 2
        else i + 1) = j ∧ i < j ∧ j ≤ p.tokens.size := by
  refine ⟨_, ?_, rfl, ?_⟩
  · rw [classNameEnd, sound.reach_eq (Nat.le_of_lt inside), pure_bind]
  · split
    case isTrue named =>
      rw [Bool.and_eq_true, Bool.and_eq_true] at named
      exact ⟨by omega, p.lt_size_of_is named.1.1⟩
    case isFalse => exact ⟨Nat.lt_succ_self _, inside⟩

omit walker in
theorem blankImplements_agrees {s : State} (le : s.pos ≤ p.tokens.size) :
    Agrees p.source (blankImplements p s)
      (if p.isWord s.pos "implements" then
        p.bodyAhead s.pos s.pos >>= fun j => .ok (p.blankTo s j)
        else .ok s)
      (From p s.pos) := by
  rw [blankImplements]
  refine .ite (fun clause => ?_) fun _ => .pure ⟨Nat.le_refl _, le⟩
  refine (bodyAhead_agrees sound s.pos le).bind fun j ⟨past, brace⟩ => ?_
  exact .of_eq (blankTo_eq ..) (blankTo_from past (Nat.le_of_lt (p.lt_size_of_is brace)))

/-- The class whose keyword stands at a position, behind which the walk goes on. -/
theorem classDeclaration_agrees {k resume : Nat} (s : State) (later : i ≤ k) (inside : k < p.tokens.size)
    (after : i < resume) (within : resume ≤ p.tokens.size) :
    Agrees p.source (classDeclaration p w' k resume s) (p.classDeclaration w k resume s) (From p (i + 1)) := by
  obtain ⟨named, same, same', past, le⟩ := classNameEnd_eq sound inside
  rw [classDeclaration, Program.classDeclaration, same, pure_bind, same']
  refine (blankTypeParameters_agrees sound (s := s.goto named) le).bind fun generic types => ?_
  have past : i < generic.pos := Nat.lt_of_le_of_lt later (Nat.lt_of_lt_of_le past types.1)
  refine (walkExtends_agrees sound walker (Nat.le_of_lt past) types.2).ite_bind fun inherited inherits => ?_
  have past := Nat.lt_of_lt_of_le past inherits.1
  dsimp only
  rw [← bind_assoc]
  refine (blankImplements_agrees sound inherits.2).ite_bind fun headed heads => ?_
  have past := Nat.lt_of_lt_of_le past heads.1
  refine .ite (fun opens => ?_) fun _ => .pure ⟨after, within⟩
  obtain ⟨same, closes⟩ := sound.partner_punct opens (by decide)
  have after := p.lt_close headed.pos
  rw [same, pure_bind]
  refine (classMembers_agrees sound walker (s := headed.skip 1) _ (Nat.le_of_lt closes)
    (Nat.le_succ_of_le (Nat.le_of_lt past)) (p.lt_size_of_is opens)).bind fun members _ => ?_
  exact .pure ⟨by change i + 1 ≤ p.close headed.pos + 1; omega, closes⟩

end

end ModuleLinker.Checked
