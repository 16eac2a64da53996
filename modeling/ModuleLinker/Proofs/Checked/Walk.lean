import ModuleLinker.Proofs.Checked.Statement

/-!
# The walk, with checks

One step of a walk and the walk itself, with checks. What a step looks at in front of its position it
looks at only behind the first token, the text of a substitution is cut out of the source, and the edits
and the complaints of a substitution are moved to places that the source has. Every step comes forward,
so that no check of a walk fails (`walk_agrees`).
-/

set_option autoImplicit false

namespace ModuleLinker.Checked

open Erase Erase.Program

/-! ## Substitutions -/

/-- A computation that goes on in another way where it gives no result. -/
def orElse {α : Type} (m : Checked α) (f : Halt → Checked α) : Checked α :=
  match m.outcome with
  | .ok _ => m
  | .error why => ⟨m.met ++ (f why).met, (f why).outcome⟩

/-- Complains about a place that has `n` more characters in front. -/
def haltShifted {α : Type} (source : List Char) (n : Nat) : Halt → Checked α
  | .rejected e => do
    let _ ← place source (e.offset + n)
    reject (e.shifted n)
  | .crashed why => crash why

/-- The edits of a text with `n` characters in front, as edits of the whole text. -/
def editsShifted (source : List Char) (n : Nat) : Edits → Checked Edits
  | [] => pure []
  | e :: es => do
    let _ ← place source (e.start + n)
    let _ ← place source (e.stop + n)
    let shifted ← editsShifted source n es
    pure (e.shifted n :: shifted)

/-- The edits that a part of a text gets, `n` characters in. -/
def adopted (source : List Char) (n : Nat) (m : Checked Edits) : Checked Edits := do
  editsShifted source n (← orElse m (haltShifted source n))

section

variable (p : Program)

/-- Erases the types in the substitutions of a template literal, one after another. -/
def stepHoles (w : Walker) (s : State) : List Hole → Checked State
  | [] => pure s
  | hole :: holes => do
    let text ← between p.source hole.start hole.stop
    let edits ← adopted p.source hole.start (w.hole { hole with text })
    stepHoles w { s with edits := edits ++ s.edits } holes

/-! ## One step -/

/-- Whether there is a token in front of a position, with some property. -/
def behind (i : Nat) (property : Nat → Bool) : Checked Bool :=
  if i == 0 then pure false else do
    let before ← difference i 1
    pure (property before)

/-- Whether a result type stands after the parenthesis that closes at a position, with a punctuator
right after it on the same line. -/
def typedBefore (close : Nat) (text : String) : Checked Bool :=
  if p.isPunct (close + 1) ":" then do
    match ← typeEnd? p (close + 2) with
    | some ⟨j, _⟩ =>
      reach p.source j
      pure (p.isPunct j text && !p.newlineBefore j)
    | none => pure false
  else pure false

/-- Whether a punctuator stands after the parenthesis that closes at a position, or a result type
does and the punctuator after it. -/
def leadsTo (close : Nat) (text : String) (sameLine : Bool) : Checked Bool :=
  if p.isPunct (close + 1) text && !(sameLine && p.newlineBefore (close + 1)) then pure true
  else typedBefore p close text

/-- Whether the parenthesis that opens at a position holds the parameters of a method. -/
def isMethod (i close : Nat) : Checked Bool := do
  let named ← behind i p.endsMethodName
  if named then leadsTo p close openBrace true else pure false

/-- Walks through the parenthesis at the state's position: the parameters of an arrow function or
of a method, or an expression. -/
def stepParenthesis (w : Walker) (s : State) : Checked State := do
  let ⟨close, _⟩ ← partner p s.pos
  reach p.source close
  let arrow ← leadsTo p close "=>" false
  let method ← isMethod p s.pos close
  if arrow || method then signature p w s else walkBracket p w s

/-- Overwrites the type arguments of a call, the type parameters of an arrow function or a type
assertion, where the `<` at the state's position opens one of them. -/
def stepAngle (s : State) : Checked State := do
  match ← angleEnd? p s.pos with
  | none => pure (s.skip 1)
  | some ⟨stop, _⟩ =>
    reach p.source stop
    let afterValue ← behind s.pos p.endsValue
    let afterName ← behind s.pos p.isName
    let erases :=
      if afterValue then
        afterName && !p.newlineBefore s.pos &&
          (p.isPunct stop "(" || p.kind? stop == some .template)
      else
        p.is stop fun t =>
          t.isPunct "(" || t.kind == .ident || t.kind == .string || t.kind == .number
    if erases then blankTo p s stop else pure (s.skip 1)

/-- Overwrites the type assertion whose keyword stands at the state's position, after a value on the
same line. -/
def stepAssertion (s : State) : Checked State := do
  let afterValue ← behind s.pos p.endsValue
  if !afterValue || p.newlineBefore s.pos then pure (s.skip 1)
  else blankTo p s (← expectType p (s.pos + 1))

/-- Whether a statement starts at a token, as far as the token before it tells. -/
def opensStatement (i : Nat) : Checked Bool :=
  if i == 0 then pure true
  else behind i fun before =>
    p.isPunct before ";" || p.isPunct before openBrace || p.isPunct before closeBrace ||
      (p.newlineBefore i && !p.expectsOperand before)

/-- Erases the construct that the word at the state's position starts, if it starts one. -/
def stepWord (w : Walker) (limit : Nat) (s : State) : Checked State := do
  let i := s.pos
  let word := p.text i
  reach p.source i
  let member ← behind i fun before => p.is before (·.isDot)
  if member then pure (s.skip 1)
  else if word == "import" then importDeclaration p i s
  else if word == "export" then exportDeclaration p w i s
  else if word == "function" then functionDeclaration p w i i (i + 1) s
  else if word == "class" then classDeclaration p w i (i + 1) s
  else if word == "const" && p.isWord (i + 1) "enum" then enumeration p i s
  else if word == "let" || word == "const" || word == "var" then variableDeclaration p w i limit s
  else if word == "as" || word == "satisfies" then stepAssertion p s
  else if word == "catch" && p.isPunct (i + 1) "(" then do
    let (next, _) ← parameters p w (s.skip 1)
    pure next
  else do
    let first ← opensStatement p i
    if first then typeStatement p w i i (i + 1) s else pure (s.skip 1)

/-- Takes one step from the state's position. -/
def step (w : Walker) (limit : Nat) (s : State) : Checked State := do
  reach p.source s.pos
  let t ← tokenAt p.tokens s.pos
  if t.isPunct "(" then stepParenthesis p w s
  else if t.isPunct openBrace || t.isPunct "[" then walkBracket p w s
  else if t.isPunct "<" then stepAngle p s
  else do
    let afterValue ← behind s.pos p.endsValue
    if t.isPunct "!" && afterValue && !t.newlineBefore then blankTo p s (s.pos + 1)
    else if t.kind == .ident then stepWord p w limit s
    else if t.kind == .template then stepHoles p w (s.skip 1) t.holes
    else pure (s.skip 1)

/-! ## The walk -/

/-- Walks from a state up to a limit or to the first position at which it has to stop, where `hole`
gives the edits of a substitution. -/
def walk (hole : Hole → Checked Edits) (limit : Nat) (stop : Nat → Checked Bool) (s : State) :
    Checked State :=
  if _inside : s.pos < p.tokens.size then
    if s.pos < limit then do
      let stops ← stop s.pos
      if stops then pure s
      else do
        let inner : Walker := ⟨fun limit stop t =>
          if s.pos < t.pos then walk hole limit stop t else crash (.standstill s.pos), hole⟩
        let next ← step p inner limit s
        if s.pos < next.pos then walk hole limit stop next else crash (.standstill s.pos)
    else pure s
  else if s.pos < limit then crash (.index s.pos)
  else pure s
termination_by p.tokens.size - s.pos

end

/-! ## No check fails -/

theorem editsShifted_eq {source : List Char} {n : Nat} {edits : Edits}
    (inside : ∀ e ∈ edits, (e.shifted n).IsInside source.length) :
    editsShifted source n edits = pure (edits.map (·.shifted n)) := by
  induction edits with
  | nil => rfl
  | cons e es ih =>
    obtain ⟨first, rest⟩ := List.forall_mem_cons.mp inside
    have stop : e.stop + n ≤ source.length := first.within
    have start : e.start + n ≤ source.length := Nat.le_trans first.inOrder stop
    rw [editsShifted, place_eq start, pure_bind, place_eq stop, pure_bind, ih rest, pure_bind]
    rfl

/-- The edits of a part of a text fit the text, and so does a complaint about the part. -/
theorem adopted_agrees {source part : List Char} {n : Nat} {m : Checked Edits} {x : Except Failure Edits}
    (given : Agrees part m x fun edits => ∀ e ∈ edits, e.IsInside part.length)
    (fits : n + part.length ≤ source.length) :
    Agrees source (adopted source n m)
      ((x.mapError (·.shifted n)).map fun edits => edits.map (·.shifted n)) fun _ => True := by
  obtain ⟨outcome, counter, result, complaint⟩ := given
  cases x with
  | ok edits =>
    have none : ¬ ∃ member ∈ m.met, member.Overflows := fun met => by cases counter.mpr met
    have inside : ∀ e ∈ edits, (e.shifted n).IsInside source.length := by
      intro e mem
      obtain ⟨inOrder, within⟩ := result edits rfl e mem
      refine ⟨Nat.add_le_add_right inOrder n, ?_⟩
      change e.stop + n ≤ source.length
      omega
    have same : orElse m (haltShifted source n) = m := by
      rw [orElse, outcome]
      rfl
    rw [adopted, same, bind_ok outcome, editsShifted_eq inside]
    refine ⟨rfl, ⟨fun same => (by cases same), fun met => absurd ?_ none⟩, fun _ _ => trivial, fun _ same =>
      by cases same⟩
    rwa [pure_eq, List.append_nil] at met
  | error e =>
    have outcome : m.outcome = .error (Halt.ofFailure e) := outcome
    cases e with
    | rejected e =>
      have le : e.offset + n ≤ source.length := by
        have := complaint e rfl
        omega
      have same : adopted source n m = ⟨m.met, .error (.rejected (e.shifted n))⟩ := by
        have halted : haltShifted source n (.rejected e) =
            (⟨[], .error (.rejected (e.shifted n))⟩ : Checked Edits) := by
          rw [haltShifted, place_eq le, pure_bind]
          rfl
        rw [adopted, orElse, outcome]
        dsimp only [Halt.ofFailure]
        rw [halted, List.append_nil]
        rfl
      rw [same]
      refine ⟨rfl, ?_, fun _ same => (by cases same), fun e' same => ?_⟩
      · refine Iff.trans ⟨fun same => (by cases same), fun same => ?_⟩ counter
        cases same
      · cases same
        exact le
    | counterOverflow =>
      have same : adopted source n m = ⟨m.met, .error (Halt.ofFailure .counterOverflow)⟩ := by
        rw [adopted, orElse, outcome]
        dsimp only [Halt.ofFailure, haltShifted]
        rw [crash, halt, List.append_nil]
        rfl
      rw [same]
      refine ⟨rfl, ?_, fun _ same => (by cases same), fun e' same => by cases same⟩
      exact Iff.trans ⟨fun _ => rfl, fun _ => rfl⟩ counter

section

variable {p : Program}

theorem behind_eq (i : Nat) (property : Nat → Bool) :
    behind i property = pure (i != 0 && property (i - 1)) := by
  unfold behind
  cases i with
  | zero => rfl
  | succ i =>
    rw [difference_eq (Nat.succ_pos i), pure_bind]
    rfl

theorem opensStatement_eq (i : Nat) : opensStatement p i = pure (p.startsStatement i) := by
  rw [opensStatement, behind_eq]
  cases i with
  | zero => rfl
  | succ i => rfl

variable (sound : p.IsSound)
include sound

theorem typedBefore_eq (close : Nat) (text : String) :
    typedBefore p close text = pure (p.typedBefore close text) := by
  rw [typedBefore, Program.typedBefore]
  split
  case isFalse absent => rw [Bool.eq_false_iff.mpr absent, Bool.false_and]
  case isTrue colon =>
    have finds := typeEnd?_finds sound (p.lt_size_of_is colon)
    rw [finds.same, pure_bind, colon, Bool.true_and]
    cases found : p.typeEnd? (close + 2) with
    | none => rfl
    | some j =>
      dsimp only
      rw [sound.reach_eq (finds.within j found), pure_bind]

theorem leadsTo_eq (close : Nat) (text : String) (sameLine : Bool) :
    leadsTo p close text sameLine =
      pure ((p.isPunct (close + 1) text && !(sameLine && p.newlineBefore (close + 1))) ||
        p.typedBefore close text) := by
  rw [leadsTo, typedBefore_eq sound]
  split
  case isTrue here => rw [here, Bool.true_or]
  case isFalse absent => rw [Bool.eq_false_iff.mpr absent, Bool.false_or]

theorem isMethod_eq (i close : Nat) :
    isMethod p i close =
      pure (i != 0 && p.endsMethodName (i - 1) &&
        ((p.isPunct (close + 1) openBrace && !p.newlineBefore (close + 1)) ||
          p.typedBefore close openBrace)) := by
  rw [isMethod, behind_eq, pure_bind, leadsTo_eq sound, Bool.true_and]
  split
  case isTrue named => rw [named, Bool.true_and]
  case isFalse absent => rw [Bool.eq_false_iff.mpr absent, Bool.false_and]

theorem stepAngle_eq {s : State} (opens : p.isPunct s.pos "<" = true) :
    stepAngle p s = pure (p.stepAngle s) ∧ From p (s.pos + 1) (p.stepAngle s) := by
  have finds := angleEnd?_finds sound opens
  rw [stepAngle, Program.stepAngle, finds.same, pure_bind]
  dsimp only
  cases found : p.angleEnd? s.pos with
  | none => exact ⟨rfl, Nat.le_refl _, p.lt_size_of_is opens⟩
  | some j =>
    obtain ⟨stop, later⟩ := j
    have within := finds.within ⟨stop, later⟩ found
    dsimp only
    rw [sound.reach_eq within, pure_bind, behind_eq, pure_bind, behind_eq, pure_bind, blankTo_eq]
    have choice (erases : Bool) :
        (if erases then pure (p.blankTo s stop) else pure (s.skip 1) : Checked State) =
            pure (if erases then p.blankTo s stop else s.skip 1) ∧
          From p (s.pos + 1) (if erases then p.blankTo s stop else s.skip 1) := by
      cases erases with
      | false => exact ⟨rfl, Nat.le_refl _, p.lt_size_of_is opens⟩
      | true => exact ⟨rfl, blankTo_from later within⟩
    cases s.pos != 0 with
    | false =>
      rw [Bool.false_and, Bool.false_and]
      exact choice _
    | true =>
      rw [Bool.true_and, Bool.true_and]
      exact choice _

theorem stepAssertion_agrees {s : State} (inside : s.pos < p.tokens.size) :
    Agrees p.source (stepAssertion p s) (p.stepAssertion s) (From p (s.pos + 1)) := by
  have condition : (!(s.pos != 0 && p.endsValue (s.pos - 1)) || p.newlineBefore s.pos) =
      (s.pos == 0 || !p.endsValue (s.pos - 1) || p.newlineBefore s.pos) := by
    cases s.pos <;> rfl
  rw [stepAssertion, Program.stepAssertion, behind_eq, pure_bind, condition]
  refine .ite (fun _ => .pure ⟨Nat.le_refl _, inside⟩) fun _ => ?_
  refine (expectType_agrees sound inside).bind fun j ⟨later, within⟩ => ?_
  exact .of_eq (blankTo_eq ..) (blankTo_from (by omega) within)

variable {w' : Walker} {w : Erase.Walker} {i : Nat} (walker : w'.Agrees w p i)
include walker

theorem stepHoles_agrees {s : State} {t : Token} (token : t ∈ p.tokens) {holes : List Hole}
    (among : ∀ h ∈ holes, h ∈ t.holes) {j : Nat} (from' : From p j s) :
    Agrees p.source (stepHoles p w' s holes) (Program.stepHoles w s holes) (From p j) := by
  induction holes generalizing s with
  | nil => exact .pure from'
  | cons h holes ih =>
    obtain ⟨first, rest⟩ := List.forall_mem_cons.mp among
    obtain ⟨-, before, piece⟩ := (sound.read.piece token).holes h first
    have within := sound.read.stop_le_length token
    have fits : h.start + h.text.length ≤ p.source.length := by
      unfold Hole.stop at before
      omega
    have cut : between p.source h.start h.stop = pure h.text := by
      rw [Hole.stop, between_eq (Nat.le_add_right ..) fits, Nat.add_sub_cancel_left,
        ← List.prefix_iff_eq_take.mp piece]
    have inner := adopted_agrees (walker.hole t token h first) fits
    rw [stepHoles, Program.stepHoles, cut, pure_bind]
    cases given : w.hole h with
    | error e =>
      rw [given] at inner
      exact inner.error_bind
    | ok edits =>
      rw [given] at inner
      exact inner.ok_bind fun _ => ih rest from'

theorem stepParenthesis_agrees {s : State} (opens : p.isPunct s.pos "(" = true) (later : i ≤ s.pos) :
    Agrees p.source (stepParenthesis p w' s) (p.stepParenthesis w s) (From p (s.pos + 1)) := by
  obtain ⟨same, closes⟩ := sound.partner_punct opens (by decide)
  rw [stepParenthesis, Program.stepParenthesis, same, pure_bind]
  dsimp only
  rw [sound.reach_eq (Nat.le_of_lt closes), pure_bind, leadsTo_eq sound, pure_bind, isMethod_eq sound,
    pure_bind, Bool.false_and, Bool.not_false, Bool.and_true]
  refine .ite (fun _ => signature_agrees sound walker opens later) fun _ => ?_
  exact walkBracket_agrees sound walker opens (by decide) later

/-- The word that a walk has come to. -/
theorem stepWord_agrees {s : State} {limit : Nat} (here : s.pos = i) (name : p.isName s.pos = true)
    (within : limit ≤ p.tokens.size) :
    Agrees p.source (stepWord p w' limit s) (p.stepWord w limit s) (From p (s.pos + 1)) := by
  have inside := p.lt_size_of_is name
  subst here
  have next : s.pos < s.pos + 1 := Nat.lt_succ_self _
  rw [stepWord, Program.stepWord, sound.reach_eq (Nat.le_of_lt inside), pure_bind, behind_eq, pure_bind]
  refine .ite (fun _ => .pure ⟨Nat.le_refl _, inside⟩) fun _ => ?_
  refine .ite (fun _ => importDeclaration_agrees sound s inside) fun _ => ?_
  refine .ite (fun _ => exportDeclaration_agrees sound walker s inside) fun _ => ?_
  refine .ite (fun _ => ?_) fun _ => .ite (fun _ => ?_) fun _ => ?_
  · exact functionDeclaration_agrees sound walker s.pos s (Nat.le_refl _) inside next inside
  · exact classDeclaration_agrees sound walker s (Nat.le_refl _) inside next inside
  refine .ite (fun _ => enumeration_agrees sound s.pos s (Nat.le_of_lt inside)) fun _ => ?_
  refine .ite (fun _ => variableDeclaration_agrees sound walker s within inside) fun _ => ?_
  refine .ite (fun _ => stepAssertion_agrees sound inside) fun _ => .ite (fun caught => ?_) fun _ => ?_
  · rw [Bool.and_eq_true] at caught
    refine (parameters_agrees sound walker (s := s.skip 1) caught.2 (Nat.le_succ _)).bind ?_
    exact fun r after => .pure (after.trans (Nat.le_succ _))
  rw [opensStatement_eq, pure_bind]
  refine .ite (fun _ => ?_) fun _ => .pure ⟨Nat.le_refl _, inside⟩
  exact typeStatement_agrees sound walker s.pos s (Nat.le_refl _) (Nat.le_of_lt inside) next inside

/-- A step agrees, and comes forward. -/
theorem step_agrees {s : State} {limit : Nat} (here : s.pos = i) (inside : s.pos < p.tokens.size)
    (within : limit ≤ p.tokens.size) :
    Agrees p.source (step p w' limit s) (p.step w limit s) (From p (s.pos + 1)) := by
  have found : p.tokens[s.pos]? = some p.tokens[s.pos] := Array.getElem?_eq_getElem inside
  have later : i ≤ s.pos := Nat.le_of_eq here.symm
  generalize p.tokens[s.pos] = t at found
  have isHere {property : Token → Bool} (holds : property t = true) : p.is s.pos property = true :=
    (Option.any_eq_true ..).mpr ⟨t, found, holds⟩
  rw [step, Program.step, sound.reach_eq (Nat.le_of_lt inside), pure_bind, tokenAt_eq found, pure_bind, found]
  dsimp only
  refine .ite (fun opens => stepParenthesis_agrees sound walker (isHere opens) later) fun _ => ?_
  refine .ite (fun opens => ?_) fun _ => .ite (fun opens => ?_) fun _ => ?_
  · rcases Bool.or_eq_true _ _ |>.mp opens with opens | opens <;>
      exact walkBracket_agrees sound walker (isHere opens) (by decide) later
  · obtain ⟨same, after⟩ := stepAngle_eq sound (isHere opens)
    exact .of_eq same after
  rw [behind_eq, pure_bind, ← Bool.and_assoc]
  refine .ite (fun _ => .of_eq (blankTo_eq ..) (blankTo_from (Nat.le_refl _) inside)) fun _ => ?_
  refine .ite (fun name => stepWord_agrees sound walker here (isHere name) within) fun _ => ?_
  refine .ite (fun _ => ?_) fun _ => .pure ⟨Nat.le_refl _, inside⟩
  exact stepHoles_agrees sound walker (Array.mem_of_getElem? found) (fun _ mem => mem)
    ⟨Nat.le_refl _, inside⟩

omit walker in
/-- No check of a walk fails, where none fails in the substitutions. -/
theorem walk_agrees {hole' : Hole → Checked Edits} {hole : Hole → Except Failure Edits}
    (holes : ∀ t ∈ p.tokens, ∀ h ∈ t.holes, Agrees h.text (hole' h) (hole h) fun edits =>
      ∀ e ∈ edits, e.IsInside h.text.length)
    {limit : Nat} {stop' : Nat → Checked Bool} {stop : Nat → Bool} {s : State}
    (same : ∀ k, stop' k = pure (stop k)) (within : limit ≤ p.tokens.size) (le : s.pos ≤ p.tokens.size) :
    Agrees p.source (walk p hole' limit stop' s) (p.walk hole limit stop s) (From p s.pos) := by
  rw [walk, Program.walk]
  refine .dite (fun inside => ?_) fun outside => ?_
  · rw [same, pure_bind]
    by_cases before : s.pos < limit
    case neg =>
      rw [if_neg before, decide_eq_false before, Bool.false_and, if_neg Bool.false_ne_true]
      exact .pure ⟨Nat.le_refl _, le⟩
    rw [if_pos before, decide_eq_true before, Bool.true_and]
    cases stop s.pos with
    | true => exact .pure ⟨Nat.le_refl _, le⟩
    | false =>
      rw [Bool.not_false, if_pos rfl, if_neg Bool.false_ne_true]
      generalize inner' : Walker.mk _ hole' = w'
      generalize inner : Erase.Walker.mk _ hole = w
      have walker : w'.Agrees w p s.pos := by
        subst inner' inner
        refine ⟨fun limit stop' stop t same within later le => ?_, holes⟩
        dsimp only
        rw [if_pos later, past_eq_self later]
        exact walk_agrees holes same within le
      have first : Agrees p.source (step p w' limit s) (p.step w limit s) (From p (s.pos + 1)) :=
        step_agrees sound walker rfl inside within
      dsimp only
      cases found : p.step w limit s with
      | error e =>
        rw [found] at first
        exact first.error_bind
      | ok next =>
        rw [found] at first
        refine first.ok_bind fun after => ?_
        have forward : s.pos < next.pos := after.1
        dsimp only
        rw [if_pos forward, past_eq_self forward]
        exact (walk_agrees holes same within after.2).weaken fun _ last =>
          last.trans (Nat.le_of_lt forward)
  · rw [if_neg fun less => outside (Nat.lt_of_lt_of_le less within)]
    exact .pure ⟨Nat.le_refl _, le⟩
termination_by p.tokens.size - s.pos

end

end ModuleLinker.Checked
