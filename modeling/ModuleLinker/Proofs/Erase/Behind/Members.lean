import Mathlib
import ModuleLinker.Erase.Statement
import ModuleLinker.Proofs.Erase.Behind.Types

/-!
# Members behind other tokens

The state of a walk behind a front (`Front.lift`) lies further on and has further edits, and each
small step gives the same result there (`Front.result`): stepping over annotations and brackets, and
walking through parameters, classes and enums.
-/

set_option autoImplicit false

namespace ModuleLinker.Erase

/-! ## States and results -/

namespace Front

variable (f : Front)

/-- The state of a walk behind the front. -/
def lift (s : State) : State := ⟨f.tokens + s.pos, s.edits.map (·.shifted f.chars) ++ f.edits⟩

/-- The result of a step behind the front. -/
def result {α β : Type} (g : α → β) : Except Failure α → Except Failure β
  | .error e => .error (e.shifted f.chars)
  | .ok a => .ok (g a)

@[simp] theorem lift_pos (s : State) : (f.lift s).pos = f.tokens + s.pos := rfl

@[simp] theorem lift_goto (s : State) (i : Nat) :
    (f.lift s).goto (f.tokens + i) = f.lift (s.goto i) :=
  rfl

@[simp] theorem lift_skip (s : State) (n : Nat) : (f.lift s).skip n = f.lift (s.skip n) := by
  unfold State.skip
  rw [lift_pos, Nat.add_assoc, lift_goto]

@[simp] theorem lift_past (s : State) (i : Nat) :
    (f.lift s).past (f.tokens + i) = f.lift (s.past i) := by
  unfold State.past
  rw [lift_pos, Nat.add_assoc, Nat.add_max_add_left, lift_goto]

variable {f}

/-- An edit behind the front takes the place of no edit in it. -/
theorem lift_edit (early : ∀ e ∈ f.edits, e.start < f.chars) (s : State) (e : Edit) :
    (f.lift s).edit (e.shifted f.chars) = f.lift (s.edit e) := by
  have kept : f.edits.filter (fun old => !old.within (e.shifted f.chars)) = f.edits := by
    rw [List.filter_eq_self]
    intro old mem
    have before := early old mem
    have outside : ¬ (e.shifted f.chars).start ≤ old.start := by
      change ¬ e.start + f.chars ≤ old.start
      omega
    rw [Edit.within, decide_eq_false outside]
    rfl
  have within (old : Edit) : (old.shifted f.chars).within (e.shifted f.chars) = old.within e := by
    simp [Edit.within, Edit.shifted]
  unfold State.edit Edits.absorb lift
  simp only [List.filter_append, kept, List.filter_map, List.map_cons, List.cons_append]
  congr 4
  exact congrArg (s.edits.filter ·) (funext fun old => congrArg (!·) (within old))

variable {α α' β β' : Type}

/-- Two steps after each other. -/
theorem bind_eq_result {x : Except Failure α} {x' : Except Failure α'} {g : α → α'}
    {k : α → Except Failure β} {k' : α' → Except Failure β'} {h : β → β'}
    (first : x' = f.result g x) (rest : ∀ a, k' (g a) = f.result h (k a)) :
    (x' >>= k') = f.result h (x >>= k) := by
  rw [first]
  cases x with
  | error e => rfl
  | ok a => exact rest a

theorem ite_eq_result {c : Prop} [Decidable c] {g : α → β} {yes no : Except Failure α}
    {yes' no' : Except Failure β} (ifSo : c → yes' = f.result g yes)
    (ifNot : ¬ c → no' = f.result g no) :
    (if c then yes' else no') = f.result g (if c then yes else no) := by
  split
  case isTrue h => exact ifSo h
  case isFalse h => exact ifNot h

/-- A step that is taken in one of two ways, and the step after it. -/
theorem ite_bind_eq_result {c : Prop} [Decidable c] {x y : Except Failure α} {x' y' : Except Failure α'}
    {g : α → α'} {k : α → Except Failure β} {k' : α' → Except Failure β'} {h : β → β'}
    (ifSo : c → x' = f.result g x) (ifNot : ¬ c → y' = f.result g y)
    (rest : ∀ a, k' (g a) = f.result h (k a)) :
    (if c then x' >>= k' else y' >>= k') = f.result h (if c then x >>= k else y >>= k) :=
  ite_eq_result (fun yes => bind_eq_result (ifSo yes) rest) fun no => bind_eq_result (ifNot no) rest

theorem ite_eq_lift {c : Prop} [Decidable c] {yes no yes' no' : State} (ifSo : c → yes' = f.lift yes)
    (ifNot : ¬ c → no' = f.lift no) : (if c then yes' else no') = f.lift (if c then yes else no) := by
  split
  case isTrue h => exact ifSo h
  case isFalse h => exact ifNot h

end Front

/-- Whether a walker goes on behind a front as another one does in a program without it. -/
structure Walker.Behind (w' : Walker) (f : Front) (p : Program) (w : Walker) : Prop where
  /-- Every walk has the same result. -/
  walk : ∀ (limit : Nat) (stop stop' : Nat → Bool) (s : State),
    (∀ i, stop' (f.tokens + i) = stop i) →
      w'.walk (f.tokens + limit) stop' (f.lift s) = f.result f.lift (w.walk limit stop s)
  /-- Every substitution has the same edits. -/
  hole : ∀ t ∈ p.tokens, ∀ h ∈ t.holes, w'.hole (h.shifted f.chars) = w.hole h

namespace Program

open Front

variable {p' p : Program} {f : Front} [behind : Behind p' f p]

section States

theorem fail_behind {α β : Type} (g : α → β) (i : Nat) (complaint : Complaint) :
    p'.fail (f.tokens + i) complaint = f.result g (p.fail i complaint) := by
  unfold fail
  rw [offset_behind]
  rfl

theorem expectType_eq (i : Nat) : p.expectType i = (p.typeStop? i).elim (p.fail i .typeExpected) .ok := by
  unfold expectType typeStop?
  cases p.typeEnd? i <;> rfl

theorem expectAngle_eq (i : Nat) :
    p.expectAngle i = (p.angleStop? 0 (i + 1)).elim (p.fail i (.punctuatorExpected ">")) .ok := by
  unfold expectAngle angleEnd? angleStop?
  cases p.angleFrom? 0 (i + 1) <;> rfl

theorem expectType_behind (i : Nat) :
    p'.expectType (f.tokens + i) = f.result (f.tokens + ·) (p.expectType i) := by
  rw [expectType_eq, expectType_eq, typeStop?_behind]
  cases p.typeStop? i with
  | none => exact fail_behind ..
  | some j => rfl

theorem expectAngle_behind (i : Nat) :
    p'.expectAngle (f.tokens + i) = f.result (f.tokens + ·) (p.expectAngle i) := by
  rw [expectAngle_eq, expectAngle_eq, Nat.add_assoc, angleStop?_behind]
  cases p.angleStop? 0 (i + 1) with
  | none => exact fail_behind ..
  | some j => rfl

theorem stop_placed (n i : Nat) (t : Token) : (t.placed n i).stop = t.stop + n :=
  Nat.add_right_comm ..

@[simp] theorem blank_behind (s : State) (first last : Nat) :
    p'.blank (f.lift s) (f.tokens + first) (f.tokens + last) = f.lift (p.blank s first last) := by
  unfold blank
  simp only [Nat.add_lt_add_iff_left]
  refine ite_eq_lift (fun less => ?_) fun _ => rfl
  have place : f.tokens + last - 1 = f.tokens + (last - 1) := by omega
  rw [place, Behind.token first, Behind.token (last - 1)]
  cases p.tokens[first]? with
  | none => rfl
  | some a =>
    cases p.tokens[last - 1]? with
    | none => rfl
    | some z =>
      have edit : Edit.mk (a.start + f.chars) (z.stop + f.chars) none =
        (Edit.mk a.start z.stop none).shifted f.chars := rfl
      dsimp only [Option.map_some]
      rw [stop_placed]
      exact lift_edit (Behind.early p') s ⟨a.start, z.stop, none⟩

@[simp] theorem blankTo_behind (s : State) (last : Nat) :
    p'.blankTo (f.lift s) (f.tokens + last) = f.lift (p.blankTo s last) := by
  unfold blankTo
  rw [lift_pos, blank_behind, lift_goto]

@[simp] theorem blankMarker_behind (s : State) (text : String) :
    p'.blankMarker (f.lift s) text = f.lift (p.blankMarker s text) := by
  unfold blankMarker
  rw [lift_pos, isPunct_behind, Nat.add_assoc, blankTo_behind]
  exact ite_eq_lift (fun _ => rfl) fun _ => rfl

@[simp] theorem skipPunct_behind (s : State) (text : String) :
    p'.skipPunct (f.lift s) text = f.lift (p.skipPunct s text) := by
  unfold skipPunct
  rw [lift_pos, isPunct_behind, lift_skip]
  exact ite_eq_lift (fun _ => rfl) fun _ => rfl

theorem blankAnnotation_behind (s : State) :
    p'.blankAnnotation (f.lift s) = f.result f.lift (p.blankAnnotation s) := by
  unfold blankAnnotation
  rw [lift_pos, isPunct_behind, Nat.add_assoc]
  refine ite_eq_result (fun _ => ?_) fun _ => rfl
  exact bind_eq_result (expectType_behind _) fun j => by rw [blankTo_behind]; rfl

theorem blankTypeParameters_behind (s : State) :
    p'.blankTypeParameters (f.lift s) = f.result f.lift (p.blankTypeParameters s) := by
  unfold blankTypeParameters
  rw [lift_pos, isPunct_behind]
  refine ite_eq_result (fun _ => ?_) fun _ => rfl
  exact bind_eq_result (expectAngle_behind _) fun j => by rw [blankTo_behind]; rfl

variable {w' w : Walker} (walker : w'.Behind f p w)
include walker

theorem walkBracket_behind (s : State) :
    p'.walkBracket w' (f.lift s) = f.result f.lift (p.walkBracket w s) := by
  unfold walkBracket
  dsimp only
  rw [lift_pos, close_behind, lift_skip]
  refine bind_eq_result (walker.walk _ _ _ _ fun _ => rfl) fun inside => ?_
  rw [Nat.add_assoc, lift_goto]
  rfl

theorem walkValue_behind (limit : Nat) (stops : List String) (s : State) :
    p'.walkValue w' (f.tokens + limit) stops (f.lift s) =
      f.result f.lift (p.walkValue w limit stops s) := by
  unfold walkValue
  rw [lift_pos, isPunct_behind, lift_skip]
  refine ite_eq_result (fun _ => ?_) fun _ => rfl
  refine walker.walk _ _ _ _ fun i => ?_
  simp only [isPunct_behind]

end States

/-! ## Parameters -/

section Parameters

@[simp] theorem blankParameterModifiers_behind (s : State) :
    p'.blankParameterModifiers (f.lift s) = f.lift (p.blankParameterModifiers s) := by
  unfold blankParameterModifiers
  simp only [lift_pos, isOneOf_behind, Nat.add_assoc, bindsAt_behind, blankTo_behind]
  split
  case isTrue modifier =>
    have inside : s.pos < p.tokens.size := p.lt_size_of_is modifier.1
    exact blankParameterModifiers_behind (p.blankTo s (s.pos + 1))
  case isFalse => rfl
termination_by p.tokens.size - s.pos
decreasing_by
  simp only [blankTo, State.goto]
  omega

variable {w' w : Walker} (walker : w'.Behind f p w)
include walker

theorem walkBinding_behind (s : State) :
    p'.walkBinding w' (f.lift s) = f.result f.lift (p.walkBinding w s) := by
  unfold walkBinding
  rw [lift_pos, isPunct_behind, isPunct_behind, isName_behind, lift_skip]
  refine ite_eq_result (fun _ => walkBracket_behind walker s) fun _ => ?_
  exact ite_eq_result (fun _ => rfl) fun _ => fail_behind ..

theorem parameter_behind (close : Nat) (s : State) :
    p'.parameter w' (f.tokens + close) (f.lift s) =
      f.result (fun r => (f.lift r.1, r.2)) (p.parameter w close s) := by
  unfold parameter
  dsimp only
  rw [lift_pos, isPunct_behind, blankParameterModifiers_behind, skipPunct_behind]
  refine ite_eq_result (fun _ => fail_behind ..) fun _ => ?_
  simp only [lift_pos, isWord_behind, isPunct_behind, Nat.add_assoc]
  refine ite_eq_result (fun _ => ?_) fun _ => ?_
  · refine bind_eq_result (expectType_behind _) fun j => ?_
    rw [lift_goto, skipPunct_behind, lift_pos, blank_behind]
    rfl
  · rw [text_behind]
    refine bind_eq_result (walkBinding_behind walker _) fun bound => ?_
    refine bind_eq_result (by rw [blankMarker_behind, blankAnnotation_behind]) fun typed => ?_
    refine bind_eq_result (walkValue_behind walker close [","] typed) fun valued => ?_
    simp only [lift_pos, isPunct_behind, lift_skip, Nat.add_left_cancel_iff, Nat.add_lt_add_iff_left]
    refine ite_eq_result (fun _ => rfl) fun _ => ?_
    exact ite_eq_result (fun _ => rfl) fun _ => fail_behind ..

theorem parametersTo_behind (close : Nat) (properties : List String) (s : State) :
    p'.parametersTo w' (f.tokens + close) properties (f.lift s) =
      f.result (fun r => (f.lift r.1, r.2)) (p.parametersTo w close properties s) := by
  unfold parametersTo
  simp only [lift_pos, Nat.add_lt_add_iff_left, parameter_behind walker]
  split
  case isFalse => rfl
  case isTrue less =>
    cases p.parameter w close s with
    | error e => rfl
    | ok r =>
      obtain ⟨next, property⟩ := r
      dsimp only [result]
      rw [lift_past]
      exact parametersTo_behind close (properties ++ property.toList) (next.past s.pos)
termination_by close - s.pos
decreasing_by
  simp only [State.past, State.goto]
  omega

theorem parameters_behind (s : State) :
    p'.parameters w' (f.lift s) = f.result (fun r => (f.lift r.1, r.2)) (p.parameters w s) := by
  unfold parameters
  dsimp only
  rw [lift_pos, close_behind, lift_skip]
  refine bind_eq_result (parametersTo_behind walker _ _ _) fun r => ?_
  dsimp only
  rw [Nat.add_assoc, lift_goto]
  rfl

theorem signature_behind (s : State) :
    p'.signature w' (f.lift s) = f.result f.lift (p.signature w s) := by
  unfold signature
  refine bind_eq_result (parameters_behind walker s) fun r => ?_
  exact ite_eq_result (fun _ => blankAnnotation_behind r.1) fun _ => fail_behind ..

end Parameters

/-! ## Classes -/

section Classes

theorem bodyAhead_eq (report i : Nat) : p.bodyAhead report i =
    p.tokens[i]?.elim (p.fail report (.punctuatorExpected openBrace)) fun t =>
      if t.isPunct openBrace then .ok i
      else if t.isPunct "<" then
        (p.angleStop? 0 (i + 1)).elim (p.fail i (.punctuatorExpected ">")) (p.bodyAhead report)
      else p.bodyAhead report (i + 1) := by
  rw [bodyAhead]
  split
  case h_1 none =>
    rw [none]
    rfl
  case h_2 t found =>
    conv_rhs => rw [found, Option.elim_some]
    unfold angleEnd? angleStop?
    split
    · rfl
    split
    · cases p.angleFrom? 0 (i + 1) <;> rfl
    · rfl

theorem bodyAhead_behind (report i : Nat) :
    p'.bodyAhead (f.tokens + report) (f.tokens + i) =
      f.result (f.tokens + ·) (p.bodyAhead report i) := by
  rw [@bodyAhead_eq p', @bodyAhead_eq p, Behind.token i]
  cases found : p.tokens[i]? with
  | none => exact fail_behind ..
  | some t =>
    have inside : i < p.tokens.size := (Array.getElem?_eq_some_iff.mp found).1
    rw [Option.map_some, Option.elim_some, Option.elim_some]
    simp only [isPunct_placed, Nat.add_assoc, angleStop?_behind]
    refine ite_eq_result (fun _ => rfl) fun _ => ite_eq_result (fun _ => ?_) fun _ => ?_
    · cases angle : p.angleStop? 0 (i + 1) with
      | none => exact fail_behind ..
      | some j =>
        have after := lt_angleStop? angle
        exact bodyAhead_behind report j
    · exact bodyAhead_behind report (i + 1)
termination_by p.tokens.size - i

theorem walkHeritage_eq (w : Walker) (s : State) : p.walkHeritage w s =
    p.tokens[s.pos]?.elim (.ok s) fun t =>
      if t.isPunct openBrace || t.isWord "implements" then .ok s
      else
        (if t.isPunct "(" || t.isPunct "[" then p.walkBracket w s
          else if t.isPunct "<" then p.blankTypeParameters s
          else .ok (s.skip 1)) >>= fun next => p.walkHeritage w (next.past s.pos) := by
  rw [walkHeritage]
  split
  case h_1 none =>
    rw [none]
    rfl
  case h_2 t found =>
    conv_rhs => rw [found, Option.elim_some]
    dsimp only
    split
    · rfl
    · generalize (if t.isPunct "(" || t.isPunct "[" then p.walkBracket w s
          else if t.isPunct "<" then p.blankTypeParameters s
          else .ok (s.skip 1)) = next
      cases next <;> rfl

theorem walkDecorators_eq (w : Walker) (s : State) : p.walkDecorators w s =
    if p.isPunct s.pos "@" then
      let called := s.goto (p.qualifiersStop (if p.isName (s.pos + 1) then s.pos + 2 else s.pos + 1))
      (if p.isPunct called.pos "(" then p.walkBracket w called else .ok called) >>= fun next =>
        p.walkDecorators w (next.past s.pos)
    else .ok s := by
  rw [walkDecorators]
  split
  case isTrue =>
    unfold qualifiersStop
    dsimp only
    split
    all_goals rename_i h; rw [h]; rfl
  case isFalse => rfl

@[simp] theorem modifiesMember_behind (i : Nat) :
    p'.modifiesMember (f.tokens + i) = p.modifiesMember i := by
  unfold modifiesMember
  simp only [isOneOf_behind, isWord_behind, Nat.add_assoc, newlineBefore_behind_succ]
  rw [is_behind fun _ _ => rfl]

@[simp] theorem blankMemberModifiers_behind (found : MemberModifiers) (s : State) :
    p'.blankMemberModifiers found (f.lift s) =
      (f.lift (p.blankMemberModifiers found s).1, (p.blankMemberModifiers found s).2) := by
  unfold blankMemberModifiers
  simp only [lift_pos, modifiesMember_behind, text_behind, Nat.add_assoc, blank_behind]
  split
  case isTrue modifies =>
    have inside : s.pos < p.tokens.size := by
      simp only [modifiesMember, Bool.and_eq_true] at modifies
      exact p.lt_size_of_is modifies.1.1
    have next : (if parameterModifiers.contains (p.text s.pos) then
          f.lift (p.blank s s.pos (s.pos + 1)) else f.lift s) =
        f.lift (if parameterModifiers.contains (p.text s.pos) then p.blank s s.pos (s.pos + 1) else s) :=
      ite_eq_lift (fun _ => rfl) fun _ => rfl
    rw [next, lift_goto]
    exact blankMemberModifiers_behind _ _
  case isFalse => rfl
termination_by p.tokens.size - s.pos
decreasing_by
  simp only [State.goto]
  omega

variable {w' w : Walker} (walker : w'.Behind f p w)

section Walker

include walker

theorem walkHeritage_behind (s : State) :
    p'.walkHeritage w' (f.lift s) = f.result f.lift (p.walkHeritage w s) := by
  rw [@walkHeritage_eq p', @walkHeritage_eq p, lift_pos, Behind.token s.pos]
  cases found : p.tokens[s.pos]? with
  | none => rfl
  | some t =>
    have inside : s.pos < p.tokens.size := (Array.getElem?_eq_some_iff.mp found).1
    rw [Option.map_some, Option.elim_some, Option.elim_some]
    simp only [isPunct_placed, isWord_placed, lift_skip]
    refine ite_eq_result (fun _ => rfl) fun _ => bind_eq_result (g := f.lift) ?_ fun next => ?_
    · refine ite_eq_result (fun _ => walkBracket_behind walker s) fun _ => ?_
      exact ite_eq_result (fun _ => blankTypeParameters_behind s) fun _ => rfl
    · rw [lift_past]
      exact walkHeritage_behind (next.past s.pos)
termination_by p.tokens.size - s.pos
decreasing_by
  simp only [State.past, State.goto]
  omega

theorem walkDecorators_behind (s : State) :
    p'.walkDecorators w' (f.lift s) = f.result f.lift (p.walkDecorators w s) := by
  have named : (if p'.isName (f.tokens + (s.pos + 1)) then f.tokens + (s.pos + 2)
      else f.tokens + (s.pos + 1)) =
      f.tokens + if p.isName (s.pos + 1) then s.pos + 2 else s.pos + 1 := by
    rw [isName_behind]
    split <;> rfl
  rw [walkDecorators_eq, walkDecorators_eq, lift_pos, isPunct_behind]
  refine ite_eq_result (fun at' => ?_) fun _ => rfl
  have inside : s.pos < p.tokens.size := p.lt_size_of_is at'
  simp only [Nat.add_assoc, named, qualifiersStop_behind, lift_goto]
  refine bind_eq_result (g := f.lift) ?_ fun next => ?_
  · rw [lift_pos, isPunct_behind]
    exact ite_eq_result (fun _ => walkBracket_behind walker _) fun _ => rfl
  · rw [lift_past]
    exact walkDecorators_behind (next.past s.pos)
termination_by p.tokens.size - s.pos
decreasing_by
  simp only [State.past, State.goto]
  omega

theorem method_behind (derived ambient : Bool) (start name : Nat) (s : State) :
    p'.method w' derived ambient (f.tokens + start) (f.tokens + name) (f.lift s) =
      f.result f.lift (p.method w derived ambient start name s) := by
  unfold method
  refine bind_eq_result (parameters_behind walker s) fun r => ?_
  obtain ⟨afterParameters, properties⟩ := r
  refine bind_eq_result (blankAnnotation_behind afterParameters) fun typed => ?_
  simp only [lift_pos, isPunct_behind, isWord_behind, skipPunct_behind, blank_behind, offset_behind]
  refine ite_eq_result (fun _ => ?_) fun _ => rfl
  refine ite_eq_result (fun _ => walkBracket_behind walker typed) fun _ => ?_
  refine ite_eq_result (fun _ => fail_behind ..) fun _ => ?_
  refine ite_eq_result (fun _ => fail_behind ..) fun _ => ?_
  let inside := p.offset typed.pos + 1
  have lifted : State.mk (f.lift typed).pos (⟨p.offset typed.pos + f.chars + 1,
        p.offset typed.pos + f.chars + 1, some (assignments properties)⟩ :: (f.lift typed).edits) =
      f.lift ⟨typed.pos, ⟨inside, inside, some (assignments properties)⟩ :: typed.edits⟩ := by
    rw [Nat.add_right_comm]
    rfl
  have walked := @walkBracket_behind p' p f _ w' w walker
    ⟨typed.pos, ⟨inside, inside, some (assignments properties)⟩ :: typed.edits⟩
  rw [← lifted] at walked
  exact walked

end Walker

@[simp] theorem endsField_behind (first i : Nat) :
    p'.endsField (f.tokens + first) (f.tokens + i) = p.endsField first i := by
  unfold endsField
  rcases Nat.eq_zero_or_pos i with rfl | later
  · have semicolon : p'.isPunct (f.tokens + 0) ";" = p.isPunct 0 ";" := isPunct_behind 0 ";"
    rw [semicolon]
    simp
  · obtain ⟨k, rfl⟩ := Nat.exists_eq_add_one.mpr later
    have before : f.tokens + (k + 1) - 1 = f.tokens + k := rfl
    rw [before, Nat.add_sub_cancel, is_behind fun _ _ => rfl]
    simp

theorem indexSignature_behind (start : Nat) (s : State) :
    p'.indexSignature (f.tokens + start) (f.lift s) =
      f.result f.lift (p.indexSignature start s) := by
  unfold indexSignature
  dsimp only
  rw [lift_pos, close_behind, Nat.add_assoc, isPunct_behind]
  refine ite_bind_eq_result (fun _ => ?_) (fun _ => rfl) fun typed => ?_
  · rw [Nat.add_assoc]
    exact expectType_behind _
  · rw [lift_goto, skipPunct_behind, lift_pos, blank_behind]
    rfl

section Members

include walker

theorem classField_behind (close : Nat) (ambient : Bool) (start : Nat) (s : State) :
    p'.classField w' (f.tokens + close) ambient (f.tokens + start) (f.lift s) =
      f.result f.lift (p.classField w close ambient start s) := by
  unfold classField
  refine bind_eq_result (blankAnnotation_behind s) fun typed => ?_
  rw [lift_pos, isPunct_behind, lift_skip, Nat.add_assoc]
  refine ite_bind_eq_result (g := f.lift) (fun _ => ?_) (fun _ => rfl) fun valued => ?_
  · exact walker.walk _ _ _ _ fun i => endsField_behind _ i
  · dsimp only
    rw [skipPunct_behind, lift_pos, blank_behind]
    exact congrArg Except.ok (ite_eq_lift (fun _ => rfl) fun _ => rfl)

theorem walkMemberName_behind (s : State) :
    p'.walkMemberName w' (f.lift s) = f.result f.lift (p.walkMemberName w s) := by
  have other : (if p'.isPunct (f.tokens + s.pos) "[" then p'.walkBracket w' (f.lift s)
      else p'.fail (f.tokens + s.pos) .unexpectedInClass) =
      f.result f.lift (if p.isPunct s.pos "[" then p.walkBracket w s
        else p.fail s.pos .unexpectedInClass) := by
    rw [isPunct_behind]
    exact ite_eq_result (fun _ => walkBracket_behind walker s) fun _ => fail_behind ..
  unfold walkMemberName
  rw [lift_pos, kind?_behind, lift_skip]
  cases p.kind? s.pos with
  | none => exact other
  | some kind =>
    cases kind
    case ident | string | number | privateName => rfl
    case template | regex | punct => exact other

theorem classMember_behind (derived : Bool) (close : Nat) (s : State) :
    p'.classMember w' derived (f.tokens + close) (f.lift s) =
      f.result f.lift (p.classMember w derived close s) := by
  unfold classMember
  rw [lift_pos, isPunct_behind, lift_skip]
  refine ite_eq_result (fun _ => rfl) fun _ => ?_
  refine bind_eq_result (walkDecorators_behind walker s) fun decorated => ?_
  rw [blankMemberModifiers_behind]
  obtain ⟨bare, modifiers⟩ := p.blankMemberModifiers {} decorated
  dsimp only
  rw [lift_pos, isPunct_behind]
  refine ite_eq_result (fun _ => walkBracket_behind walker bare) fun _ => ?_
  rw [skipPunct_behind, lift_pos]
  simp only [isPunct_behind, isName_behind, Nat.add_assoc]
  refine ite_eq_result (fun _ => indexSignature_behind s.pos _) fun _ => ?_
  refine bind_eq_result (walkMemberName_behind walker _) fun named => ?_
  rw [lift_pos, isPunct_behind, blankMarker_behind, blankMarker_behind]
  have marked : (if p.isPunct named.pos "?" then f.lift (p.blankMarker named "?")
      else f.lift (p.blankMarker named "!")) =
      f.lift (if p.isPunct named.pos "?" then p.blankMarker named "?" else p.blankMarker named "!") :=
    ite_eq_lift (fun _ => rfl) fun _ => rfl
  rw [marked]
  refine bind_eq_result (blankTypeParameters_behind _) fun generic => ?_
  rw [lift_pos, isPunct_behind]
  refine ite_eq_result (fun _ => ?_) fun _ => ?_
  · exact method_behind walker derived modifiers.ambient s.pos _ generic
  · exact classField_behind walker close modifiers.ambient s.pos generic

theorem classMembers_behind (derived : Bool) (close : Nat) (s : State) :
    p'.classMembers w' derived (f.tokens + close) (f.lift s) =
      f.result f.lift (p.classMembers w derived close s) := by
  unfold classMembers
  simp only [lift_pos, Nat.add_lt_add_iff_left, classMember_behind walker]
  split
  case isFalse => rfl
  case isTrue less =>
    cases p.classMember w derived close s with
    | error e => rfl
    | ok next =>
      dsimp only [result]
      rw [lift_past]
      exact classMembers_behind derived close (next.past s.pos)
termination_by close - s.pos
decreasing_by
  simp only [State.past, State.goto]
  omega

theorem classDeclaration_behind (i resume : Nat) (s : State) :
    p'.classDeclaration w' (f.tokens + i) (f.tokens + resume) (f.lift s) =
      f.result f.lift (p.classDeclaration w i resume s) := by
  have named : (if p'.isName (f.tokens + (i + 1)) && !p'.isWord (f.tokens + (i + 1)) "extends" &&
        !p'.isWord (f.tokens + (i + 1)) "implements" then f.tokens + (i + 2)
      else f.tokens + (i + 1)) =
      f.tokens + if p.isName (i + 1) && !p.isWord (i + 1) "extends" &&
        !p.isWord (i + 1) "implements" then i + 2 else i + 1 := by
    rw [isName_behind, isWord_behind, isWord_behind]
    split <;> rfl
  unfold classDeclaration
  simp only [Nat.add_assoc, named, lift_goto]
  refine bind_eq_result (blankTypeParameters_behind _) fun generic => ?_
  rw [lift_pos, isWord_behind, lift_skip]
  have body (derived : Bool) (headed : State) :
      (if p'.isPunct (f.lift headed).pos openBrace then
          p'.classMembers w' derived (p'.close (f.lift headed).pos) ((f.lift headed).skip 1) >>=
            fun members => .ok (members.goto (p'.close (f.lift headed).pos + 1))
        else .ok ((f.lift headed).goto (f.tokens + resume))) =
      f.result f.lift (if p.isPunct headed.pos openBrace then
          p.classMembers w derived (p.close headed.pos) (headed.skip 1) >>=
            fun members => .ok (members.goto (p.close headed.pos + 1))
        else .ok (headed.goto resume)) := by
    rw [lift_pos, isPunct_behind, close_behind, lift_skip]
    refine ite_eq_result (fun _ => ?_) fun _ => rfl
    refine bind_eq_result (classMembers_behind walker _ _ _) fun members => ?_
    rw [Nat.add_assoc, lift_goto]
    rfl
  refine ite_bind_eq_result (fun _ => walkHeritage_behind walker _) (fun _ => rfl) fun inherited => ?_
  rw [lift_pos, isWord_behind]
  refine ite_eq_result (fun _ => ?_) fun _ => body _ inherited
  refine bind_eq_result (bodyAhead_behind _ _) fun j => ?_
  rw [blankTo_behind]
  exact body _ (p.blankTo inherited j)

end Members

end Classes

/-! ## Enums -/

section Enums

@[simp] theorem valueEnd_behind (limit i : Nat) :
    p'.valueEnd (f.tokens + limit) (f.tokens + i) = f.tokens + p.valueEnd limit i := by
  unfold valueEnd
  have opener : p'.is (f.tokens + i) (·.isOpener) = p.is i (·.isOpener) := is_behind (fun _ _ => rfl) i
  simp only [Nat.add_lt_add_iff_left, isPunct_behind, opener, close_behind, Nat.add_assoc]
  split
  case isFalse => rfl
  case isTrue less =>
  have closes := p.lt_close i
  split
  · rfl
  split
  · exact valueEnd_behind limit (p.close i + 1)
  · exact valueEnd_behind limit (i + 1)
termination_by limit - i

@[simp] theorem integer?_behind (first last : Nat) :
    p'.integer? (f.tokens + first) (f.tokens + last) = p.integer? first last := by
  unfold integer?
  simp only [Nat.add_assoc, Nat.add_left_cancel_iff, text_behind, isPunct_behind]

/-- Where a token stops, it stops behind the front. -/
theorem stop_behind (i cursor : Nat) :
    ((p'.tokens[f.tokens + i]?).map (·.stop)).getD (cursor + f.chars) =
      ((p.tokens[i]?).map (·.stop)).getD cursor + f.chars := by
  rw [Behind.token i]
  cases p.tokens[i]? with
  | none => rfl
  | some t => exact stop_placed ..

theorem memberCode_behind (name : String) (declared : List String) (first cursor : Nat) {i : Nat}
    (later : 0 < i) (count : Nat) :
    p'.memberCode name declared (f.tokens + first) (cursor + f.chars) (f.tokens + i) count =
      p.memberCode name declared first cursor i count := by
  induction count generalizing cursor i with
  | zero =>
    obtain ⟨k, rfl⟩ := Nat.exists_eq_add_one.mpr later
    have before : f.tokens + (k + 1) - 1 = f.tokens + k := rfl
    unfold memberCode
    rw [before, stop_behind, slice_behind, Nat.add_sub_cancel]
  | succ count ih =>
    unfold memberCode
    rw [isName_behind, text_behind, afterDot_behind later, offset_behind, slice_behind, stop_behind,
      Nat.add_assoc, ih _ (Nat.succ_pos i), ih _ (Nat.succ_pos i)]
    simp only [Nat.add_lt_add_iff_left]

@[simp] theorem memberKey?_behind (i : Nat) : p'.memberKey? (f.tokens + i) = p.memberKey? i := by
  unfold memberKey?
  rw [kind?_behind, text_behind]

/-- What has been written of an enum, at its position behind the front. -/
def liftEnum (f : Front) (s : EnumState) : EnumState := { s with pos := f.tokens + s.pos }

theorem nextValue_eq_result (name : String) (previous : Option EnumMember) :
    nextValue name previous = f.result id (nextValue name previous) := by
  unfold nextValue
  split
  · rfl
  · exact ite_eq_result (fun _ => rfl) fun _ => rfl
  · rfl

theorem enumMember_behind (name : String) (close : Nat) (s : EnumState) :
    p'.enumMember name (f.tokens + close) (liftEnum f s) =
      f.result (liftEnum f) (p.enumMember name close s) := by
  have comma (i : Nat) : (if p.isPunct i "," then f.tokens + (i + 1) else f.tokens + i) =
      f.tokens + if p.isPunct i "," then i + 1 else i := by
    split <;> rfl
  unfold enumMember
  have pos : (liftEnum f s).pos = f.tokens + s.pos := rfl
  rw [pos, memberKey?_behind]
  cases p.memberKey? s.pos with
  | none => exact fail_behind ..
  | some key =>
    simp only [isName_behind, text_behind, Nat.add_assoc, isPunct_behind, valueEnd_behind,
      Nat.add_left_cancel_iff, Nat.add_sub_add_left, offset_behind,
      memberCode_behind _ _ _ _ (Nat.succ_pos _), kind?_behind, comma, integer?_behind]
    refine ite_eq_result (fun _ => ?_) fun _ => ?_
    · refine ite_eq_result (fun _ => fail_behind ..) fun _ => ?_
      exact ite_eq_result (fun _ => rfl) fun _ => rfl
    · exact bind_eq_result (nextValue_eq_result name s.previous) fun _ => rfl

theorem enumMembers_behind (name : String) (close : Nat) (s : EnumState) :
    p'.enumMembers name (f.tokens + close) (liftEnum f s) =
      f.result (liftEnum f) (p.enumMembers name close s) := by
  have pos : (liftEnum f s).pos = f.tokens + s.pos := rfl
  unfold enumMembers
  simp only [pos, Nat.add_lt_add_iff_left, enumMember_behind]
  split
  case isFalse => rfl
  case isTrue less =>
    cases p.enumMember name close s with
    | error e => rfl
    | ok next =>
      have later : { liftEnum f next with pos := max (liftEnum f next).pos (f.tokens + s.pos + 1) } =
          liftEnum f { next with pos := max next.pos (s.pos + 1) } := by
        unfold liftEnum
        dsimp only
        rw [Nat.add_assoc, Nat.add_max_add_left]
      dsimp only [result]
      rw [later]
      exact enumMembers_behind name close { next with pos := max next.pos (s.pos + 1) }
termination_by close - s.pos

theorem enumeration_behind (i : Nat) (s : State) :
    p'.enumeration (f.tokens + i) (f.lift s) = f.result f.lift (p.enumeration i s) := by
  have keyword : (if p'.isWord (f.tokens + i) "const" then f.tokens + i + 1 else f.tokens + i) =
      f.tokens + if p.isWord i "const" then i + 1 else i := by
    rw [isWord_behind, Nat.add_assoc]
    split <;> rfl
  unfold enumeration
  rw [keyword]
  generalize (if p.isWord i "const" then i + 1 else i) = k
  simp only [Nat.add_assoc, isName_behind, isPunct_behind, text_behind, close_behind, offset_behind,
    stop_behind]
  refine ite_eq_result (fun _ => ?_) fun _ => fail_behind ..
  refine bind_eq_result (enumMembers_behind (p.text (k + 1)) (p.close (k + 2)) ⟨k + 3, [], [], none⟩)
    fun written => ?_
  have edit := lift_edit (Behind.early p') s ⟨p.offset i,
    ((p.tokens[p.close (k + 2)]?).map (·.stop)).getD (p.offset i),
    some (enumCode (p.text (k + 1)) written.statements)⟩
  exact congrArg (fun t : State => Except.ok (t.goto (f.tokens + (p.close (k + 2) + 1)))) edit

end Enums

end Program

end ModuleLinker.Erase
