import ModuleLinker.Erase
import ModuleLinker.Proofs.Source.Tokens

/-!
# What a complaint is about

A walk complains about a token of its program or about the end of the text, or passes on a complaint about
a substitution, moved to where the substitution lies (`Program.IsBlamed`). Every construct is gone
through once; what a complaint of a walk is follows by induction on the walk (`Program.walk_blames`).
-/

set_option autoImplicit false

namespace ModuleLinker.Erase

namespace Program

/-- What a complaint of a walk can be: one about a token or the end of the text, or one about a
substitution, as it is in the text. -/
inductive IsBlamed (p : Program) (hole : Hole → Except Failure Edits) : SourceError → Prop
  /-- A complaint about a token. -/
  | token (i : Nat) (complaint : Complaint) : IsBlamed p hole ⟨p.offset i, complaint⟩
  /-- A complaint about a substitution. -/
  | substitution {t : Token} {h : Hole} {e : SourceError} : t ∈ p.tokens → h ∈ t.holes →
    hole h = .error (.rejected e) → IsBlamed p hole (e.shifted h.start)

/-- Whether a complaint that comes of a computation is one of a walk. -/
def Blames {α : Type} (p : Program) (hole : Hole → Except Failure Edits) (x : Except Failure α) : Prop :=
  ∀ e, x = .error (.rejected e) → p.IsBlamed hole e

namespace Blames

variable {α β : Type} {p : Program} {hole : Hole → Except Failure Edits} {x y : Except Failure α}

theorem ok (a : α) : p.Blames hole (.ok a) := fun _ same => by cases same

theorem fail (i : Nat) (complaint : Complaint) :
    p.Blames hole (p.fail i complaint : Except Failure α) := by
  rintro e ⟨⟩
  exact .token i complaint

theorem bind {f : α → Except Failure β} (first : p.Blames hole x) (rest : ∀ a, p.Blames hole (f a)) :
    p.Blames hole (x >>= f) := by
  cases x with
  | error failure =>
    rintro e ⟨⟩
    exact first e rfl
  | ok a => exact rest a

theorem ite {c : Prop} [Decidable c] (ifSo : p.Blames hole x) (ifNot : p.Blames hole y) :
    p.Blames hole (if c then x else y) := by
  split
  · exact ifSo
  · exact ifNot

/-- A failure is passed on. -/
theorem error {failure : Failure} (h : p.Blames hole x) (failed : x = .error failure) :
    p.Blames hole (.error failure : Except Failure β) := by
  rintro e ⟨⟩
  exact h e failed

end Blames

section Steps

variable {p : Program} {hole : Hole → Except Failure Edits} {w : Walker}

/-- Whether the complaints of a walker are those of a walk. -/
def IsBlaming (p : Program) (w : Walker) : Prop :=
  ∀ limit stop s, p.Blames w.hole (w.walk limit stop s)

/-! ## Markers, annotations and brackets -/

theorem expectType_blames (i : Nat) : p.Blames hole (p.expectType i) := by
  unfold expectType
  split
  · exact .ok _
  · exact .fail _ _

theorem expectAngle_blames (i : Nat) : p.Blames hole (p.expectAngle i) := by
  unfold expectAngle
  split
  · exact .ok _
  · exact .fail _ _

theorem blankAnnotation_blames (s : State) : p.Blames hole (p.blankAnnotation s) :=
  .ite ((expectType_blames _).bind fun _ => .ok _) (.ok _)

theorem blankTypeParameters_blames (s : State) : p.Blames hole (p.blankTypeParameters s) :=
  .ite ((expectAngle_blames _).bind fun _ => .ok _) (.ok _)

theorem walkBracket_blames (walks : p.IsBlaming w) (s : State) : p.Blames w.hole (p.walkBracket w s) :=
  (walks _ _ _).bind fun _ => .ok _

theorem walkValue_blames (walks : p.IsBlaming w) (limit : Nat) (stops : List String) (s : State) :
    p.Blames w.hole (p.walkValue w limit stops s) :=
  .ite (walks _ _ _) (.ok _)

/-! ## Parameters -/

theorem walkBinding_blames (walks : p.IsBlaming w) (s : State) : p.Blames w.hole (p.walkBinding w s) :=
  .ite (walkBracket_blames walks s) (.ite (.ok _) (.fail _ _))

theorem parameter_blames (walks : p.IsBlaming w) (close : Nat) (s : State) :
    p.Blames w.hole (p.parameter w close s) := by
  unfold parameter
  refine .ite (.fail _ _) (.ite ((expectType_blames _).bind fun _ => .ok _) ?_)
  refine (walkBinding_blames walks _).bind fun bound => (blankAnnotation_blames _).bind fun typed => ?_
  exact (walkValue_blames walks _ _ _).bind fun _ => .ite (.ok _) (.ite (.ok _) (.fail _ _))

theorem parametersTo_blames (walks : p.IsBlaming w) (close : Nat) (properties : List String) (s : State) :
    p.Blames w.hole (p.parametersTo w close properties s) := by
  fun_induction parametersTo p w close properties s with
  | case1 properties s less e failed => exact (parameter_blames walks close s).error failed
  | case2 properties s less next property found ih => exact ih
  | case3 properties s less => exact .ok _

theorem parameters_blames (walks : p.IsBlaming w) (s : State) : p.Blames w.hole (p.parameters w s) :=
  (parametersTo_blames walks _ _ _).bind fun _ => .ok _

theorem signature_blames (walks : p.IsBlaming w) (s : State) : p.Blames w.hole (p.signature w s) :=
  (parameters_blames walks s).bind fun _ => .ite (blankAnnotation_blames _) (.fail _ _)

/-! ## Classes -/

theorem bodyAhead_blames (report i : Nat) : p.Blames hole (p.bodyAhead report i) := by
  fun_induction bodyAhead p report i with
  | case1 => exact .fail _ _
  | case2 => exact .ok _
  | case3 => exact .fail _ _
  | case4 i t found inside opens angle j _ _ ih => exact ih
  | case5 i t found inside opens other ih => exact ih

theorem walkHeritage_blames (walks : p.IsBlaming w) (s : State) : p.Blames w.hole (p.walkHeritage w s) := by
  fun_induction walkHeritage p w s with
  | case1 => exact .ok _
  | case2 => exact .ok _
  | case3 s t found inside stops next e failed =>
    have step : p.Blames w.hole next :=
      .ite (walkBracket_blames walks s) (.ite (blankTypeParameters_blames s) (.ok _))
    exact step.error failed
  | case4 s t found inside stops next after same ih => exact ih

theorem walkDecorators_blames (walks : p.IsBlaming w) (s : State) :
    p.Blames w.hole (p.walkDecorators w s) := by
  fun_induction walkDecorators p w s with
  | case1 s decorator inside named called next e failed =>
    have step : p.Blames w.hole next := .ite (walkBracket_blames walks called) (.ok _)
    exact step.error failed
  | case2 s decorator inside named called next after same ih => exact ih
  | case3 => exact .ok _

theorem method_blames (walks : p.IsBlaming w) (derived ambient : Bool) (start name : Nat) (s : State) :
    p.Blames w.hole (p.method w derived ambient start name s) := by
  unfold method
  refine (parameters_blames walks s).bind fun _ => (blankAnnotation_blames _).bind fun typed => ?_
  refine .ite (.ite (walkBracket_blames walks _) ?_) (.ok _)
  exact .ite (.fail _ _) (.ite (.fail _ _) (walkBracket_blames walks _))

theorem classField_blames (walks : p.IsBlaming w) (close : Nat) (ambient : Bool) (start : Nat) (s : State) :
    p.Blames w.hole (p.classField w close ambient start s) := by
  unfold classField
  refine (blankAnnotation_blames s).bind fun typed => .ite ?_ (.ok _)
  exact (walks _ _ _).bind fun _ => .ok _

theorem walkMemberName_blames (walks : p.IsBlaming w) (s : State) :
    p.Blames w.hole (p.walkMemberName w s) := by
  unfold walkMemberName
  split
  case h_5 => exact .ite (walkBracket_blames walks s) (.fail _ _)
  all_goals exact .ok _

theorem indexSignature_blames (start : Nat) (s : State) : p.Blames hole (p.indexSignature start s) :=
  .ite ((expectType_blames _).bind fun _ => .ok _) (.ok _)

theorem classMember_blames (walks : p.IsBlaming w) (derived : Bool) (close : Nat) (s : State) :
    p.Blames w.hole (p.classMember w derived close s) := by
  unfold classMember
  refine .ite (.ok _) ((walkDecorators_blames walks s).bind fun decorated => ?_)
  refine .ite (walkBracket_blames walks _) (.ite (indexSignature_blames _ _) ?_)
  refine (walkMemberName_blames walks _).bind fun named => (blankTypeParameters_blames _).bind fun _ => ?_
  exact .ite (method_blames walks _ _ _ _ _) (classField_blames walks _ _ _ _)

theorem classMembers_blames (walks : p.IsBlaming w) (derived : Bool) (close : Nat) (s : State) :
    p.Blames w.hole (p.classMembers w derived close s) := by
  fun_induction classMembers p w derived close s with
  | case1 s less e failed => exact (classMember_blames walks derived close s).error failed
  | case2 s less next found ih => exact ih
  | case3 => exact .ok _

theorem classDeclaration_blames (walks : p.IsBlaming w) (i resume : Nat) (s : State) :
    p.Blames w.hole (p.classDeclaration w i resume s) := by
  unfold classDeclaration
  have body (derived : Bool) (headed : State) : p.Blames w.hole
      (if p.isPunct headed.pos openBrace then do
        let members ← p.classMembers w derived (p.close headed.pos) (headed.skip 1)
        .ok (members.goto (p.close headed.pos + 1))
      else .ok (headed.goto resume) : Walk) :=
    .ite ((classMembers_blames walks _ _ _).bind fun _ => .ok _) (.ok _)
  refine (blankTypeParameters_blames _).bind fun generic => .ite ?_ ?_
  · refine (walkHeritage_blames walks _).bind fun inherited => .ite ?_ (body _ _)
    exact (bodyAhead_blames _ _).bind fun _ => body _ _
  · exact .ite ((bodyAhead_blames _ _).bind fun _ => body _ _) (body _ _)

/-! ## Enums -/

theorem enumMember_blames (name : String) (close : Nat) (s : EnumState) :
    p.Blames hole (p.enumMember name close s) := by
  unfold enumMember
  split
  · exact .fail _ _
  · refine .ite (.ite (.fail _ _) (.ite (.ok _) (.ok _))) ?_
    refine .bind (fun e failed => ?_) fun _ => .ok _
    -- A member that counts on fails in another way only.
    unfold nextValue at failed
    split at failed
    · cases failed
    · split at failed <;> cases failed
    · cases failed

theorem enumMembers_blames (name : String) (close : Nat) (s : EnumState) :
    p.Blames hole (p.enumMembers name close s) := by
  fun_induction enumMembers p name close s with
  | case1 s less e failed => exact (enumMember_blames name close s).error failed
  | case2 s less next found ih => exact ih
  | case3 => exact .ok _

theorem enumeration_blames (i : Nat) (s : State) : p.Blames hole (p.enumeration i s) := by
  unfold enumeration
  exact .ite ((enumMembers_blames _ _ _).bind fun _ => .ok _) (.fail _ _)

/-! ## Statements -/

theorem blankAlias_blames (i start : Nat) (s : State) : p.Blames hole (p.blankAlias i start s) := by
  have tail (equals : Nat) : p.Blames hole (if p.isPunct equals "=" then do
        let ended := p.skipPunct (s.goto (← p.expectType (equals + 1))) ";"
        .ok (p.blank ended start ended.pos)
      else p.fail equals (.punctuatorExpected "=") : Walk) :=
    .ite ((expectType_blames _).bind fun _ => .ok _) (.fail _ _)
  unfold blankAlias
  exact .ite ((expectAngle_blames _).bind fun _ => tail _) (tail _)

theorem typeStatement_blames (walks : p.IsBlaming w) (i start resume : Nat) (s : State) :
    p.Blames w.hole (p.typeStatement w i start resume s) := by
  unfold typeStatement
  refine .ite ((bodyAhead_blames _ _).bind fun _ => .ok _) (.ite (blankAlias_blames _ _ _) ?_)
  refine .ite (.ok _) (.ite (classDeclaration_blames walks _ _ _) ?_)
  exact .ite (enumeration_blames _ _) (.ite (.fail _ _) (.ok _))

theorem importDeclaration_blames (i : Nat) (s : State) : p.Blames hole (p.importDeclaration i s) :=
  .ite (.ok _) (.ite (.ok _) (.ite (.fail _ _) (.ok _)))

theorem functionDeclaration_blames (walks : p.IsBlaming w) (i start resume : Nat) (s : State) :
    p.Blames w.hole (p.functionDeclaration w i start resume s) := by
  unfold functionDeclaration
  refine (blankTypeParameters_blames _).bind fun generic => .ite ?_ (.ok _)
  exact (signature_blames walks generic).bind fun _ => .ite (.ok _) (.ok _)

theorem exportDeclaration_blames (walks : p.IsBlaming w) (i : Nat) (s : State) :
    p.Blames w.hole (p.exportDeclaration w i s) := by
  unfold exportDeclaration
  have function (i start resume : Nat) := functionDeclaration_blames walks i start resume s
  have type (i start resume : Nat) := typeStatement_blames walks i start resume s
  refine .ite (.fail _ _) (.ite (.fail _ _) (.ite (.ok _) (.ite (.ok _) (.ite (.ok _) ?_))))
  refine .ite (.ite (type _ _ _) (.ite (function _ _ _) (.ite (function _ _ _) (.ok _)))) ?_
  refine .ite (function _ _ _) (.ite (function _ _ _) ?_)
  exact .ite (enumeration_blames _ _) (.ite (type _ _ _) (.ok _))

theorem walkVariable_blames (walks : p.IsBlaming w) (limit : Nat) (s : State) :
    p.Blames w.hole (p.walkVariable w limit s) :=
  (walkBinding_blames walks s).bind fun _ => (blankAnnotation_blames _).bind fun _ =>
    walkValue_blames walks _ _ _

theorem walkVariables_blames (walks : p.IsBlaming w) (limit : Nat) (s : State) :
    p.Blames w.hole (p.walkVariables w limit s) := by
  fun_induction walkVariables p w limit s with
  | case1 s binds inside e failed => exact (walkVariable_blames walks limit s).error failed
  | case2 s binds inside next found more ih => exact ih
  | case3 => exact .ok _
  | case4 => exact .ok _

/-! ## Steps -/

theorem stepAssertion_blames (s : State) : p.Blames hole (p.stepAssertion s) :=
  .ite (.ok _) ((expectType_blames _).bind fun _ => .ok _)

theorem stepParenthesis_blames (walks : p.IsBlaming w) (s : State) :
    p.Blames w.hole (p.stepParenthesis w s) :=
  .ite (signature_blames walks s) (walkBracket_blames walks s)

theorem stepWord_blames (walks : p.IsBlaming w) (limit : Nat) (s : State) :
    p.Blames w.hole (p.stepWord w limit s) := by
  unfold stepWord
  refine .ite (.ok _) (.ite (importDeclaration_blames _ _) (.ite (exportDeclaration_blames walks _ _) ?_))
  refine .ite (functionDeclaration_blames walks _ _ _ _) (.ite (classDeclaration_blames walks _ _ _) ?_)
  refine .ite (enumeration_blames _ _) (.ite (walkVariables_blames walks _ _) ?_)
  refine .ite (stepAssertion_blames s) (.ite ((parameters_blames walks _).bind fun _ => .ok _) ?_)
  exact .ite (typeStatement_blames walks _ _ _ _) (.ok _)

theorem stepHoles_blames {t : Token} (token : t ∈ p.tokens) {holes : List Hole}
    (inside : ∀ h ∈ holes, h ∈ t.holes) (s : State) : p.Blames w.hole (stepHoles w s holes) := by
  induction holes generalizing s with
  | nil => exact .ok _
  | cons h holes ih =>
    rw [List.forall_mem_cons] at inside
    unfold stepHoles
    split
    case h_2 => exact ih inside.2 _
    case h_1 failure failed =>
      intro e same
      cases failure with
      | counterOverflow => cases same
      | rejected e' =>
        cases same
        exact .substitution token inside.1 failed

theorem step_blames (walks : p.IsBlaming w) (limit : Nat) (s : State) :
    p.Blames w.hole (p.step w limit s) := by
  unfold step
  split
  case h_1 => exact .ok _
  case h_2 t found =>
    refine .ite (stepParenthesis_blames walks s) (.ite (walkBracket_blames walks s) ?_)
    refine .ite (.ok _) (.ite (.ok _) (.ite (stepWord_blames walks limit s) (.ite ?_ (.ok _))))
    exact stepHoles_blames (Array.mem_of_getElem? found) (fun _ mem => mem) _

end Steps

/-- A complaint of a walk is one about a token, the end of the text or a substitution. -/
theorem walk_blames (p : Program) (hole : Hole → Except Failure Edits) (limit : Nat) (stop : Nat → Bool)
    (s : State) : p.Blames hole (p.walk hole limit stop s) := by
  fun_induction walk p hole limit stop s with
  | case1 limit stop s inside goes inner e failed nested =>
    have walks : p.IsBlaming inner := fun limit stop t => nested limit stop t
    exact (step_blames walks limit s).error failed
  | case2 limit stop s inside goes inner next found nested rest => exact rest
  | case3 => exact .ok _
  | case4 => exact .ok _

end Program

end ModuleLinker.Erase
