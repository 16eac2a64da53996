import Mathlib
import ModuleLinker.Erase
import ModuleLinker.Proofs.Erase.Behind.Members

/-!
# A walk behind other tokens

A step at a token of a program that stands behind other tokens does what it does without them
(`step_behind`): a statement ends where it ends without the front, and so does a walk from any but the
first token (`walk_behind`).
-/

set_option autoImplicit false

namespace ModuleLinker

/-- Whether a statement of plain code can start with a token, as far as erasing types goes. -/
def Token.opensStatement (t : Token) : Bool :=
  t.kind == .ident || t.kind == .string || t.kind == .number || t.isPunct "(" || t.isPunct "["

namespace Erase

/-- The same failure behind two texts. -/
theorem Failure.shifted_shifted (e : Failure) (m n : Nat) :
    (e.shifted m).shifted n = e.shifted (m + n) := by
  cases e with
  | rejected e => exact congrArg (fun k => Failure.rejected ⟨k, e.complaint⟩) (Nat.add_assoc ..)
  | counterOverflow => rfl

namespace Program

open Front

variable {p' p : Program} {f : Front} [behind : Behind p' f p]

/-! ## Statements that only exist for the types -/

section TypeStatements

theorem declarationEnd_eq (first i : Nat) : p.declarationEnd first i =
    p.tokens[i]?.elim i fun t =>
      if t.isPunct ";" then i + 1
      else if t.isPunct closeBrace then i
      else if t.isPunct openBrace then
        if p.isPunct (p.close i + 1) ";" then p.close i + 2
        else if p.newlineBefore (p.close i + 1) then p.close i + 1
        else p.declarationEnd first (p.close i + 1)
      else if t.isPunct "(" || t.isPunct "[" then p.declarationEnd first (p.close i + 1)
      else if first < i && t.newlineBefore && !p.expectsOperand (i - 1) && !t.isPunct "|" &&
          !t.isPunct "&" then i
      else p.declarationEnd first (i + 1) := by
  rw [declarationEnd]
  split
  case h_1 none =>
    rw [none]
    rfl
  case h_2 t found =>
    conv_rhs => rw [found, Option.elim_some]

@[simp] theorem declarationEnd_behind (first i : Nat) :
    p'.declarationEnd (f.tokens + first) (f.tokens + i) = f.tokens + p.declarationEnd first i := by
  rw [@declarationEnd_eq p', @declarationEnd_eq p, Behind.token i]
  cases found : p.tokens[i]? with
  | none => rfl
  | some t =>
    have inside : i < p.tokens.size := (Array.getElem?_eq_some_iff.mp found).1
    have closes := p.lt_close i
    -- The line end before the first token counts at later positions only.
    have newLine : (decide (f.tokens + first < f.tokens + i) && (t.placed f.chars i).newlineBefore &&
        !p'.expectsOperand (f.tokens + i - 1)) =
        (decide (first < i) && t.newlineBefore && !p.expectsOperand (i - 1)) := by
      rcases Nat.eq_zero_or_pos i with rfl | later
      · simp
      · obtain ⟨k, rfl⟩ := Nat.exists_eq_add_one.mpr later
        have before : f.tokens + (k + 1) - 1 = f.tokens + k := rfl
        rw [before, expectsOperand_behind, Nat.add_sub_cancel]
        simp [Token.placed, Token.shifted]
    rw [Option.map_some, Option.elim_some, Option.elim_some, newLine]
    simp only [isPunct_placed, close_behind, Nat.add_assoc, isPunct_behind, newlineBefore_behind_succ]
    split
    · rfl
    split
    · rfl
    split
    · split
      · rfl
      split
      · rfl
      · exact declarationEnd_behind first (p.close i + 1)
    split
    · exact declarationEnd_behind first (p.close i + 1)
    split
    · rfl
    · exact declarationEnd_behind first (i + 1)
termination_by p.tokens.size - i

theorem blankAlias_behind (i start : Nat) (s : State) :
    p'.blankAlias (f.tokens + i) (f.tokens + start) (f.lift s) =
      f.result f.lift (p.blankAlias i start s) := by
  unfold blankAlias
  simp only [Nat.add_assoc, isPunct_behind]
  refine ite_bind_eq_result (fun _ => expectAngle_behind _) (fun _ => rfl) fun equals => ?_
  rw [isPunct_behind, Nat.add_assoc]
  refine ite_eq_result (fun _ => ?_) fun _ => fail_behind ..
  refine bind_eq_result (expectType_behind _) fun j => ?_
  rw [lift_goto, skipPunct_behind, lift_pos, blank_behind]
  rfl

variable {w' w : Walker} (walker : w'.Behind f p w)
include walker

theorem typeStatement_behind (i start resume : Nat) (s : State) :
    p'.typeStatement w' (f.tokens + i) (f.tokens + start) (f.tokens + resume) (f.lift s) =
      f.result f.lift (p.typeStatement w i start resume s) := by
  unfold typeStatement
  dsimp only
  simp only [Nat.add_assoc, text_behind, isName_behind, newlineBefore_behind_succ, isPunct_behind,
    isWord_behind, kind?_behind, declarationEnd_behind, blank_behind, lift_goto]
  refine ite_eq_result (fun _ => ?_) fun _ => ?_
  · refine bind_eq_result (bodyAhead_behind _ _) fun body => ?_
    rw [close_behind, Nat.add_assoc, blank_behind, lift_goto]
    rfl
  refine ite_eq_result (fun _ => blankAlias_behind ..) fun _ => ?_
  refine ite_eq_result (fun _ => rfl) fun _ => ?_
  refine ite_eq_result (fun _ => classDeclaration_behind walker _ _ _) fun _ => ?_
  refine ite_eq_result (fun _ => enumeration_behind ..) fun _ => ?_
  exact ite_eq_result (fun _ => fail_behind ..) fun _ => rfl

end TypeStatements

/-! ## Imports and exports -/

section Modules

@[simp] theorem referenceEnd_behind (k : Nat) :
    p'.referenceEnd (f.tokens + k) = f.tokens + p.referenceEnd k := by
  unfold referenceEnd
  simp only [Nat.add_assoc, isWord_behind, isPunct_behind, newlineBefore_behind_succ, close_behind]
  split <;> rfl

theorem moduleStatementEnd_eq (k : Nat) : p.moduleStatementEnd k =
    p.tokens[k]?.elim k fun t =>
      if t.kind == .string then
        if p.isPunct (p.referenceEnd k) ";" then p.referenceEnd k + 1 else p.referenceEnd k
      else if t.isPunct ";" then k + 1
      else if t.isPunct openBrace then
        if p.newlineBefore (p.close k + 1) && !p.isWord (p.close k + 1) "from" then p.close k + 1
        else p.moduleStatementEnd (p.close k + 1)
      else p.moduleStatementEnd (k + 1) := by
  rw [moduleStatementEnd]
  split
  case h_1 none =>
    rw [none]
    rfl
  case h_2 t found =>
    conv_rhs => rw [found, Option.elim_some]

@[simp] theorem moduleStatementEnd_behind (k : Nat) :
    p'.moduleStatementEnd (f.tokens + k) = f.tokens + p.moduleStatementEnd k := by
  rw [@moduleStatementEnd_eq p', @moduleStatementEnd_eq p, Behind.token k]
  cases found : p.tokens[k]? with
  | none => rfl
  | some t =>
    have inside : k < p.tokens.size := (Array.getElem?_eq_some_iff.mp found).1
    have closes := p.lt_close k
    rw [Option.map_some, Option.elim_some, Option.elim_some]
    simp only [isPunct_placed, kind_placed, referenceEnd_behind, close_behind, Nat.add_assoc,
      isPunct_behind, isWord_behind, newlineBefore_behind_succ]
    split
    · split <;> rfl
    split
    · rfl
    split
    · split
      · rfl
      · exact moduleStatementEnd_behind (p.close k + 1)
    · exact moduleStatementEnd_behind (k + 1)
termination_by p.tokens.size - k

@[simp] theorem elementEnd_behind (limit k : Nat) :
    p'.elementEnd (f.tokens + limit) (f.tokens + k) = f.tokens + p.elementEnd limit k := by
  unfold elementEnd
  simp only [Nat.add_lt_add_iff_left, isPunct_behind, Nat.add_assoc]
  split
  case isFalse => rfl
  case isTrue less =>
  split
  · rfl
  · exact elementEnd_behind limit (k + 1)
termination_by limit - k

@[simp] theorem blankTypeElements_behind (limit k : Nat) (s : State) :
    p'.blankTypeElements (f.tokens + limit) (f.tokens + k) (f.lift s) =
      f.lift (p.blankTypeElements limit k s) := by
  have comma (j : Nat) : (if j < limit then f.tokens + (j + 1) else f.tokens + j) =
      f.tokens + if j < limit then j + 1 else j := by
    split <;> rfl
  have after := p.le_elementEnd limit k
  unfold blankTypeElements
  simp only [elementEnd_behind, Nat.add_lt_add_iff_left, Nat.add_sub_add_left, Nat.add_assoc,
    isWord_behind, comma, blank_behind]
  split
  case isFalse => rfl
  case isTrue less =>
  rw [← blankTypeElements_behind limit (p.elementEnd limit k + 1)]
  exact congrArg (p'.blankTypeElements (f.tokens + limit) _)
    (ite_eq_lift (fun _ => rfl) fun _ => rfl)
termination_by limit - k

@[simp] theorem blankTypeList_behind (i : Nat) (s : State) :
    p'.blankTypeList (f.tokens + i) (f.lift s) = f.lift (p.blankTypeList i s) := by
  unfold blankTypeList
  rw [close_behind, Nat.add_assoc, blankTypeElements_behind]

theorem clauseList?_eq (k : Nat) : p.clauseList? k = p.tokens[k]?.bind fun t =>
    if t.kind == .string || t.isPunct ";" then none
    else if t.isPunct openBrace then some k
    else p.clauseList? (k + 1) := by
  rw [clauseList?]
  split
  case h_1 none =>
    rw [none]
    rfl
  case h_2 t found =>
    conv_rhs => rw [found, Option.bind_some]

@[simp] theorem clauseList?_behind (k : Nat) :
    p'.clauseList? (f.tokens + k) = (p.clauseList? k).map (f.tokens + ·) := by
  rw [@clauseList?_eq p', @clauseList?_eq p, Behind.token k]
  cases found : p.tokens[k]? with
  | none => rfl
  | some t =>
    have inside : k < p.tokens.size := (Array.getElem?_eq_some_iff.mp found).1
    rw [Option.map_some, Option.bind_some, Option.bind_some]
    simp only [isPunct_placed, kind_placed, Nat.add_assoc]
    split
    · rfl
    split
    · rfl
    · exact clauseList?_behind (k + 1)
termination_by p.tokens.size - k

theorem importDeclaration_behind (i : Nat) (s : State) :
    p'.importDeclaration (f.tokens + i) (f.lift s) = f.result f.lift (p.importDeclaration i s) := by
  unfold importDeclaration
  dsimp only
  simp only [Nat.add_assoc, isPunct_behind, isName_behind, isWord_behind, kind?_behind,
    moduleStatementEnd_behind, blank_behind, lift_goto, clauseList?_behind]
  refine ite_eq_result (fun _ => rfl) fun _ => ?_
  refine ite_eq_result (fun _ => rfl) fun _ => ?_
  refine ite_eq_result (fun _ => fail_behind ..) fun _ => ?_
  cases p.clauseList? (i + 1) with
  | none => rfl
  | some k =>
    dsimp only [Option.map_some]
    rw [blankTypeList_behind, lift_goto]
    rfl

variable {w' w : Walker} (walker : w'.Behind f p w)
include walker

theorem functionDeclaration_behind (i start resume : Nat) (s : State) :
    p'.functionDeclaration w' (f.tokens + i) (f.tokens + start) (f.tokens + resume) (f.lift s) =
      f.result f.lift (p.functionDeclaration w i start resume s) := by
  unfold functionDeclaration
  dsimp only
  rw [Nat.add_assoc, lift_goto, skipPunct_behind, lift_pos, isName_behind, lift_skip]
  have named : (if p.isName (p.skipPunct (s.goto (i + 1)) "*").pos then
        f.lift ((p.skipPunct (s.goto (i + 1)) "*").skip 1)
      else f.lift (p.skipPunct (s.goto (i + 1)) "*")) =
      f.lift (if p.isName (p.skipPunct (s.goto (i + 1)) "*").pos then
        (p.skipPunct (s.goto (i + 1)) "*").skip 1 else p.skipPunct (s.goto (i + 1)) "*") :=
    ite_eq_lift (fun _ => rfl) fun _ => rfl
  rw [named]
  refine bind_eq_result (blankTypeParameters_behind _) fun generic => ?_
  rw [lift_pos, isPunct_behind, lift_goto]
  refine ite_eq_result (fun _ => ?_) fun _ => rfl
  refine bind_eq_result (signature_behind walker generic) fun typed => ?_
  rw [lift_pos, isPunct_behind, skipPunct_behind, lift_pos, blank_behind]
  exact ite_eq_result (fun _ => rfl) fun _ => rfl

theorem exportDeclaration_behind (i : Nat) (s : State) :
    p'.exportDeclaration w' (f.tokens + i) (f.lift s) =
      f.result f.lift (p.exportDeclaration w i s) := by
  unfold exportDeclaration
  dsimp only
  simp only [Nat.add_assoc, isPunct_behind, isName_behind, isWord_behind, isOneOf_behind,
    moduleStatementEnd_behind, blank_behind, blankTypeList_behind, lift_goto]
  refine ite_eq_result (fun _ => fail_behind ..) fun _ => ?_
  refine ite_eq_result (fun _ => fail_behind ..) fun _ => ?_
  refine ite_eq_result (fun _ => rfl) fun _ => ?_
  refine ite_eq_result (fun _ => rfl) fun _ => ?_
  refine ite_eq_result (fun _ => rfl) fun _ => ?_
  refine ite_eq_result (fun _ => ?_) fun _ => ?_
  · refine ite_eq_result (fun _ => typeStatement_behind walker ..) fun _ => ?_
    refine ite_eq_result (fun _ => functionDeclaration_behind walker ..) fun _ => ?_
    exact ite_eq_result (fun _ => functionDeclaration_behind walker ..) fun _ => rfl
  refine ite_eq_result (fun _ => functionDeclaration_behind walker ..) fun _ => ?_
  refine ite_eq_result (fun _ => functionDeclaration_behind walker ..) fun _ => ?_
  refine ite_eq_result (fun _ => enumeration_behind ..) fun _ => ?_
  exact ite_eq_result (fun _ => typeStatement_behind walker ..) fun _ => rfl

end Modules

/-! ## Variables -/

section Variables

theorem walkVariables_eq (w : Walker) (limit : Nat) (s : State) : p.walkVariables w limit s =
    if p.bindsAt s.pos then
      p.walkVariable w limit s >>= fun next =>
        if p.isPunct next.pos "," && p.bindsAt (next.pos + 1) then
          p.walkVariables w limit ((next.skip 1).past s.pos)
        else .ok next
    else .ok s := by
  rw [walkVariables]
  split
  case isTrue => cases p.walkVariable w limit s <;> rfl
  case isFalse => rfl

variable {w' w : Walker} (walker : w'.Behind f p w)
include walker

theorem walkVariable_behind (limit : Nat) (s : State) :
    p'.walkVariable w' (f.tokens + limit) (f.lift s) =
      f.result f.lift (p.walkVariable w limit s) := by
  unfold walkVariable
  refine bind_eq_result (walkBinding_behind walker s) fun bound => ?_
  rw [blankMarker_behind]
  refine bind_eq_result (blankAnnotation_behind _) fun typed => ?_
  exact walkValue_behind walker limit [",", ";"] typed

theorem walkVariables_behind (limit : Nat) (s : State) :
    p'.walkVariables w' (f.tokens + limit) (f.lift s) =
      f.result f.lift (p.walkVariables w limit s) := by
  rw [walkVariables_eq, walkVariables_eq, lift_pos, bindsAt_behind]
  refine ite_eq_result (fun binds => ?_) fun _ => rfl
  have inside : s.pos < p.tokens.size := by
    simp only [bindsAt, Bool.or_eq_true] at binds
    rcases binds with (h | h) | h <;> exact p.lt_size_of_is h
  refine bind_eq_result (walkVariable_behind walker limit s) fun next => ?_
  rw [lift_pos, isPunct_behind, Nat.add_assoc, bindsAt_behind, lift_skip, lift_past]
  exact ite_eq_result (fun _ => walkVariables_behind limit ((next.skip 1).past s.pos)) fun _ => rfl
termination_by p.tokens.size - s.pos
decreasing_by
  simp only [State.past, State.goto]
  omega

theorem variableDeclaration_behind (i limit : Nat) (s : State) :
    p'.variableDeclaration w' (f.tokens + i) (f.tokens + limit) (f.lift s) =
      f.result f.lift (p.variableDeclaration w i limit s) := by
  unfold variableDeclaration
  rw [Nat.add_assoc, lift_goto, walkVariables_behind walker]

end Variables

/-! ## Steps -/

section Steps

theorem typedBefore_eq (close : Nat) (text : String) : p.typedBefore close text =
    (p.isPunct (close + 1) ":" &&
      (p.typeStop? (close + 2)).any fun j => p.isPunct j text && !p.newlineBefore j) := by
  unfold typedBefore typeStop?
  cases p.typeEnd? (close + 2) <;> rfl

@[simp] theorem typedBefore_behind (close : Nat) (text : String) :
    p'.typedBefore (f.tokens + close) text = p.typedBefore close text := by
  rw [typedBefore_eq, typedBefore_eq, Nat.add_assoc, Nat.add_assoc, isPunct_behind, typeStop?_behind]
  cases stop : p.typeStop? (close + 2) with
  | none => rfl
  | some j =>
    have after := lt_typeStop? stop
    rw [Option.map_some, Option.any_some, Option.any_some, isPunct_behind,
      newlineBefore_behind (by omega)]

/-- Whether a body stands behind the parenthesis that closes at a position, on the same line and
perhaps behind the type of a result. -/
def opensBody (p : Program) (close : Nat) : Bool :=
  (p.isPunct (close + 1) openBrace && !p.newlineBefore (close + 1)) || p.typedBefore close openBrace

@[simp] theorem opensBody_behind (close : Nat) :
    p'.opensBody (f.tokens + close) = p.opensBody close := by
  unfold opensBody
  rw [typedBefore_behind, Nat.add_assoc, isPunct_behind, newlineBefore_behind_succ]

/-- Whether a token stands behind something that can be the name of a method. -/
def followsMethodName (p : Program) (i : Nat) : Bool := i != 0 && p.endsMethodName (i - 1)

theorem followsMethodName_behind {i : Nat} (later : 0 < i) :
    p'.followsMethodName (f.tokens + i) = p.followsMethodName i := by
  obtain ⟨k, rfl⟩ := Nat.exists_eq_add_one.mpr later
  have before : f.tokens + (k + 1) - 1 = f.tokens + k := rfl
  unfold followsMethodName
  rw [before, endsMethodName_behind, Nat.add_sub_cancel]
  simp

/-- Whether a token stands behind a value. -/
def followsValue (p : Program) (i : Nat) : Bool := i != 0 && p.endsValue (i - 1)

theorem followsValue_behind {i : Nat} (later : 0 < i) :
    p'.followsValue (f.tokens + i) = p.followsValue i := by
  obtain ⟨k, rfl⟩ := Nat.exists_eq_add_one.mpr later
  have before : f.tokens + (k + 1) - 1 = f.tokens + k := rfl
  unfold followsValue
  rw [before, endsValue_behind, Nat.add_sub_cancel]
  simp

theorem stepAngle_eq (s : State) : p.stepAngle s =
    (p.angleStop? 0 (s.pos + 1)).elim (s.skip 1) fun stop =>
      if (if p.followsValue s.pos then
            p.isName (s.pos - 1) && !p.newlineBefore s.pos &&
              (p.isPunct stop "(" || p.kind? stop == some .template)
          else
            p.is stop fun t =>
              t.isPunct "(" || t.kind == .ident || t.kind == .string || t.kind == .number) then
        p.blankTo s stop
      else s.skip 1 := by
  unfold stepAngle angleEnd? angleStop?
  dsimp only
  cases p.angleFrom? 0 (s.pos + 1) <;> rfl

theorem stepAngle_behind {s : State} (later : 0 < s.pos) :
    p'.stepAngle (f.lift s) = f.lift (p.stepAngle s) := by
  have before : f.tokens + s.pos - 1 = f.tokens + (s.pos - 1) := Nat.add_sub_assoc later _
  rw [stepAngle_eq, stepAngle_eq, lift_pos, followsValue_behind later, newlineBefore_behind later,
    before, isName_behind, Nat.add_assoc, angleStop?_behind, lift_skip]
  cases p.angleStop? 0 (s.pos + 1) with
  | none => rfl
  | some stop =>
    rw [Option.map_some, Option.elim_some, Option.elim_some, isPunct_behind, kind?_behind,
      is_behind fun _ _ => rfl, blankTo_behind]
    exact ite_eq_lift (fun _ => rfl) fun _ => rfl

theorem stepAssertion_behind {s : State} (later : 0 < s.pos) :
    p'.stepAssertion (f.lift s) = f.result f.lift (p.stepAssertion s) := by
  have notFirst : (s.pos == 0) = false := beq_eq_false_iff_ne.mpr (Nat.ne_of_gt later)
  have notFirst' : (f.tokens + s.pos == 0) = false := beq_eq_false_iff_ne.mpr (by omega)
  have before : f.tokens + s.pos - 1 = f.tokens + (s.pos - 1) := Nat.add_sub_assoc later _
  unfold stepAssertion
  rw [lift_pos, notFirst, notFirst', before, endsValue_behind, newlineBefore_behind later, lift_skip,
    Nat.add_assoc]
  refine ite_eq_result (fun _ => rfl) fun _ => ?_
  exact bind_eq_result (expectType_behind _) fun j => by rw [blankTo_behind]; rfl

variable {w' w : Walker} (walker : w'.Behind f p w)
include walker

theorem stepParenthesis_behind {s : State}
    (method : (p'.followsMethodName (f.tokens + s.pos) && p.opensBody (p.close s.pos)) =
      (p.followsMethodName s.pos && p.opensBody (p.close s.pos))) :
    p'.stepParenthesis w' (f.lift s) = f.result f.lift (p.stepParenthesis w s) := by
  have same : (p'.followsMethodName (f.tokens + s.pos) && p'.opensBody (f.tokens + p.close s.pos)) =
      (p.followsMethodName s.pos && p.opensBody (p.close s.pos)) := by
    rw [opensBody_behind, method]
  unfold followsMethodName opensBody at same
  unfold stepParenthesis
  dsimp only
  rw [lift_pos, close_behind, same, typedBefore_behind, Nat.add_assoc, isPunct_behind]
  exact ite_eq_result (fun _ => signature_behind walker s) fun _ => walkBracket_behind walker s

theorem stepWord_behind (limit : Nat) {s : State}
    (dot : p'.afterDot (f.tokens + s.pos) = p.afterDot s.pos)
    (assertion : p'.stepAssertion (f.lift s) = f.result f.lift (p.stepAssertion s))
    (rest : (if p'.startsStatement (f.tokens + s.pos) then
          p'.typeStatement w' (f.tokens + s.pos) (f.tokens + s.pos) (f.tokens + (s.pos + 1)) (f.lift s)
        else .ok (f.lift (s.skip 1))) =
      f.result f.lift (if p.startsStatement s.pos then
          p.typeStatement w s.pos s.pos (s.pos + 1) s
        else .ok (s.skip 1))) :
    p'.stepWord w' (f.tokens + limit) (f.lift s) = f.result f.lift (p.stepWord w limit s) := by
  unfold stepWord
  dsimp only
  simp only [lift_pos, dot, text_behind, Nat.add_assoc, isWord_behind, isPunct_behind, lift_skip]
  refine ite_eq_result (fun _ => rfl) fun _ => ?_
  refine ite_eq_result (fun _ => importDeclaration_behind ..) fun _ => ?_
  refine ite_eq_result (fun _ => exportDeclaration_behind walker ..) fun _ => ?_
  refine ite_eq_result (fun _ => functionDeclaration_behind walker ..) fun _ => ?_
  refine ite_eq_result (fun _ => classDeclaration_behind walker ..) fun _ => ?_
  refine ite_eq_result (fun _ => enumeration_behind ..) fun _ => ?_
  refine ite_eq_result (fun _ => variableDeclaration_behind walker ..) fun _ => ?_
  refine ite_eq_result (fun _ => assertion) fun _ => ?_
  refine ite_eq_result (fun _ => ?_) fun _ => rest
  exact bind_eq_result (parameters_behind walker _) fun _ => rfl

theorem stepHoles_behind {t : Token} (token : t ∈ p.tokens) {holes : List Hole}
    (inside : ∀ h ∈ holes, h ∈ t.holes) (s : State) :
    stepHoles w' (f.lift s) (holes.map (·.shifted f.chars)) =
      f.result f.lift (stepHoles w s holes) := by
  induction holes generalizing s with
  | nil => rfl
  | cons hole holes ih =>
    rw [List.forall_mem_cons] at inside
    rw [List.map_cons]
    unfold stepHoles
    rw [walker.hole t token hole inside.1]
    cases w.hole hole with
    | error e => exact congrArg Except.error (e.shifted_shifted ..).symm
    | ok edits =>
      have adopted : (f.lift s).edits.adopt edits (hole.shifted f.chars).start =
          (f.lift { s with edits := s.edits.adopt edits hole.start }).edits := by
        unfold lift Edits.adopt
        simp [Edit.shifted, Hole.shifted, Function.comp_def, Nat.add_assoc]
      dsimp only
      rw [adopted]
      exact ih inside.2 { s with edits := s.edits.adopt edits hole.start }

/-- A step at any but the first token is the same behind the front. -/
theorem step_behind (limit : Nat) {s : State} (later : 0 < s.pos) :
    p'.step w' (f.tokens + limit) (f.lift s) = f.result f.lift (p.step w limit s) := by
  unfold step
  rw [lift_pos, Behind.token s.pos]
  cases found : p.tokens[s.pos]? with
  | none => rfl
  | some t =>
    have asserts : (t.isPunct "!" && f.tokens + s.pos != 0 && p'.endsValue (f.tokens + s.pos - 1)) =
        (t.isPunct "!" && s.pos != 0 && p.endsValue (s.pos - 1)) := by
      rw [Bool.and_assoc, Bool.and_assoc]
      exact congrArg (t.isPunct "!" && ·) (followsValue_behind later)
    have newline : (t.placed f.chars s.pos).newlineBefore = t.newlineBefore := by
      have same := @newlineBefore_behind p' p f _ s.pos later
      unfold newlineBefore at same
      rwa [Behind.token s.pos, found] at same
    dsimp only [Option.map_some]
    simp only [isPunct_placed, kind_placed, newline, asserts, lift_skip]
    refine ite_eq_result (fun _ => ?_) fun _ => ?_
    · exact stepParenthesis_behind walker (by rw [followsMethodName_behind later])
    refine ite_eq_result (fun _ => walkBracket_behind walker s) fun _ => ?_
    refine ite_eq_result (fun _ => congrArg Except.ok (stepAngle_behind later)) fun _ => ?_
    refine ite_eq_result (fun _ => ?_) fun _ => ?_
    · rw [Nat.add_assoc, blankTo_behind]
      rfl
    refine ite_eq_result (fun _ => ?_) fun _ => ?_
    · refine stepWord_behind walker limit (afterDot_behind later) (stepAssertion_behind later) ?_
      rw [startsStatement_behind later]
      exact ite_eq_result (fun _ => typeStatement_behind walker ..) fun _ => rfl
    refine ite_eq_result (fun _ => ?_) fun _ => rfl
    exact stepHoles_behind walker (Array.mem_of_getElem? found) (fun _ mem => mem) _

end Steps

/-! ## Walks -/

section Walks

variable {hole' hole : Hole → Except Failure Edits}
  (holes : ∀ t ∈ p.tokens, ∀ h ∈ t.holes, hole' (h.shifted f.chars) = hole h)
include holes

/-- A walk is the same behind the front where its first step is, and every walk from a later token. -/
theorem walk_eq_result {limit : Nat} {stop stop' : Nat → Bool} {s : State}
    (same : ∀ i, stop' (f.tokens + i) = stop i)
    (step : ∀ w' w : Walker, w'.Behind f p w →
      p'.step w' (f.tokens + limit) (f.lift s) = f.result f.lift (p.step w limit s))
    (later : s.pos < p.tokens.size → ∀ (limit : Nat) (stop stop' : Nat → Bool),
      (∀ i, stop' (f.tokens + i) = stop i) → ∀ t : State, s.pos < t.pos →
        p'.walk hole' (f.tokens + limit) stop' (f.lift t) =
          f.result f.lift (p.walk hole limit stop t)) :
    p'.walk hole' (f.tokens + limit) stop' (f.lift s) = f.result f.lift (p.walk hole limit stop s) := by
  have size : p'.tokens.size = f.tokens + p.tokens.size := Behind.size
  have past (t : State) : s.pos < (t.past s.pos).pos := by
    simp only [State.past, State.goto]
    omega
  unfold walk
  simp only [lift_pos, size, same, Nat.add_lt_add_iff_left]
  split
  case isFalse => rfl
  case isTrue inside =>
  split
  case isFalse => rfl
  case isTrue =>
  have walker : Walker.Behind
      ⟨fun limit stop t => p'.walk hole' limit stop (t.past (f.tokens + s.pos)), hole'⟩
      f p ⟨fun limit stop t => p.walk hole limit stop (t.past s.pos), hole⟩ := by
    refine ⟨fun limit stop stop' t same => ?_, holes⟩
    dsimp only
    rw [lift_past]
    exact later inside limit stop stop' same _ (past t)
  rw [step _ _ walker]
  cases p.step _ limit s with
  | error e => rfl
  | ok next =>
    dsimp only [result]
    rw [lift_past]
    exact later inside limit stop stop' same _ (past next)

/-- A walk from any but the first token is the same behind the front. -/
theorem walk_behind (limit : Nat) (stop stop' : Nat → Bool)
    (same : ∀ i, stop' (f.tokens + i) = stop i) {s : State} (later : 0 < s.pos) :
    p'.walk hole' (f.tokens + limit) stop' (f.lift s) = f.result f.lift (p.walk hole limit stop s) := by
  refine walk_eq_result holes same (fun _ _ walker => step_behind walker limit later) ?_
  intro inside limit stop stop' same t further
  exact walk_behind limit stop stop' same (Nat.lt_trans later further)
termination_by p.tokens.size - s.pos

end Walks

/-! ## The first token -/

/-- Whether a statement that only exists for the types starts with the word at a position. -/
def opensTypeStatement (p : Program) (i : Nat) : Bool :=
  let named := p.isName (i + 1) && !p.newlineBefore (i + 1)
  let word := p.text i
  (word == "interface" && named) ||
    (word == "type" && named && (p.isPunct (i + 2) "=" || p.isPunct (i + 2) "<")) ||
    (word == "declare" && named) ||
    (word == "abstract" && p.isWord (i + 1) "class" && !p.newlineBefore (i + 1)) ||
    (word == "enum" && p.isName (i + 1) && p.isPunct (i + 2) openBrace) ||
    ((word == "namespace" || word == "module") && (named || p.kind? (i + 1) == some .string) &&
      (p.isPunct (i + 2) openBrace || p.isPunct (i + 2) "."))

theorem opensTypeStatement_behind (i : Nat) :
    p'.opensTypeStatement (f.tokens + i) = p.opensTypeStatement i := by
  unfold opensTypeStatement
  simp only [Nat.add_assoc, text_behind, isName_behind, newlineBefore_behind_succ, isPunct_behind,
    isWord_behind, kind?_behind]

omit behind in
theorem typeStatement_of_not_opens (w : Walker) {i : Nat} (plain : p.opensTypeStatement i = false)
    (start resume : Nat) (s : State) : p.typeStatement w i start resume s = .ok (s.goto resume) := by
  simp only [opensTypeStatement, Bool.or_eq_false_iff] at plain
  obtain ⟨⟨⟨⟨⟨noInterface, noAlias⟩, noAmbient⟩, noClass⟩, noEnum⟩, noNamespace⟩ := plain
  unfold typeStatement
  dsimp only
  simp only [noInterface, noAlias, noAmbient, noClass, noEnum, noNamespace, Bool.false_eq_true,
    if_false]

/-- Whether the first token of a program is taken behind the front for what it is at the start of a
text. -/
structure Joins (p' : Program) (f : Front) (p : Program) : Prop where
  /-- The token before it is no dot. -/
  dot : p'.afterDot f.tokens = false
  /-- A statement starts there, unless no type-only statement does. -/
  statement : p'.startsStatement f.tokens = true ∨ p.opensTypeStatement 0 = false
  /-- A parenthesis there does not hold the parameters of a method. -/
  parameters : p.isPunct 0 "(" = true →
    p'.followsMethodName f.tokens = false ∨ p.opensBody (p.close 0) = false

section First

variable {t : Token} (found : p.tokens[0]? = some t) (opens : t.opensStatement = true)
  (joins : Joins p' f p)
include found opens joins

/-- A step at the first token is the same behind the front where that token is taken for the same. -/
theorem step_behind_first {w' w : Walker} (walker : w'.Behind f p w) (limit : Nat) (edits : Edits) :
    p'.step w' (f.tokens + limit) (f.lift ⟨0, edits⟩) =
      f.result f.lift (p.step w limit ⟨0, edits⟩) := by
  have place : p'.tokens[f.tokens]? = some (t.placed f.chars 0) := by
    have same := @Behind.token p' f p _ 0
    rwa [found] at same
  have newline : p'.newlineBefore f.tokens = true := by
    rw [newlineBefore, place]
    rfl
  have others : t.isPunct "<" = false ∧ t.isPunct "!" = false ∧ t.kind ≠ .template := by
    obtain ⟨kind, start, text, newlineBefore, holes⟩ := t
    cases kind <;> simp_all [Token.opensStatement, Token.isPunct]
    rcases opens with rfl | rfl <;> decide
  obtain ⟨noAngle, noAssertion, noTemplate⟩ := others
  unfold step
  rw [lift_pos, Nat.add_zero, place, found]
  simp only [isPunct_placed, kind_placed, noAngle, noAssertion, Bool.false_and, Bool.false_eq_true,
    if_false]
  refine ite_eq_result (fun paren => ?_) fun _ => ?_
  · refine stepParenthesis_behind walker ?_
    have open' : p.isPunct 0 "(" = true := by
      rw [isPunct, is, found]
      exact paren
    exact Bool.and_eq_false_iff.mpr (joins.parameters open')
  refine ite_eq_result (fun _ => walkBracket_behind walker _) fun _ => ?_
  refine ite_eq_result (fun _ => ?_) fun _ => ?_
  · refine stepWord_behind walker limit joins.dot ?_ ?_
    · unfold stepAssertion
      rw [lift_pos, Nat.add_zero, newline, Bool.or_true, if_pos rfl, lift_skip]
      rfl
    · have first : p.startsStatement 0 = true := rfl
      rw [first, if_pos rfl]
      rcases joins.statement with starts | plain
      · have starts' : p'.startsStatement (f.tokens + 0) = true := starts
        rw [starts', if_pos rfl]
        exact typeStatement_behind walker 0 0 1 _
      · have plain' : p'.opensTypeStatement (f.tokens + 0) = false := by
          rw [opensTypeStatement_behind, plain]
        rw [typeStatement_of_not_opens w plain, typeStatement_of_not_opens w' plain']
        exact ite_self _
  refine ite_eq_result (fun template => absurd (beq_iff_eq.mp template) noTemplate) fun _ => rfl

variable {hole' hole : Hole → Except Failure Edits}
  (holes : ∀ t ∈ p.tokens, ∀ h ∈ t.holes, hole' (h.shifted f.chars) = hole h)
include holes

/-- A walk through the whole text is the same behind the front where its first token is taken for the
same. -/
theorem walk_behind_first (edits : Edits) :
    p'.walk hole' p'.tokens.size nowhere (f.lift ⟨0, edits⟩) =
      f.result f.lift (p.walk hole p.tokens.size nowhere ⟨0, edits⟩) := by
  have size : p'.tokens.size = f.tokens + p.tokens.size := Behind.size
  rw [size]
  refine walk_eq_result holes (fun _ => rfl) (fun _ _ walker => ?_) ?_
  · exact step_behind_first found opens joins walker p.tokens.size edits
  · intro _ limit stop stop' same t further
    exact walk_behind holes limit stop stop' same further

end First

end Program

end Erase

end ModuleLinker
