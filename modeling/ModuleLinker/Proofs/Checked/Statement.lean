import ModuleLinker.Proofs.Checked.Class
import ModuleLinker.Proofs.Checked.Enumeration

/-!
# Statements, with checks

The statements that are types as a whole or in part, with checks. A search for the end of a statement
may run past the bracket that the statement lies in, but never past the last token: every position that
it comes to is a token's or the one behind the last token, and its brackets are those that open.
-/

set_option autoImplicit false

namespace ModuleLinker.Checked

open Erase Erase.Program

/-- What can be bound is a token. -/
theorem lt_size_of_bindsAt {p : Program} {i : Nat} (binds : p.bindsAt i = true) : i < p.tokens.size := by
  rw [bindsAt, Bool.or_eq_true, Bool.or_eq_true] at binds
  rcases binds with (binds | binds) | binds <;> exact p.lt_size_of_is binds

section

variable (p : Program)

/-! ## Ends of statements -/

/-- Whether a token starts a line that does not continue the ambient declaration from `first` on. -/
def opensLine (first i : Nat) (t : Token) : Checked Bool :=
  if first < i then do
    let before ← difference i 1
    pure (t.newlineBefore && !p.expectsOperand before && !t.isPunct "|" && !t.isPunct "&")
  else pure false

/-- The end of an ambient declaration that starts at `first`, looked for from position `i` on. -/
def declarationEnd (first i : Nat) : Checked Nat := do
  reach p.source i
  if i < p.tokens.size then do
    let t ← tokenAt p.tokens i
    if t.isPunct ";" then pure (i + 1)
    else if t.isPunct closeBrace then pure i
    else if t.isPunct openBrace then do
      let ⟨close, _⟩ ← partner p i
      if p.isPunct (close + 1) ";" then pure (close + 2)
      else if p.newlineBefore (close + 1) then pure (close + 1)
      else declarationEnd first (close + 1)
    else if t.isPunct "(" || t.isPunct "[" then do
      let ⟨close, _⟩ ← partner p i
      declarationEnd first (close + 1)
    else do
      let opens ← opensLine p first i t
      if opens then pure i else declarationEnd first (i + 1)
  else pure i
termination_by p.tokens.size - i

/-- The position after the reference at a position and after its attributes. -/
def referenceEnd (k : Nat) : Checked Nat := do
  reach p.source k
  if (p.isWord (k + 1) "with" || p.isWord (k + 1) "assert") && p.isPunct (k + 2) openBrace &&
      !p.newlineBefore (k + 1) then do
    let ⟨close, _⟩ ← partner p (k + 2)
    pure (close + 1)
  else pure (k + 1)

/-- The position after an import or export statement, looked for from position `k` on. -/
def moduleStatementEnd (k : Nat) : Checked Nat := do
  reach p.source k
  if k < p.tokens.size then do
    let t ← tokenAt p.tokens k
    if t.kind == .string then do punctEnd p (← referenceEnd p k) ";"
    else if t.isPunct ";" then pure (k + 1)
    else if t.isPunct openBrace then do
      let ⟨close, _⟩ ← partner p k
      if p.newlineBefore (close + 1) && !p.isWord (close + 1) "from" then pure (close + 1)
      else moduleStatementEnd (close + 1)
    else moduleStatementEnd (k + 1)
  else pure k
termination_by p.tokens.size - k

/-! ## Brace lists -/

/-- The position of the comma that ends the element at a position of a brace list, or of its end. -/
def elementEnd (limit k : Nat) : Checked Nat := do
  reach p.source k
  if k < limit then if p.isPunct k "," then pure k else elementEnd limit (k + 1) else pure k
termination_by limit - k

/-- Overwrites the elements of a brace list that are types, up to its end. -/
def blankTypeElements (limit k : Nat) (s : State) : Checked State :=
  if k < limit then do
    let stop ← elementEnd p limit k
    let length ← difference stop k
    let isType := p.isWord k "type" && 2 ≤ length && !(length == 3 && p.isWord (k + 1) "as")
    let next ← blank p s k (if isType then if stop < limit then stop + 1 else stop else k)
    if k < stop + 1 then blankTypeElements limit (stop + 1) next else crash (.standstill k)
  else pure s
termination_by limit - k

/-- Overwrites the type-only elements of the brace list that opens at a position. -/
def blankTypeList (i : Nat) (s : State) : Checked State := do
  let ⟨close, _⟩ ← partner p i
  blankTypeElements p close (i + 1) s

/-- The position of the brace list of an import clause, where it has one. -/
def clauseList? (k : Nat) : Checked (Option Nat) := do
  reach p.source k
  if k < p.tokens.size then do
    let t ← tokenAt p.tokens k
    if t.kind == .string || t.isPunct ";" then pure none
    else if t.isPunct openBrace then pure (some k)
    else clauseList? (k + 1)
  else pure none
termination_by p.tokens.size - k

/-- Overwrites the type-only elements of the brace list of an import clause, where it has one. -/
def blankClause (k : Nat) (s : State) : Checked State := do
  match ← clauseList? p k with
  | some list => blankTypeList p list s
  | none => pure s

/-! ## Statements -/

/-- The position of the equals sign of the type alias whose keyword stands at a position. -/
def aliasEquals (i : Nat) : Checked Nat :=
  if p.isPunct (i + 2) "<" then expectAngle p (i + 2) else pure (i + 2)

/-- Overwrites a type alias whose keyword stands at `i` and whose statement starts at `start`. -/
def blankAlias (i start : Nat) (s : State) : Checked State := do
  let equals ← aliasEquals p i
  if p.isPunct equals "=" then do
    let stop ← expectType p (equals + 1)
    blankWith p (s.goto stop) start ";"
  else fail p equals (.punctuatorExpected "=")

/-- Erases the statement whose first word stands at `i` where it only exists for the types. -/
def typeStatement (w : Walker) (i start resume : Nat) (s : State) : Checked State := do
  reach p.source i
  let named := p.isName (i + 1) && !p.newlineBefore (i + 1)
  let word := p.text i
  if word == "interface" && named then do
    let ⟨close, _⟩ ← partner p (← bodyAhead p i (i + 2))
    blankFrom p s start (close + 1)
  else if word == "type" && named && (p.isPunct (i + 2) "=" || p.isPunct (i + 2) "<") then
    blankAlias p i start s
  else if word == "declare" && named then do
    blankFrom p s start (← declarationEnd p (i + 1) (i + 1))
  else if word == "abstract" && p.isWord (i + 1) "class" && !p.newlineBefore (i + 1) then do
    classDeclaration p w (i + 1) resume (← blank p s i (i + 1))
  else if word == "enum" && p.isName (i + 1) && p.isPunct (i + 2) openBrace then enumeration p i s
  else if (word == "namespace" || word == "module") &&
      (named || p.kind? (i + 1) == some .string) &&
      (p.isPunct (i + 2) openBrace || p.isPunct (i + 2) ".") then
    fail p i .namespaceBlock
  else pure (s.goto resume)

/-- Erases the types of the import whose keyword stands at `i`. -/
def importDeclaration (i : Nat) (s : State) : Checked State := do
  reach p.source i
  let next := i + 1
  if !(p.isPunct next openBrace || p.isPunct next "*" || p.isName next ||
      p.kind? next == some .string) then pure (s.goto next)
  else if p.isWord next "type" &&
      !(p.isPunct (i + 2) "," || p.isWord (i + 2) "from" || p.isPunct (i + 2) "=") then do
    blankFrom p s i (← moduleStatementEnd p next)
  else if p.isName next && p.isPunct (i + 2) "=" then fail p i .importAssignment
  else do
    let cleaned ← blankClause p next s
    pure (cleaned.goto (← moduleStatementEnd p next))

/-- Steps over a name where one stands. -/
def skipName (s : State) : Checked State := do
  reach p.source s.pos
  pure (if p.isName s.pos then s.skip 1 else s)

/-- Erases the types of the function whose keyword stands at `i` and whose statement starts at
`start`; one without a body is an overload and goes as a whole. -/
def functionDeclaration (w : Walker) (i start resume : Nat) (s : State) : Checked State := do
  reach p.source i
  let starred ← skipPunct p (s.goto (i + 1)) "*"
  let named ← skipName p starred
  let generic ← blankTypeParameters p named
  if p.isPunct generic.pos "(" then do
    let typed ← signature p w generic
    if p.isPunct typed.pos openBrace then pure typed else blankWith p typed start ";"
  else pure (generic.goto resume)

/-- Erases the types of the export whose keyword stands at `i`. -/
def exportDeclaration (w : Walker) (i : Nat) (s : State) : Checked State := do
  reach p.source i
  let n := i + 1
  if p.isPunct n "=" then fail p i .exportAssignment
  else if p.isWord n "import" && p.isName (n + 1) && p.isPunct (n + 2) "=" then
    fail p i .importAssignment
  else if p.isWord n "type" && (p.isPunct (n + 1) openBrace || p.isPunct (n + 1) "*") then do
    blankFrom p s i (← moduleStatementEnd p n)
  else if p.isPunct n openBrace then do
    let cleaned ← blankTypeList p n s
    pure (cleaned.goto (← moduleStatementEnd p n))
  else if p.isPunct n "*" then do pure (s.goto (← moduleStatementEnd p n))
  else if p.isWord n "default" then
    let d := n + 1
    if p.isWord d "interface" || p.isWord d "abstract" then typeStatement p w d i d s
    else if p.isWord d "function" then functionDeclaration p w d i n s
    else if p.isWord d "async" && p.isWord (d + 1) "function" then
      functionDeclaration p w (d + 1) i n s
    else pure (s.goto d)
  else if p.isWord n "function" then functionDeclaration p w n i n s
  else if p.isWord n "async" && p.isWord (n + 1) "function" then
    functionDeclaration p w (n + 1) i n s
  else if p.isWord n "const" && p.isWord (n + 1) "enum" then enumeration p n s
  else if p.isOneOf n
      ["interface", "type", "declare", "abstract", "enum", "namespace", "module"] then
    typeStatement p w n i n s
  else pure (s.goto n)

/-! ## Variables -/

/-- Erases the types of one variable and its value. -/
def walkVariable (w : Walker) (limit : Nat) (s : State) : Checked State := do
  let bound ← walkBinding p w s
  let typed ← blankAnnotation p (← blankMarker p bound "!")
  walkValue p w limit [",", ";"] typed

/-- Erases the types of the variables from the state's position on. -/
def walkVariables (w : Walker) (limit : Nat) (s : State) : Checked State := do
  reach p.source s.pos
  if h : p.bindsAt s.pos then do
    have _inside := lt_size_of_bindsAt h
    let next ← walkVariable p w limit s
    reach p.source next.pos
    if p.isPunct next.pos "," && p.bindsAt (next.pos + 1) then
      if s.pos < next.pos + 1 then walkVariables w limit (next.skip 1) else crash (.standstill s.pos)
    else pure next
  else pure s
termination_by p.tokens.size - s.pos
decreasing_by
  change p.tokens.size - (next.pos + 1) < p.tokens.size - s.pos
  omega

/-- Erases the types of the variable declaration whose keyword stands at `i`. -/
def variableDeclaration (w : Walker) (i limit : Nat) (s : State) : Checked State :=
  walkVariables p w limit (s.goto (i + 1))

end

/-! ## No check fails -/

section

variable {p : Program}

theorem opensLine_eq (first i : Nat) (t : Token) :
    opensLine p first i t =
      pure (first < i && t.newlineBefore && !p.expectsOperand (i - 1) && !t.isPunct "|" &&
        !t.isPunct "&") := by
  unfold opensLine
  split
  case isTrue after => rw [difference_eq (by omega), pure_bind, decide_eq_true after, Bool.true_and]
  case isFalse before =>
    rw [decide_eq_false before, Bool.false_and, Bool.false_and, Bool.false_and, Bool.false_and]

variable (sound : p.IsSound)
include sound

theorem declarationEnd_eq (first : Nat) {i : Nat} (le : i ≤ p.tokens.size) :
    declarationEnd p first i = pure (p.declarationEnd first i) ∧ i ≤ p.declarationEnd first i ∧
      p.declarationEnd first i ≤ p.tokens.size := by
  have past := p.lt_close i
  rw [Program.declarationEnd]
  split
  case h_1 none =>
    rw [declarationEnd, sound.reach_eq le, pure_bind, if_neg (not_lt_size none)]
    exact ⟨rfl, Nat.le_refl _, le⟩
  case h_2 t found =>
  have inside : i < p.tokens.size := (Array.getElem?_eq_some_iff.mp found).1
  have here {text : String} (punct : t.isPunct text = true) : p.isPunct i text = true :=
    (Option.any_eq_true ..).mpr ⟨t, found, punct⟩
  rw [declarationEnd, sound.reach_eq le, pure_bind, if_pos inside, tokenAt_eq found, pure_bind]
  dsimp only
  split
  · exact ⟨rfl, Nat.le_succ _, inside⟩
  split
  · exact ⟨rfl, Nat.le_refl _, le⟩
  split
  case isTrue opens =>
    obtain ⟨same, closes⟩ := sound.partner_punct (here opens) (by decide)
    rw [same, pure_bind]
    dsimp only
    split
    case isTrue semicolon =>
      have ends := p.lt_size_of_is semicolon
      exact ⟨rfl, by omega, ends⟩
    split
    · exact ⟨rfl, by omega, closes⟩
    · obtain ⟨same, later, within⟩ := declarationEnd_eq first (i := p.close i + 1) closes
      exact ⟨same, by omega, within⟩
  split
  case isTrue opens =>
    obtain ⟨same, closes⟩ : partner p i = pure ⟨p.close i, p.lt_close i⟩ ∧ p.close i < p.tokens.size := by
      rcases Bool.or_eq_true _ _ |>.mp opens with opens | opens <;>
        exact sound.partner_punct (here opens) (by decide)
    obtain ⟨same', later, within⟩ := declarationEnd_eq first (i := p.close i + 1) closes
    rw [same, pure_bind]
    exact ⟨same', by omega, within⟩
  rw [opensLine_eq, pure_bind]
  split
  · exact ⟨rfl, Nat.le_refl _, le⟩
  · obtain ⟨same, later, within⟩ := declarationEnd_eq first (i := i + 1) inside
    exact ⟨same, by omega, within⟩
termination_by p.tokens.size - i

theorem referenceEnd_eq {k : Nat} (inside : k < p.tokens.size) :
    referenceEnd p k = pure (p.referenceEnd k) ∧ k < p.referenceEnd k ∧
      p.referenceEnd k ≤ p.tokens.size := by
  rw [referenceEnd, Program.referenceEnd, sound.reach_eq (Nat.le_of_lt inside), pure_bind]
  split
  case isTrue attributes =>
    rw [Bool.and_eq_true, Bool.and_eq_true] at attributes
    obtain ⟨same, closes⟩ := sound.partner_punct attributes.1.2 (by decide)
    have past := p.lt_close (k + 2)
    rw [same, pure_bind]
    exact ⟨rfl, by omega, closes⟩
  case isFalse => exact ⟨rfl, Nat.lt_succ_self _, inside⟩

theorem moduleStatementEnd_eq {k : Nat} (le : k ≤ p.tokens.size) :
    moduleStatementEnd p k = pure (p.moduleStatementEnd k) ∧ k ≤ p.moduleStatementEnd k ∧
      p.moduleStatementEnd k ≤ p.tokens.size := by
  have past := p.lt_close k
  rw [Program.moduleStatementEnd]
  split
  case h_1 none =>
    rw [moduleStatementEnd, sound.reach_eq le, pure_bind, if_neg (not_lt_size none)]
    exact ⟨rfl, Nat.le_refl _, le⟩
  case h_2 t found =>
  have inside : k < p.tokens.size := (Array.getElem?_eq_some_iff.mp found).1
  rw [moduleStatementEnd, sound.reach_eq le, pure_bind, if_pos inside, tokenAt_eq found, pure_bind]
  dsimp only
  split
  · obtain ⟨same, later, within⟩ := referenceEnd_eq sound inside
    obtain ⟨same', later', within'⟩ := punctEnd_eq sound within ";"
    rw [same, pure_bind]
    exact ⟨same', by omega, within'⟩
  split
  · exact ⟨rfl, Nat.le_succ _, inside⟩
  split
  case isTrue opens =>
    obtain ⟨same, closes⟩ := sound.partner_punct ((Option.any_eq_true ..).mpr ⟨t, found, opens⟩) (by decide)
    rw [same, pure_bind]
    dsimp only
    split
    · exact ⟨rfl, by omega, closes⟩
    · obtain ⟨same, later, within⟩ := moduleStatementEnd_eq (k := p.close k + 1) closes
      exact ⟨same, by omega, within⟩
  · obtain ⟨same, later, within⟩ := moduleStatementEnd_eq (k := k + 1) inside
    exact ⟨same, by omega, within⟩
termination_by p.tokens.size - k

theorem elementEnd_eq {limit k : Nat} (within : limit ≤ p.tokens.size) (le : k ≤ limit) :
    elementEnd p limit k = pure (p.elementEnd limit k) ∧ p.elementEnd limit k ≤ limit := by
  rw [elementEnd, Program.elementEnd, sound.reach_eq (Nat.le_trans le within), pure_bind]
  split
  case isTrue less =>
    split
    · exact ⟨rfl, le⟩
    · exact elementEnd_eq within less
  case isFalse => exact ⟨rfl, le⟩
termination_by limit - k

theorem blankTypeElements_eq {limit k : Nat} (within : limit ≤ p.tokens.size) (s : State) :
    blankTypeElements p limit k s = pure (p.blankTypeElements limit k s) := by
  rw [blankTypeElements, Program.blankTypeElements]
  split
  case isFalse => rfl
  case isTrue less =>
  have later := p.le_elementEnd limit k
  rw [(elementEnd_eq sound within (Nat.le_of_lt less)).1, pure_bind, difference_eq later, pure_bind]
  dsimp only
  rw [blank_eq, pure_bind, if_pos (by omega), blankTypeElements_eq within]
  split
  · rfl
  · rw [blank_self]
termination_by limit - k

theorem blankTypeList_eq {i : Nat} (opens : p.isPunct i openBrace = true) (s : State) :
    blankTypeList p i s = pure (p.blankTypeList i s) := by
  obtain ⟨same, closes⟩ := sound.partner_punct opens (by decide)
  rw [blankTypeList, same, pure_bind]
  exact blankTypeElements_eq sound (Nat.le_of_lt closes) s

theorem clauseList?_eq {k : Nat} (le : k ≤ p.tokens.size) :
    clauseList? p k = pure (p.clauseList? k) ∧
      ∀ list, p.clauseList? k = some list → p.isPunct list openBrace = true := by
  rw [Program.clauseList?]
  split
  case h_1 none =>
    rw [clauseList?, sound.reach_eq le, pure_bind, if_neg (not_lt_size none)]
    exact ⟨rfl, fun _ same => by cases same⟩
  case h_2 t found =>
  have inside : k < p.tokens.size := (Array.getElem?_eq_some_iff.mp found).1
  rw [clauseList?, sound.reach_eq le, pure_bind, if_pos inside, tokenAt_eq found, pure_bind]
  dsimp only
  split
  · exact ⟨rfl, fun _ same => by cases same⟩
  split
  case isTrue opens =>
    refine ⟨rfl, fun list same => ?_⟩
    cases same
    exact (Option.any_eq_true ..).mpr ⟨t, found, opens⟩
  · exact clauseList?_eq inside
termination_by p.tokens.size - k

theorem blankClause_eq {k : Nat} (le : k ≤ p.tokens.size) (s : State) :
    blankClause p k s =
      pure (match p.clauseList? k with
        | some list => p.blankTypeList list s
        | none => s) := by
  obtain ⟨same, opens⟩ := clauseList?_eq sound le
  rw [blankClause, same, pure_bind]
  cases found : p.clauseList? k with
  | none => rfl
  | some list => exact blankTypeList_eq sound (opens list found) s

/-! ### Statements -/

theorem aliasEquals_agrees {i : Nat} (le : i + 2 ≤ p.tokens.size) :
    Agrees p.source (aliasEquals p i) (if p.isPunct (i + 2) "<" then p.expectAngle (i + 2) else .ok (i + 2))
      fun j => i < j ∧ j ≤ p.tokens.size := by
  rw [aliasEquals]
  refine .ite (fun opens => ?_) fun _ => .pure ⟨by omega, le⟩
  refine (expectAngle_agrees sound opens).weaken fun j found => ?_
  obtain ⟨later, within⟩ := found
  exact ⟨by omega, within⟩

theorem blankAlias_agrees {i : Nat} (start : Nat) (s : State) (le : i + 2 ≤ p.tokens.size) :
    Agrees p.source (blankAlias p i start s) (p.blankAlias i start s) (From p (i + 1)) := by
  rw [blankAlias, Program.blankAlias]
  refine (aliasEquals_agrees sound le).ite_bind fun equals ⟨later, within⟩ => ?_
  refine .ite (fun equal => ?_) fun _ => fail_agrees sound ..
  refine (expectType_agrees sound (p.lt_size_of_is equal)).bind fun stop ⟨past, within⟩ => ?_
  obtain ⟨same, after⟩ := blankWith_eq sound (s := s.goto stop) within start ";"
  exact .of_eq same (after.trans (by change i + 1 ≤ stop; omega))

theorem skipName_eq {s : State} (le : s.pos ≤ p.tokens.size) :
    skipName p s = pure (if p.isName s.pos then s.skip 1 else s) ∧
      From p s.pos (if p.isName s.pos then s.skip 1 else s) := by
  rw [skipName, sound.reach_eq le, pure_bind]
  refine ⟨rfl, ?_⟩
  split
  case isTrue name => exact ⟨Nat.le_succ _, p.lt_size_of_is name⟩
  case isFalse => exact ⟨Nat.le_refl _, le⟩

theorem importDeclaration_agrees {i : Nat} (s : State) (inside : i < p.tokens.size) :
    Agrees p.source (importDeclaration p i s) (p.importDeclaration i s) (From p (i + 1)) := by
  rw [importDeclaration, Program.importDeclaration, sound.reach_eq (Nat.le_of_lt inside), pure_bind]
  obtain ⟨same, later, within⟩ := moduleStatementEnd_eq sound (k := i + 1) inside
  refine .ite (fun _ => .pure ⟨Nat.le_refl _, inside⟩) fun _ => .ite (fun _ => ?_) fun _ => ?_
  · rw [same, pure_bind]
    exact .of_eq (blankFrom_eq ..) ⟨later, within⟩
  refine .ite (fun _ => fail_agrees sound ..) fun _ => ?_
  rw [blankClause_eq sound inside, pure_bind, same, pure_bind]
  exact .pure ⟨later, within⟩

variable {w' : Walker} {w : Erase.Walker} {i : Nat} (walker : w'.Agrees w p i)
include walker

/-- The statement whose first word stands at a position, behind which the walk goes on. -/
theorem typeStatement_agrees {k resume : Nat} (start : Nat) (s : State) (later : i ≤ k)
    (le : k ≤ p.tokens.size) (after : i < resume) (within : resume ≤ p.tokens.size) :
    Agrees p.source (typeStatement p w' k start resume s) (p.typeStatement w k start resume s)
      (From p (i + 1)) := by
  rw [typeStatement, Program.typeStatement, sound.reach_eq le, pure_bind]
  have next (named : (p.isName (k + 1) && !p.newlineBefore (k + 1)) = true) : k + 1 < p.tokens.size := by
    rw [Bool.and_eq_true] at named
    exact p.lt_size_of_is named.1
  refine .ite (fun word => ?_) fun _ => .ite (fun word => ?_) fun _ => .ite (fun word => ?_) fun _ => ?_
  · rw [Bool.and_eq_true] at word
    refine (bodyAhead_agrees sound k (next word.2)).bind fun brace ⟨past, opens⟩ => ?_
    obtain ⟨same, closes⟩ := sound.partner_punct opens (by decide)
    have past' := p.lt_close brace
    rw [same, pure_bind]
    exact .of_eq (blankFrom_eq ..) ⟨by change i + 1 ≤ p.close brace + 1; omega, closes⟩
  · rw [Bool.and_eq_true, Bool.and_eq_true] at word
    exact (blankAlias_agrees sound start s (next word.1.2)).weaken fun _ past =>
      past.trans (Nat.succ_le_succ later)
  · rw [Bool.and_eq_true] at word
    obtain ⟨same, past, within⟩ := declarationEnd_eq sound (k + 1) (Nat.le_of_lt (next word.2))
    rw [same, pure_bind]
    exact .of_eq (blankFrom_eq ..) ⟨Nat.le_trans (Nat.succ_le_succ later) past, within⟩
  refine .ite (fun word => ?_) fun _ => .ite (fun word => ?_) fun _ => ?_
  · rw [Bool.and_eq_true, Bool.and_eq_true] at word
    rw [blank_eq, pure_bind]
    exact classDeclaration_agrees sound walker _ (Nat.le_succ_of_le later) (p.lt_size_of_is word.1.2) after
      within
  · exact (enumeration_agrees sound k s le).weaken fun _ past => past.trans (Nat.succ_le_succ later)
  · exact .ite (fun _ => fail_agrees sound ..) fun _ => .pure ⟨after, within⟩

/-- The function whose keyword stands at a position, behind which the walk goes on. -/
theorem functionDeclaration_agrees {k resume : Nat} (start : Nat) (s : State) (later : i ≤ k)
    (inside : k < p.tokens.size) (after : i < resume) (within : resume ≤ p.tokens.size) :
    Agrees p.source (functionDeclaration p w' k start resume s) (p.functionDeclaration w k start resume s)
      (From p (i + 1)) := by
  obtain ⟨same, stars⟩ := skipPunct_eq sound (s := s.goto (k + 1)) inside "*"
  obtain ⟨same', names⟩ := skipName_eq sound stars.2
  rw [functionDeclaration, Program.functionDeclaration, sound.reach_eq (Nat.le_of_lt inside), pure_bind,
    same, pure_bind, same', pure_bind]
  refine (blankTypeParameters_agrees sound names.2).bind fun generic types => ?_
  have past : k + 1 ≤ generic.pos := Nat.le_trans stars.1 (Nat.le_trans names.1 types.1)
  refine .ite (fun opens => ?_) fun _ => .pure ⟨after, within⟩
  refine (signature_agrees sound walker opens (by omega)).bind fun typed signs => ?_
  have past : i + 1 ≤ typed.pos := Nat.le_trans (by omega) signs.1
  refine .ite (fun _ => .pure ⟨past, signs.2⟩) fun _ => ?_
  obtain ⟨same, after⟩ := blankWith_eq sound signs.2 start ";"
  exact .of_eq same (after.trans past)

theorem exportDeclaration_agrees (s : State) (inside : i < p.tokens.size) :
    Agrees p.source (exportDeclaration p w' i s) (p.exportDeclaration w i s) (From p (i + 1)) := by
  obtain ⟨same, later, within⟩ := moduleStatementEnd_eq sound (k := i + 1) inside
  have next : i < i + 1 := Nat.lt_succ_self i
  have function (k resume : Nat) (word : p.isWord k "function" = true) (later : i ≤ k) (after : i < resume)
      (within : resume ≤ p.tokens.size) :
      Agrees p.source (functionDeclaration p w' k i resume s) (p.functionDeclaration w k i resume s)
        (From p (i + 1)) :=
    functionDeclaration_agrees sound walker i s later (p.lt_size_of_is word) after within
  rw [exportDeclaration, Program.exportDeclaration, sound.reach_eq (Nat.le_of_lt inside), pure_bind]
  refine .ite (fun _ => fail_agrees sound ..) fun _ => .ite (fun _ => fail_agrees sound ..) fun _ => ?_
  refine .ite (fun _ => ?_) fun _ => .ite (fun list => ?_) fun _ => .ite (fun _ => ?_) fun _ => ?_
  · rw [same, pure_bind]
    exact .of_eq (blankFrom_eq ..) ⟨later, within⟩
  · rw [blankTypeList_eq sound list, pure_bind, same, pure_bind]
    exact .pure ⟨later, within⟩
  · rw [same, pure_bind]
    exact .pure ⟨later, within⟩
  refine .ite (fun default => ?_) fun _ => ?_
  · have further : i + 1 + 1 ≤ p.tokens.size := p.lt_size_of_is default
    refine .ite (fun _ => ?_) fun _ => .ite (fun word => ?_) fun _ => .ite (fun word => ?_) fun _ => ?_
    · exact typeStatement_agrees sound walker i s (by omega) further (by omega) further
    · exact function _ _ word (by omega) next inside
    · rw [Bool.and_eq_true] at word
      exact function _ _ word.2 (by omega) next inside
    · exact .pure ⟨Nat.le_succ _, further⟩
  refine .ite (fun word => function _ _ word (by omega) next inside) fun _ => ?_
  refine .ite (fun word => ?_) fun _ => .ite (fun _ => ?_) fun _ => .ite (fun _ => ?_) fun _ => ?_
  · rw [Bool.and_eq_true] at word
    exact function _ _ word.2 (by omega) next inside
  · exact (enumeration_agrees sound (i + 1) s inside).weaken fun _ past => past.trans (Nat.le_succ _)
  · exact typeStatement_agrees sound walker i s (Nat.le_succ i) inside next inside
  · exact .pure ⟨Nat.le_refl _, inside⟩

/-! ### Variables -/

theorem walkVariable_agrees {s : State} {limit : Nat} (within : limit ≤ p.tokens.size) (later : i ≤ s.pos)
    (le : s.pos ≤ p.tokens.size) :
    Agrees p.source (walkVariable p w' limit s) (p.walkVariable w limit s) (From p (s.pos + 1)) := by
  rw [walkVariable, Program.walkVariable]
  refine (walkBinding_agrees sound walker later le).bind fun bound binds => ?_
  obtain ⟨same, marks⟩ := blankMarker_eq sound binds.2 "!"
  rw [same, pure_bind]
  refine (blankAnnotation_agrees sound marks.2).bind fun typed types => ?_
  have past : s.pos + 1 ≤ typed.pos := Nat.le_trans binds.1 (Nat.le_trans marks.1 types.1)
  exact (walkValue_agrees sound walker _ within (by omega) types.2).weaken fun _ after => after.trans past

theorem walkVariables_agrees {s : State} {limit : Nat} (within : limit ≤ p.tokens.size) (later : i ≤ s.pos)
    (le : s.pos ≤ p.tokens.size) :
    Agrees p.source (walkVariables p w' limit s) (p.walkVariables w limit s) (From p s.pos) := by
  rw [walkVariables, Program.walkVariables, sound.reach_eq le, pure_bind]
  refine .dite (fun binds => ?_) fun _ => .pure ⟨Nat.le_refl _, le⟩
  have inside := lt_size_of_bindsAt binds
  have first := walkVariable_agrees sound walker within later le
  cases found : p.walkVariable w limit s with
  | error e =>
    rw [found] at first
    exact first.error_bind
  | ok next =>
    rw [found] at first
    refine first.ok_bind fun after => ?_
    have forward : s.pos < next.pos := after.1
    rw [sound.reach_eq after.2, pure_bind]
    refine .ite (fun more => ?_) fun _ => .pure (after.trans (Nat.le_succ _))
    rw [Bool.and_eq_true] at more
    have past : s.pos < (next.skip 1).pos := Nat.lt_succ_of_lt forward
    rw [if_pos (Nat.lt_succ_of_lt forward), past_eq_self past]
    have rest := walkVariables_agrees (s := next.skip 1) within (Nat.le_trans later (Nat.le_of_lt past))
      (p.lt_size_of_is more.1)
    exact rest.weaken fun _ last => last.trans (Nat.le_of_lt past)
termination_by p.tokens.size - s.pos

theorem variableDeclaration_agrees {limit : Nat} (s : State) (within : limit ≤ p.tokens.size)
    (inside : i < p.tokens.size) :
    Agrees p.source (variableDeclaration p w' i limit s) (p.variableDeclaration w i limit s) (From p (i + 1)) :=
  walkVariables_agrees sound walker (s := s.goto (i + 1)) within (Nat.le_succ i) inside

end

end ModuleLinker.Checked
