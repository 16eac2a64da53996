import Mathlib
import ModuleLinker.Erase.TypeEnd

/-!
# Where a type ends, without the bounds

The answers of the type skipper carry the proof that they lie further on. Here are the bare positions
(`typeStop?` and its companions) with one equation for each, in which the bounds are gone.
-/

set_option autoImplicit false

namespace ModuleLinker.Erase.Program

variable (p : Program)

/-- The position after the `>` that closes a type argument list. -/
def angleStop? (depth k : Nat) : Option Nat := (p.angleFrom? depth k).map (·.1)

/-- The position after the further segments of a qualified name. -/
def qualifiersStop (k : Nat) : Nat := (p.qualifiersEnd k).1

/-- The position after a qualified name. -/
def entityStop? (i : Nat) : Option Nat := if p.isName i then some (p.qualifiersStop (i + 1)) else none

/-- The position after type arguments, where there are any. -/
def argumentsStop? (sameLine : Bool) (k : Nat) : Option Nat :=
  if p.isPunct k "<" && !(sameLine && p.newlineBefore k) then p.angleStop? 0 (k + 1) else some k

/-- The position after the brackets of array types and indexed access types. -/
def indexesStop (k : Nat) : Nat := (p.indexesEnd k).1

/-- The position after the type at a position. -/
def typeStop? (i : Nat) : Option Nat := (p.typeEnd? i).map (·.1)

/-- The position after the union or intersection at a position. -/
def unionStop? (i : Nat) : Option Nat := (p.unionEnd? i).map (·.1)

/-- The position after the further operands of a union or intersection. -/
def operandsStop? (k : Nat) : Option Nat := (p.operandsEnd? k).map (·.1)

/-- The position after the type operand at a position. -/
def operandStop? (i : Nat) : Option Nat := (p.operandEnd? i).map (·.1)

/-- The position after a type operand that starts with a name. -/
def namedTypeStop? (i : Nat) : Option Nat := (p.namedTypeEnd? i).map (·.1)

/-- The position after a function type. -/
def functionTypeStop? (i : Nat) : Option Nat := (p.functionTypeEnd? i).map (·.1)

/-- The position after the parameters, the arrow and the result of a function type. -/
def signatureStop? (i : Nat) : Option Nat := (p.signatureEnd? i).map (·.1)

variable {p}

theorem map_weaken {i j : Nat} (h : i ≤ j) (k : Option (After j)) :
    (k.map (·.weaken h)).map (·.1) = k.map (·.1) := by
  cases k <;> rfl

theorem map_dite {i : Nat} {c : Prop} [Decidable c] {yes : c → Option (After i)}
    {no : ¬ c → Option (After i)} {a b : Option Nat} (ifSo : ∀ h, (yes h).map (·.1) = a)
    (ifNot : ∀ h, (no h).map (·.1) = b) : (dite c yes no).map (·.1) = if c then a else b := by
  split
  case isTrue h => exact ifSo h
  case isFalse h => exact ifNot h

theorem map_ite {i : Nat} {c : Prop} [Decidable c] {yes no : Option (After i)} {a b : Option Nat}
    (ifSo : yes.map (·.1) = a) (ifNot : no.map (·.1) = b) :
    (if c then yes else no).map (·.1) = if c then a else b :=
  map_dite (fun _ => ifSo) fun _ => ifNot

theorem angleStop?_eq (depth k : Nat) : p.angleStop? depth k = p.tokens[k]?.bind fun t =>
    if t.isPunct "<" then p.angleStop? (depth + 1) (k + 1)
    else if t.isPunct ">" then
      if depth = 0 then some (k + 1) else p.angleStop? (depth - 1) (k + 1)
    else if t.isOpener then p.angleStop? depth (p.close k + 1)
    else if t.kind == .regex || (t.kind == .punct && !typeArgumentPuncts.contains t.text) then none
    else p.angleStop? depth (k + 1) := by
  unfold angleStop?
  rw [angleFrom?]
  split
  case h_1 none =>
    rw [none]
    rfl
  case h_2 t found =>
    conv_rhs => rw [found, Option.bind_some]
    split
    · exact map_weaken (by omega) _
    split
    · split
      · rfl
      · exact map_weaken (by omega) _
    split
    · exact map_weaken (by have := p.lt_close k; omega) _
    split
    · rfl
    · exact map_weaken (by omega) _

theorem qualifiersStop_eq (k : Nat) : p.qualifiersStop k =
    if p.isPunct k "." ∧ p.isName (k + 1) then p.qualifiersStop (k + 2) else k := by
  unfold qualifiersStop
  rw [qualifiersEnd]
  split <;> rfl

theorem indexesStop_eq (k : Nat) : p.indexesStop k =
    if p.isPunct k "[" ∧ !p.newlineBefore k then p.indexesStop (p.close k + 1) else k := by
  unfold indexesStop
  rw [indexesEnd]
  split <;> rfl

theorem typeStop?_eq (i : Nat) : p.typeStop? i = (p.unionStop? i).bind fun k =>
    if p.isWord k "extends" ∧ !p.newlineBefore k then
      (p.unionStop? (k + 1)).elim (some k) fun check =>
        if p.isPunct check "?" then
          (p.typeStop? (check + 1)).bind fun positive =>
            if p.isPunct positive ":" then p.typeStop? (positive + 1) else some k
        else some k
    else some k := by
  unfold typeStop? unionStop?
  rw [typeEnd?]
  cases p.unionEnd? i with
  | none => rfl
  | some k =>
    dsimp only [Option.map_some, Option.bind_some]
    split
    case isFalse => rfl
    case isTrue =>
    cases p.unionEnd? (k.1 + 1) with
    | none => rfl
    | some check =>
      dsimp only [Option.map_some, Option.elim_some]
      split
      case isFalse => rfl
      case isTrue =>
      cases p.typeEnd? (check.1 + 1) with
      | none => rfl
      | some positive =>
        dsimp only [Option.map_some, Option.bind_some]
        split
        · exact map_weaken (by omega) _
        · rfl

theorem unionStop?_eq (i : Nat) : p.unionStop? i =
    if p.isPunct i "|" || p.isPunct i "&" then (p.operandStop? (i + 1)).bind p.operandsStop?
    else (p.operandStop? i).bind p.operandsStop? := by
  unfold unionStop? operandStop? operandsStop?
  rw [unionEnd?]
  split
  all_goals
    cases p.operandEnd? _ with
    | none => rfl
    | some k =>
      dsimp only [Option.map_some, Option.bind_some]
      cases p.operandsEnd? k.1 <;> rfl

theorem operandsStop?_eq (k : Nat) : p.operandsStop? k =
    if p.isPunct k "|" || p.isPunct k "&" then (p.operandStop? (k + 1)).bind p.operandsStop?
    else some k := by
  unfold operandStop? operandsStop?
  rw [operandsEnd?]
  split
  case isFalse => rfl
  case isTrue =>
    cases p.operandEnd? (k + 1) with
    | none => rfl
    | some next =>
      dsimp only [Option.map_some, Option.bind_some]
      cases p.operandsEnd? next.1 <;> rfl

theorem operandStop?_eq (i : Nat) : p.operandStop? i =
    if p.isOneOf i typeModifiers ∧ p.startsType (i + 1) then p.operandStop? (i + 1)
    else if p.isWord i "infer" && p.isName (i + 1) then some (p.indexesStop (i + 2))
    else if p.isWord i "abstract" && p.isWord (i + 1) "new" then
      if p.isPunct (i + 2) "(" || p.isPunct (i + 2) "<" then p.functionTypeStop? (i + 2)
      else p.namedTypeStop? (i + 1)
    else if p.isWord i "new" ∧ (p.isPunct (i + 1) "(" || p.isPunct (i + 1) "<") then
      p.functionTypeStop? (i + 1)
    else if p.isWord i "asserts" ∧ p.isName (i + 1) ∧ !p.newlineBefore (i + 1) then
      if p.isWord (i + 2) "is" then p.typeStop? (i + 3) else some (i + 2)
    else if p.isPunct i "(" then
      if p.isPunct (p.close i + 1) "=>" then p.typeStop? (p.close i + 2)
      else some (p.indexesStop (p.close i + 1))
    else if p.isPunct i "<" then p.functionTypeStop? i
    else if p.isPunct i openBrace || p.isPunct i "[" then some (p.indexesStop (p.close i + 1))
    else if p.isPunct i "-" && p.kind? (i + 1) == some .number then some (p.indexesStop (i + 2))
    else if p.isName i then p.namedTypeStop? i
    else if p.is i fun t => t.kind == .string || t.kind == .template || t.kind == .number then
      some (p.indexesStop (i + 1))
    else none := by
  unfold operandStop? functionTypeStop? namedTypeStop? typeStop?
  rw [operandEnd?]
  refine map_dite (fun _ => map_weaken (by omega) _) fun _ => ?_
  refine map_ite rfl ?_
  refine map_ite (map_dite (fun _ => map_weaken (by omega) _) fun _ => map_weaken (by omega) _) ?_
  refine map_dite (fun _ => map_weaken (by omega) _) fun _ => ?_
  refine map_dite (fun _ => map_ite (map_weaken (by omega) _) rfl) fun _ => ?_
  refine map_dite (fun _ => map_ite (map_weaken (by have := p.lt_close i; omega) _) rfl) fun _ => ?_
  exact map_ite rfl (map_ite rfl (map_ite rfl (map_ite rfl (map_ite rfl rfl))))

theorem entityStop?_eq_map (i : Nat) : p.entityStop? i = (p.entityEnd? i).map (·.1) := by
  unfold entityStop? entityEnd?
  split <;> rfl

theorem argumentsStop?_eq_map (sameLine : Bool) (k : Nat) :
    p.argumentsStop? sameLine k = (p.argumentsEnd? sameLine k).map (·.1) := by
  unfold argumentsStop? argumentsEnd? angleStop? angleEnd?
  split
  · cases p.angleFrom? 0 (k + 1) <;> rfl
  · rfl

theorem namedTypeStop?_eq (i : Nat) : p.namedTypeStop? i =
    if p.isWord i "typeof" then
      (p.entityStop? (i + 1)).bind fun k => (p.argumentsStop? false k).map p.indexesStop
    else if p.isWord i "import" && p.isPunct (i + 1) "(" then
      (p.argumentsStop? false (p.qualifiersStop (p.close (i + 1) + 1))).map p.indexesStop
    else
      (p.entityStop? i).bind fun k => (p.argumentsStop? true k).bind fun j =>
        if p.isWord j "is" ∧ !p.newlineBefore j then p.typeStop? (j + 1)
        else some (p.indexesStop j) := by
  unfold namedTypeStop? typeStop?
  rw [namedTypeEnd?]
  refine map_ite ?_ (map_ite ?_ ?_)
  · rw [entityStop?_eq_map]
    cases p.entityEnd? (i + 1) with
    | none => rfl
    | some k =>
      dsimp only [Option.map_some, Option.bind_some]
      rw [argumentsStop?_eq_map]
      cases p.argumentsEnd? false k.1 <;> rfl
  · rw [argumentsStop?_eq_map]
    unfold qualifiersStop
    dsimp only
    cases p.argumentsEnd? false _ <;> rfl
  · rw [entityStop?_eq_map]
    cases p.entityEnd? i with
    | none => rfl
    | some k =>
      dsimp only [Option.map_some, Option.bind_some]
      rw [argumentsStop?_eq_map]
      cases p.argumentsEnd? true k.1 with
      | none => rfl
      | some j => exact map_dite (fun _ => map_weaken (by omega) _) fun _ => rfl

theorem functionTypeStop?_eq (i : Nat) : p.functionTypeStop? i =
    if p.isPunct i "<" then (p.angleStop? 0 (i + 1)).bind p.signatureStop?
    else p.signatureStop? i := by
  unfold functionTypeStop? signatureStop? angleStop?
  rw [functionTypeEnd?]
  refine map_dite (fun _ => ?_) fun _ => rfl
  rw [angleEnd?]
  cases p.angleFrom? 0 (i + 1) with
  | none => rfl
  | some k => exact map_weaken (by omega) _

theorem signatureStop?_eq (i : Nat) : p.signatureStop? i =
    if p.isPunct i "(" then
      if p.isPunct (p.close i + 1) "=>" then p.typeStop? (p.close i + 2) else none
    else none := by
  unfold signatureStop? typeStop?
  rw [signatureEnd?]
  exact map_dite (fun _ => map_ite (map_weaken (by have := p.lt_close i; omega) _) rfl) fun _ => rfl

/-! ## Answers lie further on -/

theorem lt_of_map_eq_some {i k : Nat} {x : Option (After i)} (found : x.map (·.1) = some k) :
    i < k := by
  obtain ⟨after, -, rfl⟩ := Option.map_eq_some_iff.mp found
  exact after.2

theorem lt_angleStop? {depth k j : Nat} (found : p.angleStop? depth k = some j) : k < j :=
  lt_of_map_eq_some found

theorem le_qualifiersStop (k : Nat) : k ≤ p.qualifiersStop k := (p.qualifiersEnd k).2

theorem lt_entityStop? {i j : Nat} (found : p.entityStop? i = some j) : i < j := by
  rw [entityStop?_eq_map] at found
  exact lt_of_map_eq_some found

theorem le_argumentsStop? {sameLine : Bool} {k j : Nat}
    (found : p.argumentsStop? sameLine k = some j) : k ≤ j := by
  rw [argumentsStop?_eq_map] at found
  obtain ⟨after, -, rfl⟩ := Option.map_eq_some_iff.mp found
  exact after.2

theorem lt_typeStop? {i j : Nat} (found : p.typeStop? i = some j) : i < j :=
  lt_of_map_eq_some found

theorem lt_unionStop? {i j : Nat} (found : p.unionStop? i = some j) : i < j :=
  lt_of_map_eq_some found

theorem lt_operandStop? {i j : Nat} (found : p.operandStop? i = some j) : i < j :=
  lt_of_map_eq_some found

end ModuleLinker.Erase.Program
