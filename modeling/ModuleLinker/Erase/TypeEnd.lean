import ModuleLinker.Erase.Program

/-!
# Where a type ends

From a position where type syntax is expected, the position right after it, or `none` where no type
stands there. A type is a union of operands, possibly conditional; an operand is decided by its
first one or two tokens. Every answer lies after the position asked about, which is part of the
answer's type, so that the recursion is seen to end.
-/

set_option autoImplicit false

namespace ModuleLinker.Erase.Program

variable (p : Program)

/-- A position after `i`. -/
abbrev After (i : Nat) := { j : Nat // i < j }

/-- A position after `j` is one after an earlier `i`. -/
def After.weaken {i j : Nat} (h : i ≤ j) (k : After j) : After i := ⟨k.1, by omega⟩

/-- The punctuators that may stand in a type argument list besides brackets. -/
def typeArgumentPuncts : List String := [",", ".", "|", "&", "?", ":", "-", "...", "=", "=>"]

/-- The position after the `>` that closes a type argument list in which `depth` further lists are
open at position `k`; `none` where a token cannot belong to such a list, which tells comparisons
from type arguments. -/
def angleFrom? (depth k : Nat) : Option (After k) :=
  match h : p.tokens[k]? with
  | none => none
  | some t =>
    have inside : k < p.tokens.size := (Array.getElem?_eq_some_iff.1 h).1
    if t.isPunct "<" then (angleFrom? (depth + 1) (k + 1)).map (·.weaken (by omega))
    else if t.isPunct ">" then
      if depth = 0 then some ⟨k + 1, by omega⟩
      else (angleFrom? (depth - 1) (k + 1)).map (·.weaken (by omega))
    else if t.isOpener then
      have := p.lt_close k
      (angleFrom? depth (p.close k + 1)).map (·.weaken (by omega))
    else if t.kind == .regex || (t.kind == .punct && !typeArgumentPuncts.contains t.text) then none
    else (angleFrom? depth (k + 1)).map (·.weaken (by omega))
termination_by p.tokens.size - k

/-- The position after the type argument or parameter list whose `<` stands at a position. -/
def angleEnd? (i : Nat) : Option (After i) := (p.angleFrom? 0 (i + 1)).map (·.weaken (by omega))

/-- The position after the further segments `.name` of a qualified name. -/
def qualifiersEnd (k : Nat) : { j : Nat // k ≤ j } :=
  if h : p.isPunct k "." ∧ p.isName (k + 1) then
    have inside : k + 1 < p.tokens.size := p.lt_size_of_is h.2
    let ⟨j, hj⟩ := qualifiersEnd (k + 2)
    ⟨j, by omega⟩
  else ⟨k, by omega⟩
termination_by p.tokens.size - k

/-- The position after a qualified name. -/
def entityEnd? (i : Nat) : Option (After i) :=
  if p.isName i then
    let ⟨j, hj⟩ := p.qualifiersEnd (i + 1)
    some ⟨j, by omega⟩
  else none

/-- The position after type arguments, where there are any. -/
def argumentsEnd? (sameLine : Bool) (k : Nat) : Option { j : Nat // k ≤ j } :=
  if p.isPunct k "<" && !(sameLine && p.newlineBefore k) then
    (p.angleEnd? k).map fun ⟨j, hj⟩ => ⟨j, by omega⟩
  else some ⟨k, by omega⟩

/-- The position after the brackets of array types and indexed access types, each on the line of the
token before it. -/
def indexesEnd (k : Nat) : { j : Nat // k ≤ j } :=
  if h : p.isPunct k "[" ∧ !p.newlineBefore k then
    have inside : k < p.tokens.size := p.lt_size_of_is h.1
    have := p.lt_close k
    let ⟨j, hj⟩ := indexesEnd (p.close k + 1)
    ⟨j, by omega⟩
  else ⟨k, by omega⟩
termination_by p.tokens.size - k

/-- The same answer after the brackets that follow a type operand. -/
def indexed {i : Nat} (k : After i) : After i :=
  let ⟨j, hj⟩ := p.indexesEnd k.1
  ⟨j, by omega⟩

/-- The words that may stand in front of a type operand. -/
def typeModifiers : List String := ["keyof", "unique", "readonly"]

/-- Whether a type operand can start at a token. -/
def startsType (i : Nat) : Bool :=
  p.is i fun t => t.kind != .punct ||
    t.isOpener || t.text == "<" || t.text == "-"

mutual

/-- The position after the type at a position. -/
def typeEnd? (i : Nat) : Option (After i) :=
  match unionEnd? i with
  | none => none
  | some ⟨k, hk⟩ =>
    if h : p.isWord k "extends" ∧ !p.newlineBefore k then
      have inside : k < p.tokens.size := p.lt_size_of_is h.1
      match unionEnd? (k + 1) with
      | none => some ⟨k, hk⟩
      | some ⟨check, _⟩ =>
        if p.isPunct check "?" then
          match typeEnd? (check + 1) with
          | none => none
          | some ⟨positive, _⟩ =>
            if p.isPunct positive ":" then
              (typeEnd? (positive + 1)).map (·.weaken (by omega))
            else some ⟨k, hk⟩
        else some ⟨k, hk⟩
    else some ⟨k, hk⟩
termination_by 6 * (p.tokens.size - i) + 5

/-- The position after the union or intersection at a position. -/
def unionEnd? (i : Nat) : Option (After i) :=
  if p.isPunct i "|" || p.isPunct i "&" then
    match operandEnd? (i + 1) with
    | none => none
    | some ⟨k, _⟩ => (operandsEnd? k).map fun ⟨j, _⟩ => ⟨j, by omega⟩
  else
    match operandEnd? i with
    | none => none
    | some ⟨k, _⟩ => (operandsEnd? k).map fun ⟨j, _⟩ => ⟨j, by omega⟩
termination_by 6 * (p.tokens.size - i) + 4

/-- The position after the further operands of a union or intersection. -/
def operandsEnd? (k : Nat) : Option { j : Nat // k ≤ j } :=
  if h : p.isPunct k "|" || p.isPunct k "&" then
    have inside : k < p.tokens.size := by
      rcases Bool.or_eq_true _ _ |>.mp h with h | h <;> exact p.lt_size_of_is h
    match operandEnd? (k + 1) with
    | none => none
    | some ⟨next, _⟩ => (operandsEnd? next).map fun ⟨j, _⟩ => ⟨j, by omega⟩
  else some ⟨k, by omega⟩
termination_by 6 * (p.tokens.size - k) + 3

/-- The position after the type operand at a position. -/
def operandEnd? (i : Nat) : Option (After i) :=
  if h : p.isOneOf i typeModifiers ∧ p.startsType (i + 1) then
    have inside : i < p.tokens.size := p.lt_size_of_is h.1
    (operandEnd? (i + 1)).map (·.weaken (by omega))
  else if p.isWord i "infer" && p.isName (i + 1) then
    some (p.indexed ⟨i + 2, by omega⟩)
  else if p.isWord i "abstract" && p.isWord (i + 1) "new" then
    if h : p.isPunct (i + 2) "(" || p.isPunct (i + 2) "<" then
      have inside : i + 2 < p.tokens.size := by
        rcases Bool.or_eq_true _ _ |>.mp h with h | h <;> exact p.lt_size_of_is h
      (functionTypeEnd? (i + 2)).map (·.weaken (by omega))
    else (namedTypeEnd? (i + 1)).map (·.weaken (by omega))
  else if h : p.isWord i "new" ∧ (p.isPunct (i + 1) "(" || p.isPunct (i + 1) "<") then
    have inside : i < p.tokens.size := p.lt_size_of_is h.1
    (functionTypeEnd? (i + 1)).map (·.weaken (by omega))
  else if h : p.isWord i "asserts" ∧ p.isName (i + 1) ∧ !p.newlineBefore (i + 1) then
    have inside : i < p.tokens.size := p.lt_size_of_is h.1
    if p.isWord (i + 2) "is" then (typeEnd? (i + 3)).map (·.weaken (by omega))
    else some ⟨i + 2, by omega⟩
  else if h : p.isPunct i "(" then
    have inside : i < p.tokens.size := p.lt_size_of_is h
    have := p.lt_close i
    if p.isPunct (p.close i + 1) "=>" then
      (typeEnd? (p.close i + 2)).map (·.weaken (by omega))
    else some (p.indexed ⟨p.close i + 1, by omega⟩)
  else if p.isPunct i "<" then functionTypeEnd? i
  else if p.isPunct i openBrace || p.isPunct i "[" then
    have := p.lt_close i
    some (p.indexed ⟨p.close i + 1, by omega⟩)
  else if p.isPunct i "-" && p.kind? (i + 1) == some .number then
    some (p.indexed ⟨i + 2, by omega⟩)
  else if p.isName i then namedTypeEnd? i
  else if p.is i fun t => t.kind == .string || t.kind == .template || t.kind == .number then
    some (p.indexed ⟨i + 1, Nat.lt_add_one i⟩)
  else none
termination_by 6 * (p.tokens.size - i) + 2

/-- The position after a type operand that starts with a name: a type query, an imported type, a
type reference or a type predicate. -/
def namedTypeEnd? (i : Nat) : Option (After i) :=
  if p.isWord i "typeof" then
    match p.entityEnd? (i + 1) with
    | none => none
    | some ⟨k, _⟩ => (p.argumentsEnd? false k).map fun ⟨j, _⟩ => p.indexed ⟨j, by omega⟩
  else if p.isWord i "import" && p.isPunct (i + 1) "(" then
    have := p.lt_close (i + 1)
    let ⟨k, _⟩ := p.qualifiersEnd (p.close (i + 1) + 1)
    (p.argumentsEnd? false k).map fun ⟨j, _⟩ => p.indexed ⟨j, by omega⟩
  else
    match p.entityEnd? i with
    | none => none
    | some ⟨k, _⟩ =>
      match p.argumentsEnd? true k with
      | none => none
      | some ⟨j, _⟩ =>
        if h : p.isWord j "is" ∧ !p.newlineBefore j then
          have inside : j < p.tokens.size := p.lt_size_of_is h.1
          (typeEnd? (j + 1)).map (·.weaken (by omega))
        else some (p.indexed ⟨j, by omega⟩)
termination_by 6 * (p.tokens.size - i)

/-- The position after a function type, from its type parameters or its parameters on. -/
def functionTypeEnd? (i : Nat) : Option (After i) :=
  if h : p.isPunct i "<" then
    match p.angleEnd? i with
    | none => none
    | some ⟨k, _⟩ => (signatureEnd? k).map (·.weaken (by omega))
  else signatureEnd? i
termination_by 6 * (p.tokens.size - i) + 1

/-- The position after the parameters, the arrow and the result of a function type. -/
def signatureEnd? (i : Nat) : Option (After i) :=
  if h : p.isPunct i "(" then
    have inside : i < p.tokens.size := p.lt_size_of_is h
    have := p.lt_close i
    if p.isPunct (p.close i + 1) "=>" then
      (typeEnd? (p.close i + 2)).map (·.weaken (by omega))
    else none
  else none
termination_by 6 * (p.tokens.size - i)

end

end ModuleLinker.Erase.Program
