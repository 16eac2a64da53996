import ModuleLinker.Proofs.Checked.Imports
import ModuleLinker.Proofs.Erase.Program
import ModuleLinker.Proofs.Source.Brackets

/-!
# Where a type ends, with checks

The type skipper, in which only brackets are asked for their partners, and every position that it comes
to is a machine word with room to look ahead. In a program that is read from a text it gives the answers
of the skipper without checks, and no answer lies behind the last token (`Finds`).
-/

set_option autoImplicit false

namespace ModuleLinker

open Erase Erase.Program

/-! ## Programs that are read from a text -/

/-- Whether the tokens of a program lie in its text, and its opening brackets have partners. -/
structure Erase.Program.IsSound (p : Program) : Prop where
  /-- The tokens are pieces of the text. -/
  read : p.IsRead
  /-- An opening bracket has a partner further on. -/
  matched : ∀ i t, p.tokens[i]? = some t → t.isOpener = true →
    ∃ j, p.partners[i]? = some (some j) ∧ i < j ∧ j < p.tokens.size

namespace Checked

/-- The program of a source text. -/
def ofSource (source : List Char) : Checked Program := do
  let tokens ← scan source
  let partners ← matchBrackets tokens
  pure { source, tokens, partners }

theorem ofSource_eq (source : List Char) :
    ofSource source = ofScan (Program.ofSource source) := by
  refine bind_eq_ofScan (scan_eq source) fun tokens _ => ?_
  exact bind_eq_ofScan (matchBrackets_eq tokens).1 fun partners _ => rfl

theorem isSound_of_ofSource {source : List Char} {p : Program}
    (read : Program.ofSource source = .ok p) : p.IsSound := by
  refine ⟨isRead_of_ofSource read, ?_⟩
  obtain ⟨tokens, -, read⟩ := bind_eq_ok.mp read
  obtain ⟨partners, pairs, read⟩ := bind_eq_ok.mp read
  cases read
  exact (matchBrackets_eq tokens).2 partners pairs

/-- The position of the partner of the opening bracket at a position. -/
def partner (p : Program) (i : Nat) : Checked (After i) :=
  match p.partners[i]? with
  | none => crash (.index i)
  | some none => crash (.partner i)
  | some (some j) => do
    reach p.source j
    if later : i < j then pure ⟨j, later⟩ else crash (.standstill i)

end Checked

namespace Erase.Program.IsSound

open Checked

variable {p : Program} (sound : p.IsSound)
include sound

theorem size_le : p.tokens.size ≤ p.source.length := by
  rw [← Array.length_toList]
  exact ArePieces.length_le sound.read

theorem reach_eq {i : Nat} (le : i ≤ p.tokens.size) : reach p.source i = pure () :=
  Checked.reach_eq (Nat.le_succ_of_le (Nat.le_trans le sound.size_le))

/-- An opening bracket closes at a token behind it, which its partner is. -/
theorem partner_eq {i : Nat} {t : Token} (found : p.tokens[i]? = some t) (isOpener : t.isOpener = true) :
    partner p i = pure ⟨p.close i, p.lt_close i⟩ ∧ p.close i < p.tokens.size := by
  obtain ⟨j, pair, later, inside⟩ := sound.matched i t found isOpener
  have close : p.close i = j := by
    unfold Program.close
    rw [pair]
    exact Nat.max_eq_left later
  obtain rfl : p.close i = j := close
  refine ⟨?_, inside⟩
  unfold partner
  rw [pair]
  dsimp only
  rw [sound.reach_eq (Nat.le_of_lt inside), pure_bind, dif_pos later]

theorem partner_punct {i : Nat} {text : String} (here : p.isPunct i text = true)
    (among : text ∈ openers) :
    partner p i = pure ⟨p.close i, p.lt_close i⟩ ∧ p.close i < p.tokens.size := by
  obtain ⟨t, found, punct⟩ := (Option.any_eq_true ..).mp here
  refine sound.partner_eq found ?_
  rw [Token.isPunct, Bool.and_eq_true, beq_iff_eq, beq_iff_eq] at punct
  have same : t.symbol = .mark text := congrArg₂ Symbol.mk punct.1 punct.2
  exact (Token.isOpener_of_mark among same).1

end Erase.Program.IsSound

namespace Checked

/-! ## Positions further on -/

theorem lt_add_two (i : Nat) : i < i + 2 := by omega

theorem le_add_two (i : Nat) : i ≤ i + 2 := by omega

theorem le_add_three (i : Nat) : i ≤ i + 3 := by omega

theorem le_of_add_two_le {i j : Nat} (later : i + 2 ≤ j) : i ≤ j := by omega

theorem le_succ_of_lt {i j : Nat} (later : i < j) : i ≤ j + 1 := by omega

theorem le_add_two_of_lt {i j : Nat} (later : i < j) : i ≤ j + 2 := by omega

theorem le_of_lt_of_succ_le {i j k : Nat} (later : i < j) (past : j + 1 ≤ k) : i ≤ k := by omega

theorem le_succ_of_lt_of_le {i j k : Nat} (later : i < j) (past : j ≤ k) : i ≤ k + 1 := by omega

theorem le_of_succ_lt_of_le {i j k : Nat} (later : i + 1 < j) (past : j ≤ k) : i ≤ k := by omega

theorem lt_of_succ_lt_of_le {i j k : Nat} (later : i + 1 < j) (past : j ≤ k) : i < k := by omega

theorem lt_of_succ_lt_of_succ_le {i j k l : Nat} (later : i + 1 < j) (past : j + 1 ≤ k) (last : k ≤ l) :
    i < l := by
  omega

section

variable (p : Program)

/-! ## Type arguments and names -/

/-- The position after the `>` that closes the innermost of `depth` open type argument lists and of all
around it, from position `k` on. -/
def angleFrom? (depth k : Nat) : Checked (Option (After k)) := do
  reach p.source k
  match h : p.tokens[k]? with
  | none => pure none
  | some t =>
    have _inside : k < p.tokens.size := (Array.getElem?_eq_some_iff.1 h).1
    if t.isPunct "<" then do
      let stop ← angleFrom? (← word p.source (depth + 1)) (k + 1)
      pure (stop.map (·.weaken (Nat.le_succ k)))
    else if t.isPunct ">" then do
      let outer ← difference depth 1
      if outer = 0 then pure (some ⟨k + 1, Nat.lt_succ_self k⟩)
      else do
        let stop ← angleFrom? outer (k + 1)
        pure (stop.map (·.weaken (Nat.le_succ k)))
    else if t.isOpener then do
      let ⟨close, later⟩ ← partner p k
      let stop ← angleFrom? depth (close + 1)
      pure (stop.map (·.weaken (le_succ_of_lt later)))
    else if t.kind == .regex || (t.kind == .punct && !typeArgumentPuncts.contains t.text) then pure none
    else do
      let stop ← angleFrom? depth (k + 1)
      pure (stop.map (·.weaken (Nat.le_succ k)))
termination_by p.tokens.size - k

/-- The position after the type argument or parameter list whose `<` stands at a position. -/
def angleEnd? (i : Nat) : Checked (Option (After i)) := angleFrom? p 0 i

/-- The position after the further segments `.name` of a qualified name. -/
def qualifiersEnd (k : Nat) : Checked { j : Nat // k ≤ j } := do
  reach p.source k
  if h : p.isPunct k "." ∧ p.isName (k + 1) then do
    have _inside : k + 1 < p.tokens.size := p.lt_size_of_is h.2
    let ⟨j, hj⟩ ← qualifiersEnd (k + 2)
    pure ⟨j, le_of_add_two_le hj⟩
  else pure ⟨k, Nat.le_refl k⟩
termination_by p.tokens.size - k

/-- The position after a qualified name. -/
def entityEnd? (i : Nat) : Checked (Option (After i)) := do
  reach p.source i
  if p.isName i then do
    let ⟨j, hj⟩ ← qualifiersEnd p (i + 1)
    pure (some ⟨j, hj⟩)
  else pure none

/-- The position after type arguments, where there are any. -/
def argumentsEnd? (sameLine : Bool) (k : Nat) : Checked (Option { j : Nat // k ≤ j }) :=
  if p.isPunct k "<" && !(sameLine && p.newlineBefore k) then do
    let stop ← angleEnd? p k
    pure (stop.map fun ⟨j, hj⟩ => ⟨j, Nat.le_of_lt hj⟩)
  else pure (some ⟨k, Nat.le_refl k⟩)

/-- The position after the brackets of array types and indexed access types. -/
def indexesEnd (k : Nat) : Checked { j : Nat // k ≤ j } := do
  reach p.source k
  if h : p.isPunct k "[" ∧ !p.newlineBefore k then do
    have _inside : k < p.tokens.size := p.lt_size_of_is h.1
    let ⟨close, later⟩ ← partner p k
    let ⟨j, hj⟩ ← indexesEnd (close + 1)
    pure ⟨j, le_of_lt_of_succ_le later hj⟩
  else pure ⟨k, Nat.le_refl k⟩
termination_by p.tokens.size - k

/-- The same answer after the brackets that follow a type operand. -/
def indexed {i : Nat} : After i → Checked (Option (After i))
  | ⟨k, later⟩ => do
    let ⟨j, hj⟩ ← indexesEnd p k
    pure (some ⟨j, Nat.lt_of_lt_of_le later hj⟩)

/-! ## Types -/

mutual

/-- The position after the type at a position. -/
def typeEnd? (i : Nat) : Checked (Option (After i)) := do
  match ← unionEnd? i with
  | none => pure none
  | some ⟨k, hk⟩ =>
    if h : p.isWord k "extends" ∧ !p.newlineBefore k then do
      have _inside : k < p.tokens.size := p.lt_size_of_is h.1
      match ← unionEnd? (k + 1) with
      | none => pure (some ⟨k, hk⟩)
      | some ⟨check, _⟩ =>
        if p.isPunct check "?" then do
          match ← typeEnd? (check + 1) with
          | none => pure none
          | some ⟨positive, _⟩ =>
            if p.isPunct positive ":" then do
              let stop ← typeEnd? (positive + 1)
              pure (stop.map (·.weaken (by omega)))
            else pure (some ⟨k, hk⟩)
        else pure (some ⟨k, hk⟩)
    else pure (some ⟨k, hk⟩)
termination_by 6 * (p.tokens.size - i) + 5

/-- The position after the union or intersection at a position. -/
def unionEnd? (i : Nat) : Checked (Option (After i)) := do
  reach p.source i
  if p.isPunct i "|" || p.isPunct i "&" then do
    match ← operandEnd? (i + 1) with
    | none => pure none
    | some ⟨k, later⟩ => do
      let stop ← operandsEnd? k
      pure (stop.map fun ⟨j, hj⟩ => ⟨j, Nat.lt_of_succ_lt (Nat.lt_of_lt_of_le later hj)⟩)
  else do
    match ← operandEnd? i with
    | none => pure none
    | some ⟨k, later⟩ => do
      let stop ← operandsEnd? k
      pure (stop.map fun ⟨j, hj⟩ => ⟨j, Nat.lt_of_lt_of_le later hj⟩)
termination_by 6 * (p.tokens.size - i) + 4

/-- The position after the further operands of a union or intersection. -/
def operandsEnd? (k : Nat) : Checked (Option { j : Nat // k ≤ j }) := do
  reach p.source k
  if h : p.isPunct k "|" || p.isPunct k "&" then do
    have _inside : k < p.tokens.size := by
      rcases Bool.or_eq_true _ _ |>.mp h with h | h <;> exact p.lt_size_of_is h
    match ← operandEnd? (k + 1) with
    | none => pure none
    | some ⟨next, later⟩ => do
      let stop ← operandsEnd? next
      pure (stop.map fun ⟨j, hj⟩ => ⟨j, le_of_succ_lt_of_le later hj⟩)
  else pure (some ⟨k, Nat.le_refl k⟩)
termination_by 6 * (p.tokens.size - k) + 3

/-- The position after the type operand at a position. -/
def operandEnd? (i : Nat) : Checked (Option (After i)) := do
  reach p.source i
  if h : p.isOneOf i typeModifiers ∧ p.startsType (i + 1) then do
    have _inside : i < p.tokens.size := p.lt_size_of_is h.1
    let stop ← operandEnd? (i + 1)
    pure (stop.map (·.weaken (Nat.le_succ i)))
  else if p.isWord i "infer" && p.isName (i + 1) then indexed p ⟨i + 2, lt_add_two i⟩
  else if p.isWord i "abstract" && p.isWord (i + 1) "new" then
    if h : p.isPunct (i + 2) "(" || p.isPunct (i + 2) "<" then do
      have _inside : i + 2 < p.tokens.size := by
        rcases Bool.or_eq_true _ _ |>.mp h with h | h <;> exact p.lt_size_of_is h
      let stop ← functionTypeEnd? (i + 2)
      pure (stop.map (·.weaken (le_add_two i)))
    else do
      let stop ← namedTypeEnd? (i + 1)
      pure (stop.map (·.weaken (Nat.le_succ i)))
  else if h : p.isWord i "new" ∧ (p.isPunct (i + 1) "(" || p.isPunct (i + 1) "<") then do
    have _inside : i < p.tokens.size := p.lt_size_of_is h.1
    let stop ← functionTypeEnd? (i + 1)
    pure (stop.map (·.weaken (Nat.le_succ i)))
  else if h : p.isWord i "asserts" ∧ p.isName (i + 1) ∧ !p.newlineBefore (i + 1) then
    have _inside : i < p.tokens.size := p.lt_size_of_is h.1
    if p.isWord (i + 2) "is" then do
      let stop ← typeEnd? (i + 3)
      pure (stop.map (·.weaken (le_add_three i)))
    else pure (some ⟨i + 2, lt_add_two i⟩)
  else if h : p.isPunct i "(" then do
    have _inside : i < p.tokens.size := p.lt_size_of_is h
    let ⟨close, later⟩ ← partner p i
    if p.isPunct (close + 1) "=>" then do
      let stop ← typeEnd? (close + 2)
      pure (stop.map (·.weaken (le_add_two_of_lt later)))
    else indexed p ⟨close + 1, Nat.lt_succ_of_lt later⟩
  else if p.isPunct i "<" then functionTypeEnd? i
  else if p.isPunct i openBrace || p.isPunct i "[" then do
    let ⟨close, later⟩ ← partner p i
    indexed p ⟨close + 1, Nat.lt_succ_of_lt later⟩
  else if p.isPunct i "-" && p.kind? (i + 1) == some .number then indexed p ⟨i + 2, lt_add_two i⟩
  else if p.isName i then namedTypeEnd? i
  else if p.is i fun t => t.kind == .string || t.kind == .template || t.kind == .number then
    indexed p ⟨i + 1, Nat.lt_succ_self i⟩
  else pure none
termination_by 6 * (p.tokens.size - i) + 2

/-- The position after a type operand that starts with a name. -/
def namedTypeEnd? (i : Nat) : Checked (Option (After i)) := do
  reach p.source i
  if p.isWord i "typeof" then do
    match ← entityEnd? p (i + 1) with
    | none => pure none
    | some ⟨k, later⟩ =>
      match ← argumentsEnd? p false k with
      | none => pure none
      | some ⟨j, hj⟩ => indexed p ⟨j, lt_of_succ_lt_of_le later hj⟩
  else if p.isWord i "import" && p.isPunct (i + 1) "(" then do
    let ⟨close, later⟩ ← partner p (i + 1)
    let ⟨k, past⟩ ← qualifiersEnd p (close + 1)
    match ← argumentsEnd? p false k with
    | none => pure none
    | some ⟨j, hj⟩ => indexed p ⟨j, lt_of_succ_lt_of_succ_le later past hj⟩
  else do
    match ← entityEnd? p i with
    | none => pure none
    | some ⟨k, later⟩ =>
      match ← argumentsEnd? p true k with
      | none => pure none
      | some ⟨j, hj⟩ =>
        if h : p.isWord j "is" ∧ !p.newlineBefore j then do
          have _inside : j < p.tokens.size := p.lt_size_of_is h.1
          let stop ← typeEnd? (j + 1)
          pure (stop.map (·.weaken (le_succ_of_lt_of_le later hj)))
        else indexed p ⟨j, Nat.lt_of_lt_of_le later hj⟩
termination_by 6 * (p.tokens.size - i)

/-- The position after a function type, from its type parameters or its parameters on. -/
def functionTypeEnd? (i : Nat) : Checked (Option (After i)) :=
  if h : p.isPunct i "<" then do
    have _inside : i < p.tokens.size := p.lt_size_of_is h
    match ← angleEnd? p i with
    | none => pure none
    | some ⟨k, _⟩ => do
      let stop ← signatureEnd? k
      pure (stop.map (·.weaken (by omega)))
  else signatureEnd? i
termination_by 6 * (p.tokens.size - i) + 1

/-- The position after the parameters, the arrow and the result of a function type. -/
def signatureEnd? (i : Nat) : Checked (Option (After i)) := do
  reach p.source i
  if h : p.isPunct i "(" then do
    have _inside : i < p.tokens.size := p.lt_size_of_is h
    let ⟨close, later⟩ ← partner p i
    if p.isPunct (close + 1) "=>" then do
      let stop ← typeEnd? (close + 2)
      pure (stop.map (·.weaken (by omega)))
    else pure none
  else pure none
termination_by 6 * (p.tokens.size - i)

end

end

/-! ## No check fails -/

/-- Whether a search with checks gives the answer of another one, which lies at a token or right behind
the last one. -/
structure Finds {P : Nat → Prop} (p : Program) (m : Checked (Option { j : Nat // P j }))
    (x : Option { j : Nat // P j }) : Prop where
  /-- The answer is the same. -/
  same : m = pure x
  /-- It lies in the program. -/
  within : ∀ j, x = some j → j.1 ≤ p.tokens.size

namespace Finds

variable {P Q : Nat → Prop} {p : Program} {m m' : Checked (Option { j : Nat // P j })}
  {x x' : Option { j : Nat // P j }}

theorem none : Finds p (Pure.pure (Option.none : Option { j : Nat // P j })) .none :=
  ⟨rfl, fun _ same => by cases same⟩

theorem some {j : { j : Nat // P j }} (le : j.1 ≤ p.tokens.size) : Finds p (pure (Option.some j)) (.some j) :=
  ⟨rfl, fun _ same => Option.some.inj same ▸ le⟩

theorem map (finds : Finds p m x) {g : { j : Nat // P j } → { j : Nat // Q j }}
    (keeps : ∀ j, (g j).1 = j.1) : Finds p (do let stop ← m; pure (stop.map g)) (x.map g) := by
  obtain ⟨rfl, within⟩ := finds
  refine ⟨rfl, fun j same => ?_⟩
  obtain ⟨k, found, rfl⟩ := Option.map_eq_some_iff.mp same
  rw [keeps]
  exact within k found

theorem ite {c : Prop} [Decidable c] (ifSo : c → Finds p m x) (ifNot : ¬ c → Finds p m' x') :
    Finds p (if c then m else m') (if c then x else x') := by
  split
  case isTrue holds => exact ifSo holds
  case isFalse fails => exact ifNot fails

theorem dite {c : Prop} [Decidable c] {m : c → Checked (Option { j : Nat // P j })}
    {x : c → Option { j : Nat // P j }} {m' : ¬ c → Checked (Option { j : Nat // P j })}
    {x' : ¬ c → Option { j : Nat // P j }} (ifSo : ∀ h, Finds p (m h) (x h))
    (ifNot : ∀ h, Finds p (m' h) (x' h)) :
    Finds p (if h : c then m h else m' h) (if h : c then x h else x' h) := by
  split
  case isTrue holds => exact ifSo holds
  case isFalse fails => exact ifNot fails

end Finds

section

variable {p : Program} (sound : p.IsSound)
include sound

theorem angleFrom?_finds {depth k : Nat} (shallow : depth ≤ k) (le : k ≤ p.tokens.size) :
    Finds p (angleFrom? p (depth + 1) k) (p.angleFrom? depth k) := by
  have bytes := length_le_byteLength p.source
  have fits := sound.size_le
  rw [Program.angleFrom?]
  split
  case h_1 none =>
    rw [angleFrom?, sound.reach_eq le, pure_bind]
    split
    case h_1 => exact .none
    case h_2 t found =>
      rw [none] at found
      cases found
  case h_2 t found =>
    rw [angleFrom?, sound.reach_eq le, pure_bind]
    split
    case h_1 none =>
      rw [found] at none
      cases none
    case h_2 t' found' =>
    obtain rfl : t = t' := Option.some.inj (found.symm.trans found')
    have inside : k < p.tokens.size := (Array.getElem?_eq_some_iff.mp found).1
    refine .ite (fun _ => ?_) fun _ => ?_
    · rw [word_eq (by omega), pure_bind]
      exact (angleFrom?_finds (by omega) inside).map fun _ => rfl
    refine .ite (fun _ => ?_) fun _ => ?_
    · rw [difference_eq (by omega), pure_bind, Nat.add_sub_cancel]
      refine .ite (fun _ => .some inside) fun deep => ?_
      obtain ⟨outer, rfl⟩ := Nat.exists_eq_add_one.mpr (Nat.pos_of_ne_zero deep)
      exact (angleFrom?_finds (by omega) inside).map fun _ => rfl
    refine .ite (fun opens => ?_) fun _ => ?_
    · obtain ⟨same, closes⟩ := sound.partner_eq found opens
      have later := p.lt_close k
      rw [same, pure_bind]
      exact (angleFrom?_finds (by omega) closes).map fun _ => rfl
    refine .ite (fun _ => .none) fun _ => ?_
    exact (angleFrom?_finds (by omega) inside).map fun _ => rfl
termination_by p.tokens.size - k

theorem angleEnd?_finds {i : Nat} (opens : p.isPunct i "<" = true) :
    Finds p (angleEnd? p i) (p.angleEnd? i) := by
  have inside := p.lt_size_of_is opens
  have bytes := length_le_byteLength p.source
  have fits := sound.size_le
  obtain ⟨t, found, less⟩ := (Option.any_eq_true ..).mp opens
  rw [angleEnd?, Program.angleEnd?, angleFrom?, sound.reach_eq (Nat.le_of_lt inside), pure_bind]
  split
  case h_1 none =>
    rw [found] at none
    cases none
  case h_2 t' found' =>
    obtain rfl : t = t' := Option.some.inj (found.symm.trans found')
    rw [if_pos less, word_eq (by omega), pure_bind]
    exact (angleFrom?_finds sound (Nat.zero_le _) inside).map fun _ => rfl

theorem qualifiersEnd_eq {k : Nat} (le : k ≤ p.tokens.size) :
    qualifiersEnd p k = pure (p.qualifiersEnd k) ∧ (p.qualifiersEnd k).1 ≤ p.tokens.size := by
  rw [qualifiersEnd, Program.qualifiersEnd, sound.reach_eq le, pure_bind]
  split
  case isTrue more =>
    have inside := p.lt_size_of_is more.2
    obtain ⟨same, within⟩ := qualifiersEnd_eq (k := k + 2) inside
    rw [same, pure_bind]
    exact ⟨rfl, within⟩
  case isFalse => exact ⟨rfl, le⟩
termination_by p.tokens.size - k

theorem entityEnd?_finds {i : Nat} (le : i ≤ p.tokens.size) :
    Finds p (entityEnd? p i) (p.entityEnd? i) := by
  rw [entityEnd?, Program.entityEnd?, sound.reach_eq le, pure_bind]
  refine .ite (fun name => ?_) fun _ => .none
  obtain ⟨same, within⟩ := qualifiersEnd_eq sound (k := i + 1) (p.lt_size_of_is name)
  rw [same, pure_bind]
  exact .some within

theorem argumentsEnd?_finds (sameLine : Bool) {k : Nat} (le : k ≤ p.tokens.size) :
    Finds p (argumentsEnd? p sameLine k) (p.argumentsEnd? sameLine k) := by
  rw [argumentsEnd?, Program.argumentsEnd?]
  refine .ite (fun opens => ?_) fun _ => .some le
  rw [Bool.and_eq_true] at opens
  exact (angleEnd?_finds sound opens.1).map fun _ => rfl

theorem indexesEnd_eq {k : Nat} (le : k ≤ p.tokens.size) :
    indexesEnd p k = pure (p.indexesEnd k) ∧ (p.indexesEnd k).1 ≤ p.tokens.size := by
  rw [indexesEnd, Program.indexesEnd, sound.reach_eq le, pure_bind]
  split
  case isTrue opens =>
    have inside := p.lt_size_of_is opens.1
    have later := p.lt_close k
    obtain ⟨same, closes⟩ := sound.partner_punct opens.1 (by decide)
    obtain ⟨same', within⟩ := indexesEnd_eq (k := p.close k + 1) closes
    rw [same, pure_bind]
    dsimp only
    rw [same', pure_bind]
    exact ⟨rfl, within⟩
  case isFalse => exact ⟨rfl, le⟩
termination_by p.tokens.size - k

theorem indexed_finds {i : Nat} {k : After i} (le : k.1 ≤ p.tokens.size) :
    Finds p (indexed p k) (some (p.indexed k)) := by
  obtain ⟨same, within⟩ := indexesEnd_eq sound le
  rw [indexed, same, pure_bind]
  exact .some within

end

variable {p : Program}

mutual

theorem typeEnd?_finds (sound : p.IsSound) {i : Nat} (le : i ≤ p.tokens.size) :
    Finds p (typeEnd? p i) (p.typeEnd? i) := by
  have first := unionEnd?_finds sound le
  rw [typeEnd?, Program.typeEnd?, first.same, pure_bind]
  cases found : p.unionEnd? i with
  | none => exact .none
  | some k =>
    have within := first.within k found
    have later := k.2
    refine .dite (fun extends' => ?_) fun _ => .some within
    have inside := p.lt_size_of_is extends'.1
    have second := unionEnd?_finds sound (i := k.1 + 1) inside
    rw [second.same, pure_bind]
    cases found' : p.unionEnd? (k.1 + 1) with
    | none => exact .some within
    | some check =>
      have later' := check.2
      refine .ite (fun asks => ?_) fun _ => .some within
      have third := typeEnd?_finds sound (i := check.1 + 1) (p.lt_size_of_is asks)
      rw [third.same, pure_bind]
      cases found'' : p.typeEnd? (check.1 + 1) with
      | none => exact .none
      | some positive =>
        have later'' := positive.2
        refine .ite (fun colon => ?_) fun _ => .some within
        exact (typeEnd?_finds sound (p.lt_size_of_is colon)).map fun _ => rfl
termination_by 6 * (p.tokens.size - i) + 5

theorem unionEnd?_finds (sound : p.IsSound) {i : Nat} (le : i ≤ p.tokens.size) :
    Finds p (unionEnd? p i) (p.unionEnd? i) := by
  rw [unionEnd?, Program.unionEnd?, sound.reach_eq le, pure_bind]
  refine .ite (fun bar => ?_) fun _ => ?_
  · have inside : i < p.tokens.size := by
      rcases Bool.or_eq_true _ _ |>.mp bar with bar | bar <;> exact p.lt_size_of_is bar
    have first := operandEnd?_finds sound (i := i + 1) inside
    rw [first.same, pure_bind]
    cases found : p.operandEnd? (i + 1) with
    | none => exact .none
    | some k =>
      have later := k.2
      exact (operandsEnd?_finds sound (first.within k found)).map fun _ => rfl
  · have first := operandEnd?_finds sound le
    rw [first.same, pure_bind]
    cases found : p.operandEnd? i with
    | none => exact .none
    | some k =>
      have later := k.2
      exact (operandsEnd?_finds sound (first.within k found)).map fun _ => rfl
termination_by 6 * (p.tokens.size - i) + 4

theorem operandsEnd?_finds (sound : p.IsSound) {k : Nat} (le : k ≤ p.tokens.size) :
    Finds p (operandsEnd? p k) (p.operandsEnd? k) := by
  rw [operandsEnd?, Program.operandsEnd?, sound.reach_eq le, pure_bind]
  refine .dite (fun bar => ?_) fun _ => .some le
  have inside : k < p.tokens.size := by
    rcases Bool.or_eq_true _ _ |>.mp bar with bar | bar <;> exact p.lt_size_of_is bar
  have first := operandEnd?_finds sound (i := k + 1) inside
  rw [first.same, pure_bind]
  cases found : p.operandEnd? (k + 1) with
  | none => exact .none
  | some next =>
    have later := next.2
    exact (operandsEnd?_finds sound (first.within next found)).map fun _ => rfl
termination_by 6 * (p.tokens.size - k) + 3

theorem operandEnd?_finds (sound : p.IsSound) {i : Nat} (le : i ≤ p.tokens.size) :
    Finds p (operandEnd? p i) (p.operandEnd? i) := by
  rw [operandEnd?, Program.operandEnd?, sound.reach_eq le, pure_bind]
  refine .dite (fun modifier => ?_) fun _ => ?_
  · have inside := p.lt_size_of_is modifier.1
    exact (operandEnd?_finds sound inside).map fun _ => rfl
  refine .ite (fun infers => ?_) fun _ => ?_
  · rw [Bool.and_eq_true] at infers
    exact indexed_finds sound (p.lt_size_of_is infers.2)
  refine .ite (fun abstract => ?_) fun _ => ?_
  · rw [Bool.and_eq_true] at abstract
    have inside := p.lt_size_of_is abstract.2
    refine .dite (fun opens => ?_) fun _ => ?_
    · exact (functionTypeEnd?_finds sound inside).map fun _ => rfl
    · exact (namedTypeEnd?_finds sound (Nat.le_of_lt inside)).map fun _ => rfl
  refine .dite (fun new => ?_) fun _ => ?_
  · have inside := p.lt_size_of_is new.1
    exact (functionTypeEnd?_finds sound inside).map fun _ => rfl
  refine .dite (fun asserts => ?_) fun _ => ?_
  · have inside := p.lt_size_of_is asserts.2.1
    refine .ite (fun is => ?_) fun _ => .some inside
    exact (typeEnd?_finds sound (p.lt_size_of_is is)).map fun _ => rfl
  refine .dite (fun opens => ?_) fun _ => ?_
  · have inside := p.lt_size_of_is opens
    have later := p.lt_close i
    obtain ⟨same, closes⟩ := sound.partner_punct opens (by decide)
    rw [same, pure_bind]
    refine .ite (fun arrow => ?_) fun _ => indexed_finds sound closes
    exact (typeEnd?_finds sound (p.lt_size_of_is arrow)).map fun _ => rfl
  refine .ite (fun _ => functionTypeEnd?_finds sound le) fun _ => ?_
  refine .ite (fun opens => ?_) fun _ => ?_
  · obtain ⟨same, closes⟩ : partner p i = pure ⟨p.close i, p.lt_close i⟩ ∧ p.close i < p.tokens.size := by
      rcases Bool.or_eq_true _ _ |>.mp opens with opens | opens <;>
        exact sound.partner_punct opens (by decide)
    rw [same, pure_bind]
    exact indexed_finds sound closes
  refine .ite (fun negative => ?_) fun _ => ?_
  · rw [Bool.and_eq_true, beq_iff_eq] at negative
    exact indexed_finds sound (p.lt_size_of_kind? negative.2)
  refine .ite (fun _ => namedTypeEnd?_finds sound le) fun _ => ?_
  exact .ite (fun literal => indexed_finds sound (p.lt_size_of_is literal)) fun _ => .none
termination_by 6 * (p.tokens.size - i) + 2

theorem namedTypeEnd?_finds (sound : p.IsSound) {i : Nat} (le : i ≤ p.tokens.size) :
    Finds p (namedTypeEnd? p i) (p.namedTypeEnd? i) := by
  rw [namedTypeEnd?, Program.namedTypeEnd?, sound.reach_eq le, pure_bind]
  refine .ite (fun query => ?_) fun _ => .ite (fun imported => ?_) fun _ => ?_
  · have entity := entityEnd?_finds sound (i := i + 1) (p.lt_size_of_is query)
    rw [entity.same, pure_bind]
    cases found : p.entityEnd? (i + 1) with
    | none => exact .none
    | some k =>
      have arguments := argumentsEnd?_finds sound false (entity.within k found)
      dsimp only
      rw [arguments.same, pure_bind]
      cases found' : p.argumentsEnd? false k.1 with
      | none => exact .none
      | some j => exact indexed_finds sound (arguments.within j found')
  · rw [Bool.and_eq_true] at imported
    obtain ⟨same, closes⟩ := sound.partner_punct imported.2 (by decide)
    obtain ⟨same', within⟩ := qualifiersEnd_eq sound (k := p.close (i + 1) + 1) closes
    rw [same, pure_bind]
    dsimp only
    rw [same', pure_bind]
    have arguments := argumentsEnd?_finds sound false within
    rw [arguments.same, pure_bind]
    cases found : p.argumentsEnd? false (p.qualifiersEnd (p.close (i + 1) + 1)).1 with
    | none => exact .none
    | some j => exact indexed_finds sound (arguments.within j found)
  · have entity := entityEnd?_finds sound le
    rw [entity.same, pure_bind]
    cases found : p.entityEnd? i with
    | none => exact .none
    | some k =>
      have later := k.2
      have arguments := argumentsEnd?_finds sound true (entity.within k found)
      dsimp only
      rw [arguments.same, pure_bind]
      cases found' : p.argumentsEnd? true k.1 with
      | none => exact .none
      | some j =>
        have later' := j.2
        refine .dite (fun is => ?_) fun _ => indexed_finds sound (arguments.within j found')
        have inside := p.lt_size_of_is is.1
        exact (typeEnd?_finds sound inside).map fun _ => rfl
termination_by 6 * (p.tokens.size - i)

theorem functionTypeEnd?_finds (sound : p.IsSound) {i : Nat} (le : i ≤ p.tokens.size) :
    Finds p (functionTypeEnd? p i) (p.functionTypeEnd? i) := by
  rw [functionTypeEnd?, Program.functionTypeEnd?]
  refine .dite (fun opens => ?_) fun _ => signatureEnd?_finds sound le
  have inside := p.lt_size_of_is opens
  have angle := angleEnd?_finds sound opens
  rw [angle.same, pure_bind]
  cases found : p.angleEnd? i with
  | none => exact .none
  | some k =>
    have later := k.2
    exact (signatureEnd?_finds sound (angle.within k found)).map fun _ => rfl
termination_by 6 * (p.tokens.size - i) + 1

theorem signatureEnd?_finds (sound : p.IsSound) {i : Nat} (le : i ≤ p.tokens.size) :
    Finds p (signatureEnd? p i) (p.signatureEnd? i) := by
  rw [signatureEnd?, Program.signatureEnd?, sound.reach_eq le, pure_bind]
  refine .dite (fun opens => ?_) fun _ => .none
  have inside := p.lt_size_of_is opens
  have later := p.lt_close i
  obtain ⟨same, closes⟩ := sound.partner_punct opens (by decide)
  rw [same, pure_bind]
  refine .ite (fun arrow => ?_) fun _ => .none
  exact (typeEnd?_finds sound (p.lt_size_of_is arrow)).map fun _ => rfl
termination_by 6 * (p.tokens.size - i)

end

end Checked

end ModuleLinker
