import ModuleLinker.Proofs.Checked.Parameters

/-!
# Enums, with checks

The code of an enum, with checks: the value of a member is cut out of the text between its tokens, and
the numbers that members count with have to be signed integers of 64 bits. Every member that is met is
kept. That a number leaves its type is the one failure of a check there is, and it is where a member
counts on from the greatest integer (`enumMember_agrees`).
-/

set_option autoImplicit false

namespace ModuleLinker.Checked

open Erase Erase.Program

/-- The value, as code and where it is known, of a member without one. -/
def nextValue (name : String) : Option EnumMember → Checked (String × Option Int)
  | none => pure ("0", some 0)
  | some ⟨_, some n⟩ => do
    let next ← integer (n + 1)
    pure (toString next, some next)
  | some ⟨key, none⟩ => pure (name ++ "[" ++ key ++ "] + 1", none)

section

variable (p : Program)

/-- The position of the comma that ends the value at a position, or of the limit. -/
def valueEnd (limit i : Nat) : Checked Nat :=
  if i < limit then do
    reach p.source i
    if p.isPunct i "," then pure i
    else if p.is i (·.isOpener) then do
      let ⟨close, _⟩ ← partner p i
      valueEnd limit (close + 1)
    else valueEnd limit (i + 1)
  else pure i
termination_by limit - i

/-- The integer literal, with a sign or without, that the tokens up to a position make up. -/
def integer? (first last : Nat) : Checked (Option Int) := do
  let size ← difference last first
  if size = 1 then pure (digitsValue? (p.text first))
  else if size = 2 ∧ p.isPunct first "-" then
    match digitsValue? (p.text (first + 1)) with
    | none => pure none
    | some n => do pure (some (← integer (-n)))
  else pure none

/-- Whether a property access leads to a token. -/
def afterDot (i : Nat) : Checked Bool :=
  if i = 0 then pure false
  else do
    let before ← difference i 1
    pure (p.is before (·.isDot))

/-- The characters between two offsets. -/
def slice (start stop : Nat) : Checked String := do
  let cs ← between p.source start stop
  pure (String.ofList cs)

/-- The code of `count` tokens from position `i` on, where `cursor` is the offset up to which the
source has been copied, with earlier members named as properties of the enum. -/
def memberCode (name : String) (declared : List String) (first cursor i : Nat) : Nat → Checked String
  | 0 => do
    let last ← tokenAt p.tokens (← difference i 1)
    slice p cursor last.stop
  | count + 1 => do
    let t ← tokenAt p.tokens i
    let property ← afterDot p i
    if p.isName i && declared.contains (p.text i) && !(first < i && property) then do
      let front ← slice p cursor t.start
      let rest ← memberCode name declared first t.stop (i + 1) count
      pure (front ++ name ++ "." ++ p.text i ++ rest)
    else memberCode name declared first cursor (i + 1) count

/-- Writes the member at the state's position, with the comma after it, in an enum that closes at
`close`. -/
def enumMember (name : String) (close : Nat) (s : EnumState) : Checked EnumState := do
  reach p.source s.pos
  match p.memberKey? s.pos with
  | none => fail p s.pos .enumMemberExpected
  | some key => do
    let next := s.pos + 1
    let declared := if p.isName s.pos then s.declared ++ [p.text s.pos] else s.declared
    meet ⟨p.isPunct next "=", s.previous.bind (·.value)⟩
    if p.isPunct next "=" then do
      let first := next + 1
      let last ← valueEnd p close first
      if last = first then fail p first .expressionExpected
      else do
        let start ← tokenAt p.tokens first
        let code ← memberCode p name s.declared first start.start first (← difference last first)
        let pos ← punctEnd p last ","
        if last = first + 1 ∧ p.kind? first = some .string then
          pure ⟨pos, s.statements ++ [textStatement name key code], declared, some ⟨key, none⟩⟩
        else do
          let value ← integer? p first last
          pure ⟨pos, s.statements ++ [valueStatement name key code], declared, some ⟨key, value⟩⟩
    else do
      let (code, value) ← nextValue name s.previous
      let pos ← punctEnd p next ","
      pure ⟨pos, s.statements ++ [valueStatement name key code], declared, some ⟨key, value⟩⟩

/-- Writes the members up to the position `close`. -/
def enumMembers (name : String) (close : Nat) (s : EnumState) : Checked EnumState :=
  if s.pos < close then do
    let next ← enumMember p name close s
    if s.pos < next.pos then enumMembers name close next else crash (.standstill s.pos)
  else pure s
termination_by close - s.pos

/-- Replaces the enum that starts at a position, with the word `const` in front or without. -/
def enumeration (i : Nat) (s : State) : Checked State := do
  reach p.source i
  let keyword := if p.isWord i "const" then i + 1 else i
  let opener := keyword + 2
  if p.isName (keyword + 1) && p.isPunct opener openBrace then do
    let name := p.text (keyword + 1)
    let ⟨close, _⟩ ← partner p opener
    let written ← enumMembers p name close ⟨opener + 1, [], [], none⟩
    let a ← tokenAt p.tokens i
    let z ← tokenAt p.tokens close
    pure ((s.edit ⟨a.start, z.stop, some (enumCode name written.statements)⟩).goto (close + 1))
  else fail p keyword .enumNameExpected

end

/-! ## One check may fail -/

/-- An integer that a run of digits stands for has 64 bits and no sign. -/
theorem digitsValue?_bounds {text : String} {n : Int} (known : digitsValue? text = some n) :
    0 ≤ n ∧ n ≤ maxInteger := by
  unfold digitsValue? at known
  dsimp only at known
  split at known
  · cases known
  split at known
  case isTrue small =>
    cases known
    exact ⟨Int.natCast_nonneg _, small⟩
  case isFalse => cases known

/-- Whether a number, where there is one, lies between the greatest integer and its opposite. -/
def Fits (value : Option Int) : Prop := ∀ n, value = some n → -maxInteger ≤ n ∧ n ≤ maxInteger

theorem fits_none : Fits none := fun _ known => by cases known

/-- A member without a value counts on, or is met where it cannot. -/
theorem nextValue_agrees {source : List Char} (name : String) {previous : Option EnumMember}
    (fits : Fits (previous.bind (·.value))) :
    Agrees source (do meet ⟨false, previous.bind (·.value)⟩; nextValue name previous)
      (Erase.nextValue name previous) fun r => Fits r.2 := by
  match previous with
  | none =>
    refine .meet (fun overflows => by cases overflows.2) (.pure fun n known => ?_)
    cases known
    decide
  | some ⟨key, none⟩ => exact .meet (fun overflows => by cases overflows.2) (.pure fits_none)
  | some ⟨key, some n⟩ =>
    obtain ⟨low, high⟩ := fits n rfl
    rw [nextValue, Erase.nextValue]
    split
    case isTrue less =>
      refine .meet (fun overflows => ?_) ?_
      · cases overflows.2
        exact Int.lt_irrefl _ less
      · rw [integer_eq (by omega) (by omega), pure_bind]
        refine .pure fun m known => ?_
        cases known
        omega
    case isFalse greatest =>
      obtain rfl : n = maxInteger := by omega
      have leaves : integer (maxInteger + 1) = crash (.integer (maxInteger + 1)) :=
        if_neg fun range => absurd range.2 (by omega)
      rw [leaves]
      exact .overflow ⟨rfl, rfl⟩

section

variable {p : Program}

theorem afterDot_eq (i : Nat) : afterDot p i = pure (p.afterDot i) := by
  unfold afterDot Program.afterDot
  split
  case isTrue first => rw [first]; rfl
  case isFalse later =>
    rw [difference_eq (by omega), pure_bind, bne_iff_ne.mpr later, Bool.true_and]

theorem lt_size_of_memberKey? {i : Nat} {key : String} (found : p.memberKey? i = some key) :
    i < p.tokens.size := by
  unfold memberKey? at found
  cases kind : p.kind? i with
  | none =>
    rw [kind] at found
    cases found
  | some k => exact p.lt_size_of_kind? kind

theorem slice_eq {i j : Nat} (inOrder : i ≤ j) (within : j ≤ p.source.length) :
    slice p i j = pure (p.slice i j) := by
  rw [slice, between_eq inOrder within]
  rfl

theorem integer?_eq {first last : Nat} (before : first ≤ last) :
    integer? p first last = pure (p.integer? first last) ∧ Fits (p.integer? first last) := by
  obtain ⟨size, rfl⟩ := Nat.exists_eq_add_of_le before
  have one : first + size = first + 1 ↔ size = 1 := by omega
  have two : first + size = first + 2 ↔ size = 2 := by omega
  rw [integer?, Program.integer?, difference_eq before, pure_bind, Nat.add_sub_cancel_left]
  simp only [one, two]
  split
  · refine ⟨rfl, fun n known => ?_⟩
    have := digitsValue?_bounds known
    omega
  split
  · cases digits : digitsValue? (p.text (first + 1)) with
    | none => exact ⟨rfl, fits_none⟩
    | some n =>
      obtain ⟨low, high⟩ := digitsValue?_bounds digits
      dsimp only
      rw [integer_eq (by omega) (by omega), pure_bind]
      refine ⟨rfl, fun m known => ?_⟩
      cases known
      change -maxInteger ≤ -n ∧ -n ≤ maxInteger
      omega
  · exact ⟨rfl, fits_none⟩

variable (sound : p.IsSound)
include sound

theorem valueEnd_eq {limit i : Nat} (within : limit ≤ p.tokens.size) (le : i ≤ p.tokens.size) :
    valueEnd p limit i = pure (p.valueEnd limit i) ∧ i ≤ p.valueEnd limit i ∧
      p.valueEnd limit i ≤ p.tokens.size := by
  rw [valueEnd, Program.valueEnd]
  split
  case isFalse => exact ⟨rfl, Nat.le_refl _, le⟩
  case isTrue less =>
  rw [sound.reach_eq le, pure_bind]
  split
  · exact ⟨rfl, Nat.le_refl _, le⟩
  split
  case isTrue opens =>
    obtain ⟨t, found, isOpener⟩ := (Option.any_eq_true ..).mp opens
    obtain ⟨same, closes⟩ := sound.partner_eq found isOpener
    have past := p.lt_close i
    obtain ⟨same', after, fits⟩ := valueEnd_eq (i := p.close i + 1) within closes
    rw [same, pure_bind]
    dsimp only
    exact ⟨same', by omega, fits⟩
  case isFalse =>
    obtain ⟨same, after, fits⟩ := valueEnd_eq (i := i + 1) within (by omega)
    exact ⟨same, by omega, fits⟩
termination_by limit - i

theorem memberCode_eq (name : String) (declared : List String) (first : Nat) {cursor i count : Nat}
    (inside : i + count ≤ p.tokens.size) (starts : ∀ t, p.tokens[i]? = some t → cursor ≤ t.start)
    (ends : count = 0 → 0 < i ∧ ∀ t, p.tokens[i - 1]? = some t → cursor ≤ t.stop) :
    memberCode p name declared first cursor i count =
      pure (p.memberCode name declared first cursor i count) := by
  induction count generalizing i cursor with
  | zero =>
    obtain ⟨pos, stops⟩ := ends rfl
    have found : p.tokens[i - 1]? = some p.tokens[i - 1] := Array.getElem?_eq_getElem (by omega)
    rw [memberCode, Program.memberCode, difference_eq pos, pure_bind, tokenAt_eq found, pure_bind,
      slice_eq (stops _ found) (sound.read.stop_le_length (Array.mem_of_getElem? found)), found]
    rfl
  | succ count ih =>
    have found : p.tokens[i]? = some p.tokens[i] := Array.getElem?_eq_getElem (by omega)
    have mem := Array.mem_of_getElem? found
    have less := (sound.read.piece mem).less
    have length := sound.read.stop_le_length mem
    have start := starts _ found
    have further (t : Token) (next : p.tokens[i + 1]? = some t) : p.tokens[i].stop ≤ t.start :=
      sound.read.stop_le_start (Nat.lt_succ_self i) found next
    have last (t : Token) (same : p.tokens[i + 1 - 1]? = some t) : t = p.tokens[i] :=
      Option.some.inj (same.symm.trans found)
    rw [memberCode, Program.memberCode, tokenAt_eq found, pure_bind, afterDot_eq, pure_bind]
    split
    · rw [slice_eq start (by omega), pure_bind, offset, found]
      rw [ih (by omega) further fun _ => ⟨Nat.succ_pos _, fun t same => by rw [last t same]⟩]
      rfl
    · refine ih (by omega) (fun t next => ?_) fun _ => ⟨Nat.succ_pos _, fun t same => ?_⟩
      · have := further t next
        omega
      · rw [last t same]
        omega

/-- A member is written, and what it says of its value fits 64 bits; or it is the member that is met
where it counts on from the greatest integer. -/
theorem enumMember_agrees (name : String) {close : Nat} {s : EnumState} (within : close ≤ p.tokens.size)
    (le : s.pos ≤ p.tokens.size) (fits : Fits (s.previous.bind (·.value))) :
    Agrees p.source (enumMember p name close s) (p.enumMember name close s) fun s' =>
      s.pos < s'.pos ∧ s'.pos ≤ p.tokens.size ∧ Fits (s'.previous.bind (·.value)) := by
  rw [enumMember, Program.enumMember, sound.reach_eq le, pure_bind]
  cases found : p.memberKey? s.pos with
  | none => exact fail_agrees sound ..
  | some key =>
  have inside : s.pos < p.tokens.size := lt_size_of_memberKey? found
  dsimp only
  by_cases equals : p.isPunct (s.pos + 1) "=" = true
  · rw [equals, if_pos rfl, if_pos rfl]
    refine .meet (fun overflows => by cases overflows.1) ?_
    obtain ⟨same, before, fits⟩ := valueEnd_eq sound within (i := s.pos + 1 + 1) (p.lt_size_of_is equals)
    rw [same, pure_bind]
    refine .ite (fun _ => fail_agrees sound ..) fun some => ?_
    obtain ⟨first, place⟩ : ∃ first, s.pos + 1 + 1 = first := ⟨_, rfl⟩
    rw [place] at before fits some ⊢
    generalize p.valueEnd close first = last at before fits some ⊢
    have token : p.tokens[first]? = .some p.tokens[first] := Array.getElem?_eq_getElem (by omega)
    have start : p.offset first = p.tokens[first].start := by
      rw [offset, token]
      rfl
    have code : memberCode p name s.declared first p.tokens[first].start first (last - first) =
        pure (p.memberCode name s.declared first p.tokens[first].start first (last - first)) := by
      refine memberCode_eq sound name s.declared first (by omega) (fun t same => ?_) (by omega)
      rw [token] at same
      cases same
      exact Nat.le_refl _
    obtain ⟨comma, after, le⟩ := punctEnd_eq sound fits ","
    obtain ⟨literal, known⟩ := integer?_eq (p := p) before
    rw [tokenAt_eq token, pure_bind, difference_eq before, pure_bind, code, pure_bind, comma, pure_bind,
      start, literal, pure_bind]
    have forward : s.pos < if p.isPunct last "," then last + 1 else last := by omega
    exact .ite (fun _ => .pure ⟨forward, le, fits_none⟩) fun _ => .pure ⟨forward, le, known⟩
  · rw [Bool.not_eq_true] at equals
    rw [equals, if_neg Bool.false_ne_true, if_neg Bool.false_ne_true, ← bind_assoc]
    refine (nextValue_agrees name fits).bind fun r fits => ?_
    obtain ⟨code, value⟩ := r
    obtain ⟨same, after, le⟩ := punctEnd_eq sound (i := s.pos + 1) inside ","
    rw [same, pure_bind]
    exact .pure ⟨after, le, fits⟩

theorem enumMembers_agrees (name : String) {close : Nat} {s : EnumState} (within : close ≤ p.tokens.size)
    (le : s.pos ≤ p.tokens.size) (fits : Fits (s.previous.bind (·.value))) :
    Agrees p.source (enumMembers p name close s) (p.enumMembers name close s) fun _ => True := by
  rw [enumMembers, Program.enumMembers]
  refine .ite (fun less => ?_) fun _ => .pure trivial
  have first := enumMember_agrees sound name within le fits
  cases found : p.enumMember name close s with
  | error e =>
    rw [found] at first
    exact first.error_bind
  | ok next =>
    rw [found] at first
    refine first.ok_bind fun ⟨forward, le, fits⟩ => ?_
    have same : { next with pos := max next.pos (s.pos + 1) } = next := by
      rw [Nat.max_eq_left forward]
    dsimp only
    rw [if_pos forward, same]
    exact enumMembers_agrees (s := next) name within le fits
termination_by close - s.pos

theorem enumeration_agrees (i : Nat) (s : State) (le : i ≤ p.tokens.size) :
    Agrees p.source (enumeration p i s) (p.enumeration i s) (From p (i + 1)) := by
  rw [enumeration, Program.enumeration, sound.reach_eq le, pure_bind]
  dsimp only
  obtain ⟨keyword, place, later⟩ : ∃ keyword,
      (if p.isWord i "const" then i + 1 else i) = keyword ∧ i ≤ keyword := by
    refine ⟨_, rfl, ?_⟩
    split <;> omega
  rw [place]
  refine .ite (fun opens => ?_) fun _ => fail_agrees sound ..
  rw [Bool.and_eq_true] at opens
  obtain ⟨same, closes⟩ := sound.partner_punct opens.2 (by decide)
  have after := p.lt_close (keyword + 2)
  have first : p.tokens[i]? = some p.tokens[i] := Array.getElem?_eq_getElem (by omega)
  have last : p.tokens[p.close (keyword + 2)]? = some p.tokens[p.close (keyword + 2)] :=
    Array.getElem?_eq_getElem closes
  rw [same, pure_bind]
  refine (enumMembers_agrees sound _ (s := ⟨keyword + 2 + 1, [], [], none⟩) (Nat.le_of_lt closes)
    (p.lt_size_of_is opens.2) fits_none).bind fun written _ => ?_
  rw [tokenAt_eq first, pure_bind, tokenAt_eq last, pure_bind, offset, first, last]
  exact .pure ⟨by change i + 1 ≤ p.close (keyword + 2) + 1; omega, closes⟩

end

end ModuleLinker.Checked
