import ModuleLinker.Erase
import ModuleLinker.Proofs.Source.Complaints
import ModuleLinker.Proofs.Source.Tiling

/-!
# Computations whose partial steps are checked

A checked computation (`Checked`) makes sure of everything that a machine takes for granted: that an
index names an element, that a text is cut between characters and in order, that no number leaves its
type, and that a loop comes forward. Where one of these fails it breaks off with a crash (`Crash`). It
also keeps the enum members that it meets, since one of them can make it crash.

A checked computation agrees with a plain one (`Checked.Agrees`) when it gives what that one gives, and
crashes only where that one counts an enum member too far, which is where it meets such a member. The
rules below take agreement through the steps of a computation, together with what is known of the
result.
-/

set_option autoImplicit false

namespace ModuleLinker

open Erase

/-- Why a computation breaks off. -/
inductive Crash where
  /-- An index names no element. -/
  | index (i : Nat)
  /-- A token that is no bracket is asked for its partner. -/
  | partner (i : Nat)
  /-- A place lies behind the end of a text. -/
  | beyond (offset : Nat)
  /-- A text is cut at two places that are not in order, or inside a character. -/
  | cut (start stop : Nat)
  /-- A difference of two numbers of which the second is greater. -/
  | difference (m n : Nat)
  /-- A number is too great for a machine word. -/
  | word (n : Nat)
  /-- A number is no signed integer of 64 bits. -/
  | integer (n : Int)
  /-- A loop does not come forward. -/
  | standstill (i : Nat)
  deriving DecidableEq, Repr

/-- Why a checked computation gives no result. -/
inductive Halt where
  /-- The text is not well formed, or has no plain form. -/
  | rejected (error : SourceError)
  /-- A step could not be taken. -/
  | crashed (crash : Crash)
  deriving DecidableEq, Repr

/-- The failure of a computation without checks, as one with checks has it. -/
def Halt.ofFailure : Failure → Halt
  | .rejected e => .rejected e
  | .counterOverflow => .crashed (.integer (maxInteger + 1))

/-- An enum member, as a computation meets it. -/
structure MetMember where
  /-- Whether it has an initializer. -/
  initialized : Bool
  /-- The value of the member before it, where there is one with a known integer value. -/
  preceding : Option Int
  deriving DecidableEq, Repr

/-- Whether an enum member counts on from the greatest 64-bit integer. -/
def MetMember.Overflows (m : MetMember) : Prop :=
  m.initialized = false ∧ m.preceding = some maxInteger

/-- What a computation with checked steps gives, and the enum members that it meets. -/
structure Checked (α : Type) where
  /-- The enum members, in the order in which they are met. -/
  met : List MetMember
  /-- The result, or why there is none. -/
  outcome : Except Halt α

namespace Checked

variable {α β : Type}

instance : Monad Checked where
  pure a := ⟨[], .ok a⟩
  bind m f :=
    match m.outcome with
    | .ok a => ⟨m.met ++ (f a).met, (f a).outcome⟩
    | .error halt => ⟨m.met, .error halt⟩

theorem pure_eq (a : α) : (pure a : Checked α) = ⟨[], .ok a⟩ := rfl

theorem bind_ok {m : Checked α} {a : α} (given : m.outcome = .ok a) (f : α → Checked β) :
    m >>= f = ⟨m.met ++ (f a).met, (f a).outcome⟩ := by
  obtain ⟨met, outcome⟩ := m
  obtain rfl : outcome = .ok a := given
  rfl

theorem bind_error {m : Checked α} {halt : Halt} (given : m.outcome = .error halt)
    (f : α → Checked β) : m >>= f = ⟨m.met, .error halt⟩ := by
  obtain ⟨met, outcome⟩ := m
  obtain rfl : outcome = .error halt := given
  rfl

instance : LawfulMonad Checked := LawfulMonad.mk' Checked
  (by
    rintro α ⟨met, halt | a⟩
    · rfl
    · exact congrArg (Checked.mk · _) (List.append_nil met))
  (by intro α β a f; rfl)
  (by
    rintro α β γ ⟨met, halt | a⟩ f g
    · rfl
    · -- What the first computation meets comes before what the other two meet.
      change (⟨met ++ (f a).met, (f a).outcome⟩ : Checked β) >>= g =
        ⟨met ++ (f a >>= g).met, (f a >>= g).outcome⟩
      cases given : (f a).outcome with
      | error halt =>
        rw [bind_error given]
        rfl
      | ok b =>
        rw [bind_ok given, ← List.append_assoc]
        rfl)

/-- Gives no result. -/
def halt (why : Halt) : Checked α := ⟨[], .error why⟩

/-- Breaks off. -/
def crash (why : Crash) : Checked α := halt (.crashed why)

/-- Rejects the text. -/
def reject (e : SourceError) : Checked α := halt (.rejected e)

/-- Breaks off unless a condition holds. -/
def ensure (condition : Prop) [Decidable condition] (why : Crash) : Checked Unit :=
  if condition then pure () else crash why

theorem ensure_eq {condition : Prop} [Decidable condition] (holds : condition) (why : Crash) :
    ensure condition why = pure () :=
  if_pos holds

/-- Meets an enum member. -/
def meet (member : MetMember) : Checked Unit := ⟨[member], .ok ()⟩

/-! ## Numbers -/

/-- The difference of two numbers. -/
def difference (m n : Nat) : Checked Nat :=
  if n ≤ m then pure (m - n) else crash (.difference m n)

theorem difference_eq {m n : Nat} (le : n ≤ m) : difference m n = pure (m - n) := if_pos le

/-- A number that is to be a signed integer of 64 bits. -/
def integer (n : Int) : Checked Int :=
  if -maxInteger - 1 ≤ n ∧ n ≤ maxInteger then pure n else crash (.integer n)

theorem integer_eq {n : Int} (low : -maxInteger - 1 ≤ n) (high : n ≤ maxInteger) :
    integer n = pure n :=
  if_pos ⟨low, high⟩

/-- The greatest machine word, on a machine that holds a text: words have 64 bits at least, and no text
takes more bytes than half of the words can count. -/
def wordMax (source : List Char) : Nat := max (2 ^ 64 - 1) (2 * byteLength source + 1)

/-- A number that is to be a machine word. -/
def word (source : List Char) (n : Nat) : Checked Nat :=
  if n ≤ wordMax source then pure n else crash (.word n)

theorem le_wordMax {source : List Char} {n : Nat} (le : n ≤ byteLength source + 4) :
    n ≤ wordMax source := by
  unfold wordMax
  omega

theorem word_eq {source : List Char} {n : Nat} (le : n ≤ byteLength source + 4) :
    word source n = pure n :=
  if_pos (le_wordMax le)

/-- Makes sure that a position and the three after it are machine words. -/
def reach (source : List Char) (i : Nat) : Checked Unit :=
  ensure (i + 3 ≤ wordMax source) (.word (i + 3))

/-! ## Cutting a text -/

theorem byteLength_append (cs ds : List Char) :
    byteLength (cs ++ ds) = byteLength cs + byteLength ds := by
  induction cs with
  | nil => exact (Nat.zero_add _).symm
  | cons c cs ih => rw [List.cons_append, byteLength_cons, byteLength_cons, ih, Nat.add_assoc]

/-- A character takes a byte at least. -/
theorem length_le_byteLength (cs : List Char) : cs.length ≤ byteLength cs := by
  induction cs with
  | nil => exact Nat.le_refl _
  | cons c cs ih =>
    have size := c.utf8Size_pos
    rw [byteLength_cons, List.length_cons]
    omega

theorem reach_eq {source : List Char} {i : Nat} (le : i ≤ source.length + 1) :
    reach source i = pure () := by
  have bytes := length_le_byteLength source
  exact ensure_eq (le_wordMax (by omega)) _

/-- The bytes in front of a place are those in front of an earlier place and those between them. -/
theorem byteOffset_eq_add (cs : List Char) {m n : Nat} (le : m ≤ n) :
    byteOffset cs n = byteOffset cs m + byteLength ((cs.drop m).take (n - m)) := by
  obtain ⟨k, rfl⟩ := Nat.exists_eq_add_of_le le
  rw [byteOffset, byteOffset, List.take_add, byteLength_append, Nat.add_sub_cancel_left]

theorem byteOffset_le (cs : List Char) {m n : Nat} (le : m ≤ n) : byteOffset cs m ≤ byteOffset cs n := by
  rw [byteOffset_eq_add cs le]
  exact Nat.le_add_right _ _

theorem byteOffset_length (cs : List Char) : byteOffset cs cs.length = byteLength cs := by
  rw [byteOffset, List.take_length]

/-- The part of a text between two places, which are given in bytes. -/
def cut (source : List Char) (start stop : Nat) : Checked (List Char) :=
  match charOffset? source start, charOffset? source stop with
  | some i, some j =>
    if start ≤ stop then pure ((source.drop i).take (j - i)) else crash (.cut start stop)
  | _, _ => crash (.cut start stop)

/-- How many bytes come before a place, which is given in characters. -/
def place (source : List Char) (offset : Nat) : Checked Nat :=
  if offset ≤ source.length then pure (byteOffset source offset) else crash (.beyond offset)

theorem place_eq {source : List Char} {offset : Nat} (le : offset ≤ source.length) :
    place source offset = pure (byteOffset source offset) :=
  if_pos le

theorem cut_byteOffset {source : List Char} {i j : Nat} (inOrder : i ≤ j) (within : j ≤ source.length) :
    cut source (byteOffset source i) (byteOffset source j) =
      pure ((source.drop i).take (j - i)) := by
  unfold cut
  rw [charOffset?_byteOffset (Nat.le_trans inOrder within), charOffset?_byteOffset within]
  exact if_pos (byteOffset_le source inOrder)

/-- The part of a text between two places, which are given in characters. -/
def between (source : List Char) (i j : Nat) : Checked (List Char) := do
  cut source (← place source i) (← place source j)

theorem between_eq {source : List Char} {i j : Nat} (inOrder : i ≤ j) (within : j ≤ source.length) :
    between source i j = pure ((source.drop i).take (j - i)) := by
  rw [between, place_eq (Nat.le_trans inOrder within), place_eq within, pure_bind, pure_bind,
    cut_byteOffset inOrder within]

/-! ## Computations without checks -/

/-- A computation on a source text that has nothing to check. -/
def ofScan : Except SourceError α → Checked α
  | .ok a => pure a
  | .error e => reject e

theorem ofScan_bind (x : Except SourceError α) (f : α → Except SourceError β) :
    ofScan (x >>= f) = ofScan x >>= fun a => ofScan (f a) := by
  cases x <;> rfl

/-- Checked steps that each are what a computation without checks does. -/
theorem bind_eq_ofScan {m : Checked α} {x : Except SourceError α} {f : α → Checked β}
    {g : α → Except SourceError β} (first : m = ofScan x) (rest : ∀ a, x = .ok a → f a = ofScan (g a)) :
    m >>= f = ofScan (x >>= g) := by
  rw [first, ofScan_bind]
  cases x with
  | error e => rfl
  | ok a => exact rest a rfl

theorem ite_eq_ofScan {c : Prop} [Decidable c] {yes no : Checked α} {x y : Except SourceError α}
    (ifSo : c → yes = ofScan x) (ifNot : ¬ c → no = ofScan y) :
    (if c then yes else no) = ofScan (if c then x else y) := by
  split
  case isTrue holds => exact ifSo holds
  case isFalse fails => exact ifNot fails

/-- Whether a checked computation on a text gives what a plain one gives, with results of some kind and
complaints about places of the text, and crashes where an enum member counts on too far and nowhere
else. -/
structure Agrees (source : List Char) (m : Checked α) (x : Except Failure α) (kind : α → Prop) :
    Prop where
  /-- The result is the same. -/
  outcome : m.outcome = x.mapError Halt.ofFailure
  /-- An enum member that counts on too far is met where this is the failure. -/
  counter : x = .error .counterOverflow ↔ ∃ member ∈ m.met, member.Overflows
  /-- A result is of this kind. -/
  result : ∀ a, x = .ok a → kind a
  /-- A complaint is about a place of the text. -/
  complaint : ∀ e, x = .error (.rejected e) → e.offset ≤ source.length

namespace Agrees

variable {source : List Char} {m : Checked α} {x : Except Failure α} {kind : α → Prop} {kind' : β → Prop}

theorem pure {a : α} (fits : kind a) : Agrees source (Pure.pure a) (.ok a) kind where
  outcome := rfl
  counter := ⟨fun same => (by cases same), fun ⟨_, mem, _⟩ => by cases mem⟩
  result := fun _ same => Except.ok.inj same ▸ fits
  complaint := fun _ same => by cases same

theorem of_eq {a : α} (same : m = Pure.pure a) (fits : kind a) : Agrees source m (.ok a) kind :=
  same ▸ pure fits

theorem reject {e : SourceError} (le : e.offset ≤ source.length) :
    Agrees source (Checked.reject e) (.error (.rejected e)) kind where
  outcome := rfl
  counter := ⟨fun same => (by cases same), fun ⟨_, mem, _⟩ => by cases mem⟩
  result := fun _ same => by cases same
  complaint := fun _ same => Failure.rejected.inj (Except.error.inj same) ▸ le

theorem bind {f : α → Checked β} {g : α → Except Failure β} (first : Agrees source m x kind)
    (rest : ∀ a, kind a → Agrees source (f a) (g a) kind') :
    Agrees source (m >>= f) (x >>= g) kind' := by
  obtain ⟨outcome, counter, result, complaint⟩ := first
  cases x with
  | error e =>
    have same : (Except.error e >>= g) = .error e := rfl
    rw [bind_error outcome, same]
    refine ⟨rfl, ?_, fun b none => (by cases none), fun e' same => complaint e' ?_⟩
    · rw [← counter, Except.error.injEq, Except.error.injEq]
    · rw [Except.error.inj same]
  | ok a =>
    have next := rest a (result a rfl)
    have before : ¬ ∃ member ∈ m.met, member.Overflows := fun met => by cases counter.mpr met
    rw [bind_ok outcome]
    refine ⟨next.outcome, next.counter.trans ?_, next.result, next.complaint⟩
    constructor
    · rintro ⟨member, mem, overflows⟩
      exact ⟨member, List.mem_append_right _ mem, overflows⟩
    · rintro ⟨member, mem, overflows⟩
      rcases List.mem_append.mp mem with mem | mem
      · exact absurd ⟨member, mem, overflows⟩ before
      · exact ⟨member, mem, overflows⟩

/-- Behind a failure nothing is done. -/
theorem error_bind {e : Failure} {f : α → Checked β} (first : Agrees source m (.error e) kind) :
    Agrees source (m >>= f) (.error e) kind' := by
  have failed : Agrees source m (.error e) fun _ => False :=
    { first with result := fun _ same => by cases same }
  exact failed.bind (g := fun _ => .error e) fun _ never => never.elim

/-- Behind a result the computation goes on. -/
theorem ok_bind {a : α} {f : α → Checked β} {y : Except Failure β} (first : Agrees source m (.ok a) kind)
    (rest : kind a → Agrees source (f a) y kind') : Agrees source (m >>= f) y kind' := by
  have done : Agrees source m (.ok a) (a = ·) := { first with result := fun _ same => Except.ok.inj same }
  exact done.bind (g := fun _ => y) fun _ same => same ▸ rest (first.result a rfl)

theorem weaken {kind' : α → Prop} (agrees : Agrees source m x kind) (wider : ∀ a, kind a → kind' a) :
    Agrees source m x kind' :=
  { agrees with result := fun a same => wider a (agrees.result a same) }

theorem ite {c : Prop} [Decidable c] {yes no : Checked α} {y z : Except Failure α}
    (ifSo : c → Agrees source yes y kind) (ifNot : ¬ c → Agrees source no z kind) :
    Agrees source (if c then yes else no) (if c then y else z) kind := by
  split
  case isTrue holds => exact ifSo holds
  case isFalse fails => exact ifNot fails

/-- A choice with the same steps behind both of its sides. -/
theorem ite_bind {c : Prop} [Decidable c] {y z : Except Failure α} {f : α → Checked β}
    {g : α → Except Failure β} (first : Agrees source m (if c then y else z) kind)
    (rest : ∀ a, kind a → Agrees source (f a) (g a) kind') :
    Agrees source (m >>= f) (if c then y >>= g else z >>= g) kind' := by
  have both : (if c then y >>= g else z >>= g) = (if c then y else z) >>= g :=
    (apply_ite (· >>= g) c y z).symm
  rw [both]
  exact first.bind rest

theorem dite {c : Prop} [Decidable c] {yes : c → Checked α} {no : ¬ c → Checked α}
    {y : c → Except Failure α} {z : ¬ c → Except Failure α}
    (ifSo : ∀ h, Agrees source (yes h) (y h) kind) (ifNot : ∀ h, Agrees source (no h) (z h) kind) :
    Agrees source (if h : c then yes h else no h) (if h : c then y h else z h) kind := by
  split
  case isTrue holds => exact ifSo holds
  case isFalse fails => exact ifNot fails

theorem ofScan {y : Except SourceError α} (points : PointsInto y source) :
    Agrees source (Checked.ofScan y) (y.mapError Failure.rejected) fun a => y = .ok a := by
  cases y with
  | error e => exact reject (points e rfl)
  | ok a => exact pure rfl

/-- An enum member is met, and the computation goes on. -/
theorem meet {member : MetMember} (harmless : ¬ member.Overflows) (agrees : Agrees source m x kind) :
    Agrees source (Checked.meet member >>= fun _ => m) x kind := by
  refine { agrees with counter := agrees.counter.trans ?_ }
  change _ ↔ ∃ other ∈ member :: m.met, other.Overflows
  rw [List.exists_mem_cons_iff, or_iff_right harmless]

/-- An enum member is met that counts on too far. -/
theorem overflow {member : MetMember} (overflows : member.Overflows) :
    Agrees source (Checked.meet member >>= fun _ => (crash (.integer (maxInteger + 1)) : Checked α))
      (.error .counterOverflow) kind where
  outcome := rfl
  counter := ⟨fun _ => ⟨member, List.mem_cons_self, overflows⟩, fun _ => rfl⟩
  result := fun _ same => by cases same
  complaint := fun _ same => by cases same

end Agrees

end Checked

end ModuleLinker
