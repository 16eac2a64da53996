import Mathlib
import ModuleLinker.Erase.Edit
import ModuleLinker.Proofs.Erase.TypeEnd
import ModuleLinker.Proofs.Source.Behind

/-!
# Types behind other tokens

A program that stands behind other tokens (`Program.Behind`) gives the same answer to every question
about its tokens, and its types end where they end without the front, further on by as many tokens.
Only its first token has something new before it, a line end among it; so what is asked about the
token before a position, or about a line end there, is the same at later positions only.
-/

set_option autoImplicit false

namespace ModuleLinker.Erase

/-- What stands in front of a program. -/
structure Front where
  /-- The number of tokens. -/
  tokens : Nat
  /-- The number of characters. -/
  chars : Nat
  /-- The edits made there. -/
  edits : Edits

/-- Whether a program is another one behind a front that ends its line. -/
class Program.Behind (p' : Program) (f : outParam Front) (p : outParam Program) : Prop where
  /-- The tokens are those of the other program. -/
  token : ∀ i, p'.tokens[f.tokens + i]? = p.tokens[i]?.map (Token.placed f.chars i)
  /-- There are no further ones. -/
  size : p'.tokens.size = f.tokens + p.tokens.size
  /-- The brackets have the same partners. -/
  partner : ∀ i, p'.partners[f.tokens + i]? = p.partners[i]?.map (Option.map (f.tokens + ·))
  /-- The text stands behind the front. -/
  source : p'.source.drop f.chars = p.source
  /-- The front is part of the text. -/
  length : p'.source.length = p.source.length + f.chars
  /-- The edits made in the front start there. -/
  early : ∀ e ∈ f.edits, e.start < f.chars

namespace Program

variable {p' p : Program} {f : Front} [behind : Behind p' f p]

/-! ## Single tokens -/

section Tokens

theorem is_behind {property : Token → Bool}
    (same : ∀ i t, property (Token.placed f.chars i t) = property t) (i : Nat) :
    p'.is (f.tokens + i) property = p.is i property := by
  rw [is, is, Behind.token i, Option.any_map]
  exact congrArg (p.tokens[i]?.any ·) (funext (same i))

@[simp] theorem kind?_behind (i : Nat) : p'.kind? (f.tokens + i) = p.kind? i := by
  rw [kind?, kind?, Behind.token i, Option.map_map]
  rfl

@[simp] theorem text_behind (i : Nat) : p'.text (f.tokens + i) = p.text i := by
  rw [text, text, Behind.token i, Option.map_map]
  rfl

@[simp] theorem isPunct_behind (i : Nat) (text : String) :
    p'.isPunct (f.tokens + i) text = p.isPunct i text :=
  is_behind (fun _ _ => rfl) i

@[simp] theorem isName_behind (i : Nat) : p'.isName (f.tokens + i) = p.isName i :=
  is_behind (fun _ _ => rfl) i

@[simp] theorem isWord_behind (i : Nat) (text : String) :
    p'.isWord (f.tokens + i) text = p.isWord i text :=
  is_behind (fun _ _ => rfl) i

@[simp] theorem isOneOf_behind (i : Nat) (words : List String) :
    p'.isOneOf (f.tokens + i) words = p.isOneOf i words :=
  is_behind (fun _ _ => rfl) i

@[simp] theorem bindsAt_behind (i : Nat) : p'.bindsAt (f.tokens + i) = p.bindsAt i := by
  rw [bindsAt, bindsAt, isName_behind, isPunct_behind, isPunct_behind]

@[simp] theorem endsValue_behind (i : Nat) : p'.endsValue (f.tokens + i) = p.endsValue i :=
  is_behind (fun _ _ => rfl) i

@[simp] theorem expectsOperand_behind (i : Nat) :
    p'.expectsOperand (f.tokens + i) = p.expectsOperand i :=
  is_behind (fun _ _ => rfl) i

@[simp] theorem endsMethodName_behind (i : Nat) :
    p'.endsMethodName (f.tokens + i) = p.endsMethodName i :=
  is_behind (fun _ _ => rfl) i

/-- Past the first token a line starts where it starts without the front. -/
theorem newlineBefore_behind {i : Nat} (later : 0 < i) :
    p'.newlineBefore (f.tokens + i) = p.newlineBefore i := by
  rw [newlineBefore, newlineBefore, Behind.token i, Option.map_map]
  cases p.tokens[i]? with
  | none => rfl
  | some t =>
    have notFirst : (i == 0) = false := beq_eq_false_iff_ne.mpr (Nat.ne_of_gt later)
    change (i == 0 || t.newlineBefore) = t.newlineBefore
    rw [notFirst, Bool.false_or]

@[simp] theorem newlineBefore_behind_succ (i : Nat) :
    p'.newlineBefore (f.tokens + (i + 1)) = p.newlineBefore (i + 1) :=
  newlineBefore_behind (Nat.succ_pos i)

@[simp] theorem offset_behind (i : Nat) : p'.offset (f.tokens + i) = p.offset i + f.chars := by
  rw [offset, offset, Behind.token i, Option.map_map, Behind.length]
  cases p.tokens[i]? <;> rfl

@[simp] theorem slice_behind (start stop : Nat) :
    p'.slice (start + f.chars) (stop + f.chars) = p.slice start stop := by
  rw [slice, slice, Nat.add_sub_add_right, Nat.add_comm start, ← List.drop_drop, Behind.source]

@[simp] theorem close_behind (i : Nat) : p'.close (f.tokens + i) = f.tokens + p.close i := by
  unfold close
  rw [Behind.partner i]
  cases p.partners[i]? with
  | none => rfl
  | some partner =>
    cases partner with
    | none => rfl
    | some j =>
      change max (f.tokens + j) (f.tokens + (i + 1)) = _
      exact Nat.add_max_add_left ..

/-- Past the first token a statement starts where it starts without the front. -/
theorem startsStatement_behind {i : Nat} (later : 0 < i) :
    p'.startsStatement (f.tokens + i) = p.startsStatement i := by
  obtain ⟨k, rfl⟩ := Nat.exists_eq_add_one.mpr later
  have before : f.tokens + (k + 1) - 1 = f.tokens + k := rfl
  have notFirst : (f.tokens + (k + 1) == 0) = false := rfl
  unfold startsStatement
  rw [before, notFirst, Nat.add_sub_cancel]
  simp

theorem afterDot_behind {i : Nat} (later : 0 < i) :
    p'.afterDot (f.tokens + i) = p.afterDot i := by
  obtain ⟨k, rfl⟩ := Nat.exists_eq_add_one.mpr later
  have before : f.tokens + (k + 1) - 1 = f.tokens + k := rfl
  unfold afterDot
  rw [before, Nat.add_sub_cancel, is_behind fun _ _ => rfl]
  simp

end Tokens

end Program

namespace Program

variable {f : Front}

@[simp] theorem isPunct_placed (n i : Nat) (t : Token) (text : String) :
    (t.placed n i).isPunct text = t.isPunct text :=
  rfl

@[simp] theorem isWord_placed (n i : Nat) (t : Token) (text : String) :
    (t.placed n i).isWord text = t.isWord text :=
  rfl

@[simp] theorem isOpener_placed (n i : Nat) (t : Token) : (t.placed n i).isOpener = t.isOpener :=
  rfl

@[simp] theorem kind_placed (n i : Nat) (t : Token) : (t.placed n i).kind = t.kind :=
  rfl

@[simp] theorem text_placed (n i : Nat) (t : Token) : (t.placed n i).text = t.text :=
  rfl

/-! ## Types -/

theorem ite_eq_map {α β : Type} {g : α → β} {c : Prop} [Decidable c] {yes no : Option α}
    {yes' no' : Option β} (ifSo : c → yes' = yes.map g) (ifNot : ¬ c → no' = no.map g) :
    (if c then yes' else no') = (if c then yes else no).map g := by
  split
  case isTrue h => exact ifSo h
  case isFalse h => exact ifNot h

section Types

variable {p' p : Program} [behind : Behind p' f p]

@[simp] theorem angleStop?_behind (depth k : Nat) :
    p'.angleStop? depth (f.tokens + k) = (p.angleStop? depth k).map (f.tokens + ·) := by
  rw [@angleStop?_eq p', @angleStop?_eq p, Behind.token k]
  cases found : p.tokens[k]? with
  | none => rfl
  | some t =>
    have inside : k < p.tokens.size := (Array.getElem?_eq_some_iff.mp found).1
    have closes := p.lt_close k
    rw [Option.map_some, Option.bind_some, Option.bind_some]
    simp only [isPunct_placed, isOpener_placed, kind_placed, text_placed, close_behind, Nat.add_assoc]
    split
    · exact angleStop?_behind (depth + 1) (k + 1)
    split
    · split
      · rfl
      · exact angleStop?_behind (depth - 1) (k + 1)
    split
    · exact angleStop?_behind depth (p.close k + 1)
    split
    · rfl
    · exact angleStop?_behind depth (k + 1)
termination_by p.tokens.size - k

@[simp] theorem qualifiersStop_behind (k : Nat) :
    p'.qualifiersStop (f.tokens + k) = f.tokens + p.qualifiersStop k := by
  rw [@qualifiersStop_eq p', @qualifiersStop_eq p]
  simp only [isPunct_behind, isName_behind, Nat.add_assoc]
  split
  case isTrue name =>
    have inside : k + 1 < p.tokens.size := p.lt_size_of_is name.2
    exact qualifiersStop_behind (k + 2)
  case isFalse => rfl
termination_by p.tokens.size - k

@[simp] theorem entityStop?_behind (i : Nat) :
    p'.entityStop? (f.tokens + i) = (p.entityStop? i).map (f.tokens + ·) := by
  unfold entityStop?
  simp only [isName_behind, Nat.add_assoc, qualifiersStop_behind]
  split <;> rfl

theorem argumentsStop?_behind (sameLine : Bool) {k : Nat} (later : 0 < k) :
    p'.argumentsStop? sameLine (f.tokens + k) = (p.argumentsStop? sameLine k).map (f.tokens + ·) := by
  unfold argumentsStop?
  simp only [isPunct_behind, newlineBefore_behind later, Nat.add_assoc, angleStop?_behind]
  split <;> rfl

theorem indexesStop_behind {k : Nat} (later : 0 < k) :
    p'.indexesStop (f.tokens + k) = f.tokens + p.indexesStop k := by
  rw [@indexesStop_eq p', @indexesStop_eq p]
  simp only [isPunct_behind, newlineBefore_behind later, close_behind, Nat.add_assoc]
  split
  case isTrue opens =>
    have inside : k < p.tokens.size := p.lt_size_of_is opens.1
    have closes := p.lt_close k
    exact indexesStop_behind (Nat.succ_pos (p.close k))
  case isFalse => rfl
termination_by p.tokens.size - k

@[simp] theorem startsType_behind (i : Nat) : p'.startsType (f.tokens + i) = p.startsType i :=
  is_behind (fun _ _ => rfl) i

mutual

@[simp] theorem typeStop?_behind (i : Nat) :
    p'.typeStop? (f.tokens + i) = (p.typeStop? i).map (f.tokens + ·) := by
  rw [@typeStop?_eq p', @typeStop?_eq p, unionStop?_behind i]
  cases first : p.unionStop? i with
  | none => rfl
  | some k =>
    have after := lt_unionStop? first
    rw [Option.map_some, Option.bind_some, Option.bind_some, newlineBefore_behind (by omega),
      isWord_behind]
    split
    case isFalse => rfl
    case isTrue extends' =>
    have inside : k < p.tokens.size := p.lt_size_of_is extends'.1
    rw [Nat.add_assoc, unionStop?_behind (k + 1)]
    cases second : p.unionStop? (k + 1) with
    | none => rfl
    | some check =>
      have after' := lt_unionStop? second
      rw [Option.map_some, Option.elim_some, Option.elim_some, isPunct_behind]
      split
      case isFalse => rfl
      case isTrue =>
      rw [Nat.add_assoc, typeStop?_behind (check + 1)]
      cases third : p.typeStop? (check + 1) with
      | none => rfl
      | some positive =>
        have after'' := lt_typeStop? third
        rw [Option.map_some, Option.bind_some, Option.bind_some, isPunct_behind]
        split
        · exact typeStop?_behind (positive + 1)
        · rfl
termination_by 6 * (p.tokens.size - i) + 5

theorem unionStop?_behind (i : Nat) :
    p'.unionStop? (f.tokens + i) = (p.unionStop? i).map (f.tokens + ·) := by
  rw [@unionStop?_eq p', @unionStop?_eq p, isPunct_behind, isPunct_behind]
  split
  · rw [Nat.add_assoc, operandStop?_behind (i + 1)]
    cases first : p.operandStop? (i + 1) with
    | none => rfl
    | some k =>
      have after := lt_operandStop? first
      exact operandsStop?_behind k
  · rw [operandStop?_behind i]
    cases first : p.operandStop? i with
    | none => rfl
    | some k =>
      have after := lt_operandStop? first
      exact operandsStop?_behind k
termination_by 6 * (p.tokens.size - i) + 4

theorem operandsStop?_behind (k : Nat) :
    p'.operandsStop? (f.tokens + k) = (p.operandsStop? k).map (f.tokens + ·) := by
  rw [@operandsStop?_eq p', @operandsStop?_eq p, isPunct_behind, isPunct_behind]
  split
  case isFalse => rfl
  case isTrue bar =>
  have inside : k < p.tokens.size := by
    rcases Bool.or_eq_true _ _ |>.mp bar with bar | bar <;> exact p.lt_size_of_is bar
  rw [Nat.add_assoc, operandStop?_behind (k + 1)]
  cases first : p.operandStop? (k + 1) with
  | none => rfl
  | some next =>
    have after := lt_operandStop? first
    exact operandsStop?_behind next
termination_by 6 * (p.tokens.size - k) + 3

theorem operandStop?_behind (i : Nat) :
    p'.operandStop? (f.tokens + i) = (p.operandStop? i).map (f.tokens + ·) := by
  have indexes (k : Nat) : some (p'.indexesStop (f.tokens + (k + 1))) =
      (some (p.indexesStop (k + 1))).map (f.tokens + ·) :=
    congrArg some (indexesStop_behind (Nat.succ_pos k))
  have literal : p'.is (f.tokens + i) (fun t => t.kind == .string || t.kind == .template ||
      t.kind == .number) = p.is i fun t => t.kind == .string || t.kind == .template ||
        t.kind == .number := is_behind (fun _ _ => rfl) i
  have closes := p.lt_close i
  rw [@operandStop?_eq p', @operandStop?_eq p]
  simp only [isOneOf_behind, isWord_behind, isName_behind, isPunct_behind, kind?_behind,
    startsType_behind, newlineBefore_behind_succ, close_behind, Nat.add_assoc, literal]
  refine ite_eq_map (fun modifier => ?_) fun _ => ?_
  · have inside : i < p.tokens.size := p.lt_size_of_is modifier.1
    exact operandStop?_behind (i + 1)
  refine ite_eq_map (fun _ => indexes (i + 1)) fun _ => ?_
  refine ite_eq_map (fun abstract => ?_) fun _ => ?_
  · rw [Bool.and_eq_true] at abstract
    have inside : i + 1 < p.tokens.size := p.lt_size_of_is abstract.2
    exact ite_eq_map (fun _ => functionTypeStop?_behind (i + 2)) fun _ =>
      namedTypeStop?_behind (i + 1)
  refine ite_eq_map (fun new => ?_) fun _ => ?_
  · have inside : i < p.tokens.size := p.lt_size_of_is new.1
    exact functionTypeStop?_behind (i + 1)
  refine ite_eq_map (fun asserts => ?_) fun _ => ?_
  · have inside : i < p.tokens.size := p.lt_size_of_is asserts.1
    exact ite_eq_map (fun _ => typeStop?_behind (i + 3)) fun _ => rfl
  refine ite_eq_map (fun opens => ?_) fun _ => ?_
  · have inside : i < p.tokens.size := p.lt_size_of_is opens
    exact ite_eq_map (fun _ => typeStop?_behind (p.close i + 2)) fun _ => indexes (p.close i)
  refine ite_eq_map (fun _ => functionTypeStop?_behind i) fun _ => ?_
  refine ite_eq_map (fun _ => indexes (p.close i)) fun _ => ?_
  refine ite_eq_map (fun _ => indexes (i + 1)) fun _ => ?_
  refine ite_eq_map (fun _ => namedTypeStop?_behind i) fun _ => ?_
  exact ite_eq_map (fun _ => indexes i) fun _ => rfl
termination_by 6 * (p.tokens.size - i) + 2

theorem namedTypeStop?_behind (i : Nat) :
    p'.namedTypeStop? (f.tokens + i) = (p.namedTypeStop? i).map (f.tokens + ·) := by
  rw [@namedTypeStop?_eq p', @namedTypeStop?_eq p]
  simp only [isWord_behind, isPunct_behind, close_behind, Nat.add_assoc, entityStop?_behind,
    qualifiersStop_behind]
  refine ite_eq_map (fun _ => ?_) fun _ => ite_eq_map (fun _ => ?_) fun _ => ?_
  · cases entity : p.entityStop? (i + 1) with
    | none => rfl
    | some k =>
      have after := lt_entityStop? entity
      rw [Option.map_some, Option.bind_some, Option.bind_some, argumentsStop?_behind false (by omega)]
      cases arguments : p.argumentsStop? false k with
      | none => rfl
      | some j =>
        have after' := le_argumentsStop? arguments
        exact congrArg some (indexesStop_behind (by omega))
  · have after := p.lt_close (i + 1)
    have after' := p.le_qualifiersStop (p.close (i + 1) + 1)
    rw [argumentsStop?_behind false (by omega)]
    cases arguments : p.argumentsStop? false (p.qualifiersStop (p.close (i + 1) + 1)) with
    | none => rfl
    | some j =>
      have after'' := le_argumentsStop? arguments
      exact congrArg some (indexesStop_behind (by omega))
  · cases entity : p.entityStop? i with
    | none => rfl
    | some k =>
      have after := lt_entityStop? entity
      rw [Option.map_some, Option.bind_some, Option.bind_some, argumentsStop?_behind true (by omega)]
      cases arguments : p.argumentsStop? true k with
      | none => rfl
      | some j =>
        have after' := le_argumentsStop? arguments
        rw [Option.map_some, Option.bind_some, Option.bind_some, isWord_behind,
          newlineBefore_behind (by omega)]
        refine ite_eq_map (fun is => ?_) fun _ => congrArg some (indexesStop_behind (by omega))
        have inside : j < p.tokens.size := p.lt_size_of_is is.1
        rw [Nat.add_assoc]
        exact typeStop?_behind (j + 1)
termination_by 6 * (p.tokens.size - i)

theorem functionTypeStop?_behind (i : Nat) :
    p'.functionTypeStop? (f.tokens + i) = (p.functionTypeStop? i).map (f.tokens + ·) := by
  rw [@functionTypeStop?_eq p', @functionTypeStop?_eq p]
  simp only [isPunct_behind, Nat.add_assoc, angleStop?_behind]
  split
  · cases angle : p.angleStop? 0 (i + 1) with
    | none => rfl
    | some k =>
      have after := lt_angleStop? angle
      exact signatureStop?_behind k
  · exact signatureStop?_behind i
termination_by 6 * (p.tokens.size - i) + 1

theorem signatureStop?_behind (i : Nat) :
    p'.signatureStop? (f.tokens + i) = (p.signatureStop? i).map (f.tokens + ·) := by
  rw [@signatureStop?_eq p', @signatureStop?_eq p]
  simp only [isPunct_behind, Nat.add_assoc, close_behind]
  split
  case isTrue opens =>
    have inside : i < p.tokens.size := p.lt_size_of_is opens
    have closes := p.lt_close i
    split
    · exact typeStop?_behind (p.close i + 2)
    · rfl
  case isFalse => rfl
termination_by 6 * (p.tokens.size - i)

end

end Types

end Program

end ModuleLinker.Erase
