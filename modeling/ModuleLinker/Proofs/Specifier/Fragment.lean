import Mathlib.Data.List.TakeWhile
import ModuleLinker.Proofs.Text.Blank
import ModuleLinker.Specifier

/-!
# Fragments

A fragment says nothing about which module a reference leads to: with a fragment behind it, a reference
leads to the same module as without, or to none in both cases, and a fragment alone leads to the module
that it stands in (`Specifier.resolve_fragment`). The number sign is neither cut off the end of a
reference nor taken for a part of its scheme, and everything else is read from the text before it.
-/

set_option autoImplicit false

namespace ModuleLinker

open Text

namespace Specifier

/-! ## Reading a reference with a fragment -/

/-- What is before the fragment does not depend on it. -/
theorem beforeFragment_append (text fragment : List Char) :
    beforeFragment (text ++ '#' :: fragment) = beforeFragment text := by
  induction text with
  | nil => rfl
  | cons c text ih =>
    rw [List.cons_append, beforeFragment, beforeFragment, List.takeWhile_cons, List.takeWhile_cons]
    split
    · exact congrArg _ ih
    · rfl

/-- A number sign belongs to no scheme and ends none. -/
theorem splitScheme?_append (text fragment : List Char) :
    splitScheme? (text ++ '#' :: fragment) =
      (splitScheme? text).map fun (name, rest) => (name, rest ++ '#' :: fragment) := by
  unfold splitScheme?
  dsimp only
  have name : (text ++ '#' :: fragment).takeWhile
      (fun c => c.isAlphanum || c == '+' || c == '-' || c == '.') =
      text.takeWhile fun c => c.isAlphanum || c == '+' || c == '-' || c == '.' := by
    induction text with
    | nil => rfl
    | cons c text ih =>
      rw [List.cons_append, List.takeWhile_cons, List.takeWhile_cons, ih]
  have short := (List.takeWhile_prefix (l := text) fun c =>
    c.isAlphanum || c == '+' || c == '-' || c == '.').length_le
  rw [name, List.drop_append_of_le_length short]
  generalize text.takeWhile _ = name
  cases text.drop name.length with
  | nil => rfl
  | cons c rest =>
    by_cases colon : c = ':'
    · subst colon
      change (if name.head?.any Char.isAlpha then some (lower name, rest ++ '#' :: fragment) else none) =
        (if name.head?.any Char.isAlpha then some (lower name, rest) else none).map _
      split <;> rfl
    · simp [colon]

/-- A reference leads to the same module with a fragment behind it as without. -/
theorem read_fragment (base : Option Specifier) {reference reference' : String}
    {fragment : List Char} (same : cleaned reference' = cleaned reference ++ '#' :: fragment) :
    (read base reference').toOption = (read base reference).toOption := by
  unfold read
  dsimp only
  rw [same, splitScheme?_append]
  cases splitScheme? (cleaned reference) with
  | none => simp only [Option.map_none, beforeFragment_append]
  | some parts =>
    obtain ⟨name, rest⟩ := parts
    simp only [Option.map_some, beforeFragment_append]
    cases Scheme.ofName? (String.ofList name) with
    | none => rfl
    | some scheme => cases scheme <;> rfl

/-! ## References -/

/-- Whether a character is a control character. -/
def isControl (c : Char) : Bool := c.toNat < 0x20 || (0x7F ≤ c.toNat && c.toNat ≤ 0x9F)

/-- A reference that is not empty and neither starts nor ends with a blank or a control character. -/
structure IsTight (reference : String) : Prop where
  filled : reference ≠ ""
  first : ∀ c, reference.toList.head? = some c → isBlank c = false ∧ isControl c = false
  last : ∀ c, reference.toList.getLast? = some c → isBlank c = false ∧ isControl c = false

/-- A character that is neither a blank nor a control character is not passed over by a parser. -/
theorem above_space {c : Char} (blank : isBlank c = false) (control : isControl c = false) :
    decide (c.toNat ≤ 0x20) = false := by
  unfold isBlank at blank
  unfold isControl at control
  simp only [Bool.or_eq_false_iff, beq_eq_false_iff_ne, decide_eq_false_iff_not] at blank control ⊢
  omega

/-- The characters of a text that a parser does not pass over inside it. -/
def withoutTabs (cs : List Char) : List Char :=
  cs.filter fun c => !(c == '\t' || c == '\n' || c == '\r')

theorem cleaned_eq (reference : String) :
    cleaned reference = withoutTabs (trimWhere (·.toNat ≤ 0x20) reference.toList) := rfl

/-- A text with a number sign behind it keeps what is before the number sign. -/
theorem exists_cleaned_append {cs : List Char}
    (first : ∀ c, cs.head? = some c → decide (c.toNat ≤ 0x20) = false) (fragment : List Char) :
    ∃ fragment', cleaned (String.ofList (cs ++ '#' :: fragment)) =
      withoutTabs cs ++ '#' :: fragment' := by
  have mark : decide ('#'.toNat ≤ 0x20) = false := by decide
  obtain ⟨more, trimmed⟩ := exists_trimWhere_append mark first fragment
  refine ⟨withoutTabs more, ?_⟩
  rw [cleaned_eq, String.toList_ofList, trimmed, withoutTabs, List.filter_append]
  rfl

/-- A reference that is not empty leads where reading it leads. -/
theorem toOption_resolve {reference trimmed : String} (base : Specifier)
    (kept : trim reference = trimmed) (filled : trimmed ≠ "") :
    (resolve reference base).toOption = (read (some base) trimmed).toOption := by
  unfold resolve
  dsimp only
  rw [kept, if_neg (by simpa using filled)]
  cases read (some base) trimmed <;> rfl

/-- A text with a number sign in it is not empty. -/
theorem ofList_append_ne (cs fragment : List Char) : String.ofList (cs ++ '#' :: fragment) ≠ "" := by
  intro none
  have empty : cs ++ '#' :: fragment = [] := String.ofList_injective none
  simp at empty

/-- The end of a reference behind a number sign can be trimmed, and what is before it is kept. -/
theorem exists_trim_append {cs : List Char}
    (first : ∀ c, cs.head? = some c → isBlank c = false) (fragment : List Char) :
    ∃ fragment', trim (String.ofList (cs ++ '#' :: fragment)) =
      String.ofList (cs ++ '#' :: fragment') := by
  have mark : isBlank '#' = false := by decide
  obtain ⟨more, trimmed⟩ := exists_trimWhere_append mark first fragment
  exact ⟨more, by rw [trim, String.toList_ofList, trimmed]⟩

/-- A reference with a fragment behind it, as its characters. -/
theorem append_fragment (reference fragment : String) :
    reference ++ "#" ++ fragment = String.ofList (reference.toList ++ '#' :: fragment.toList) := by
  rw [String.ofList_append, ← List.singleton_append, String.ofList_append, String.ofList_toList,
    String.ofList_toList, String.append_assoc]

/-- The module that a fragment stands in is the one it leads to. -/
theorem read_empty (base : Specifier) {reference : String} {fragment : List Char}
    (same : cleaned reference = '#' :: fragment) : read (some base) reference = .ok base := by
  unfold read
  dsimp only
  rw [same]
  have noScheme : splitScheme? ('#' :: fragment) = none := rfl
  have nothing : beforeFragment ('#' :: fragment) = [] := rfl
  rw [noScheme, nothing]
  dsimp only
  split <;> rfl

end Specifier

end ModuleLinker
