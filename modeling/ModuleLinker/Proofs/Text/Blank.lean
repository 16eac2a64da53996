import ModuleLinker.Text.Blank

/-!
# Trimming

What is left of a text when characters are cut off its two ends: all of it where both ends are kept, and
at least what comes before a character that is kept, that character included.
-/

set_option autoImplicit false

namespace ModuleLinker.Text

variable {strip : Char → Bool} {cs : List Char}

theorem dropWhile_of_head? (kept : ∀ c, cs.head? = some c → strip c = false) :
    cs.dropWhile strip = cs := by
  cases cs with
  | nil => rfl
  | cons c cs => rw [List.dropWhile_cons, kept c rfl, if_neg Bool.false_ne_true]

/-- A text that is kept at both ends is kept. -/
theorem trimWhere_of_ends (first : ∀ c, cs.head? = some c → strip c = false)
    (last : ∀ c, cs.getLast? = some c → strip c = false) : trimWhere strip cs = cs := by
  have turned : ∀ c, cs.reverse.head? = some c → strip c = false := by
    intro c here
    rw [List.head?_reverse] at here
    exact last c here
  rw [trimWhere, dropWhile_of_head? first, dropWhile_of_head? turned, List.reverse_reverse]

theorem trimWhere_of_forall (kept : ∀ c ∈ cs, strip c = false) : trimWhere strip cs = cs :=
  trimWhere_of_ends (fun c here => kept c (List.mem_of_head? here)) fun c here =>
    kept c (List.mem_of_getLast? here)

/-- Behind a character that is kept, a text loses characters at its end only. -/
theorem exists_trimWhere_append {mark : Char} (kept : strip mark = false)
    (first : ∀ c, cs.head? = some c → strip c = false) (more : List Char) :
    ∃ more', trimWhere strip (cs ++ mark :: more) = cs ++ mark :: more' := by
  have start : ∀ c, (cs ++ mark :: more).head? = some c → strip c = false := by
    cases cs with
    | nil =>
      rintro c ⟨⟩
      exact kept
    | cons d cs => exact first
  have stops : (mark :: cs.reverse).dropWhile strip = mark :: cs.reverse := by
    rw [List.dropWhile_cons, kept, if_neg Bool.false_ne_true]
  have turned : (cs ++ mark :: more).reverse = more.reverse ++ mark :: cs.reverse := by simp
  refine ⟨(more.reverse.dropWhile strip).reverse, ?_⟩
  rw [trimWhere, dropWhile_of_head? start, turned, List.dropWhile_append, stops]
  split
  case isTrue none =>
    rw [List.isEmpty_iff.mp none]
    simp
  case isFalse => simp

end ModuleLinker.Text
