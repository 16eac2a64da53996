import Mathlib.Data.List.TakeWhile
import ModuleLinker.Source.Scan
import ModuleLinker.Proofs.Source.Lexeme

/-!
# What stands between tokens

A gap is a list of fillers: single blanks, comments up to the end of their line, comments that are
closed, and the line at the very start that names an interpreter. What scanning passes over before a
token is such a list, and the mark of a line end that it leaves is the one of its fillers
(`gap_spec`).
-/

set_option autoImplicit false

namespace ModuleLinker

open Lexeme Text

/-- Something that may stand between two tokens. -/
inductive Filler where
  /-- A blank or a byte order mark. -/
  | blank (c : Char)
  /-- A comment up to the end of its line. -/
  | lineComment (body : List Char)
  /-- A comment between its two marks. -/
  | blockComment (body : List Char)
  /-- The line that names an interpreter. -/
  | interpreterLine (body : List Char)
  deriving DecidableEq, Repr

namespace Filler

/-- The characters of a filler. -/
def text : Filler → List Char
  | blank c => [c]
  | lineComment body => '/' :: '/' :: body
  | blockComment body => '/' :: '*' :: (body ++ ['*', '/'])
  | interpreterLine body => '#' :: '!' :: body

/-- Whether a line ends in a filler. In a comment only a line feed or a carriage return counts. -/
def endsLine : Filler → Bool
  | blank c => isLineEnd c
  | filler => filler.text.any fun c => c == '\n' || c == '\r'

/-- Whether a text goes on up to the end of its line, where `rest` follows it. -/
def IsLine (body rest : List Char) : Prop :=
  (∀ c ∈ body, c ≠ '\n' ∧ c ≠ '\r') ∧ ∀ c ∈ rest.head?, c = '\n' ∨ c = '\r'

/-- Whether a filler may stand at an offset before the text `rest`. -/
def MayStand (offset : Nat) (rest : List Char) : Filler → Prop
  | blank c => isBlank c = true ∨ c = '\ufeff'
  | lineComment body => IsLine body rest
  | blockComment body => ¬ ['*', '/'] <:+: body ++ ['*']
  | interpreterLine body => offset = 0 ∧ IsLine body rest

end Filler

/-- The characters of some fillers. -/
def gapText (fillers : List Filler) : List Char := fillers.flatMap Filler.text

@[simp]
theorem gapText_nil : gapText [] = [] := rfl

@[simp]
theorem gapText_cons (filler : Filler) (fillers : List Filler) :
    gapText (filler :: fillers) = filler.text ++ gapText fillers := List.flatMap_cons

/-- Whether fillers may stand one after another from an offset on, before the text `rest`. -/
inductive Fills : Nat → List Filler → List Char → Prop
  /-- A gap may be empty. -/
  | nil (offset : Nat) (rest : List Char) : Fills offset [] rest
  /-- A filler may stand before more of them. -/
  | cons {offset : Nat} {filler : Filler} {fillers : List Filler} {rest : List Char} :
    filler.MayStand offset (gapText fillers ++ rest) →
      Fills (offset + filler.text.length) fillers rest → Fills offset (filler :: fillers) rest

/-- The characters up to the next line feed or carriage return make up the rest of a line. -/
theorem isLine_take (cs : List Char) :
    Filler.IsLine (cs.take (lineLength cs)) (cs.drop (lineLength cs)) := by
  have split : cs.takeWhile (fun c => c != '\n' && c != '\r') ++
      cs.dropWhile (fun c => c != '\n' && c != '\r') = cs := List.takeWhile_append_dropWhile
  have front : cs.take (lineLength cs) = cs.takeWhile fun c => c != '\n' && c != '\r' := by
    rw [lineLength, ← List.prefix_iff_eq_take.mp (List.takeWhile_prefix _)]
  have back : cs.drop (lineLength cs) = cs.dropWhile fun c => c != '\n' && c != '\r' := by
    rw [← List.append_cancel_left_eq (cs.take (lineLength cs)), List.take_append_drop, front, split]
  rw [front, back]
  constructor
  · intro c mem
    simpa using List.mem_takeWhile_imp mem
  · intro c mem
    have stops := List.head?_dropWhile_not (fun c => c != '\n' && c != '\r') cs
    rw [Option.mem_def.mp mem] at stops
    simpa [Decidable.or_iff_not_imp_left] using stops

theorem length_take_lineLength (cs : List Char) :
    (cs.take (lineLength cs)).length = lineLength cs := by
  have le : lineLength cs ≤ cs.length := (List.takeWhile_prefix _).length_le
  rw [List.length_take, Nat.min_eq_left le]

/-- A line end does not belong to the line. -/
theorem Filler.IsLine.not_any {body rest : List Char} (line : Filler.IsLine body rest) :
    (body.any fun c => c == '\n' || c == '\r') = false := by
  simpa using line.1

/-- A closed comment ends with the first mark that closes it. -/
theorem blockLength?_spec {n length : Nat} {cs : List Char} (closes : blockLength? n cs = some length) :
    ∃ body rest, cs = body ++ ['*', '/'] ++ rest ∧ length = n + (body.length + 2) ∧
      ¬ ['*', '/'] <:+: body ++ ['*'] := by
  fun_induction blockLength? n cs with
  | case1 n rest =>
    cases closes
    refine ⟨[], rest, rfl, by simp, fun inside => ?_⟩
    have := inside.length_le
    simp at this
  | case2 n c cs open_ ih =>
    obtain ⟨body, rest, rfl, size, first⟩ := ih closes
    refine ⟨c :: body, rest, rfl, by rw [size, List.length_cons]; omega, ?_⟩
    rw [List.cons_append, List.infix_cons_iff, not_or]
    refine ⟨fun here => ?_, first⟩
    rw [List.cons_prefix_cons] at here
    obtain ⟨rfl, more, here⟩ := here
    cases body with
    | nil => simp at here
    | cons d body =>
      obtain ⟨rfl, -⟩ := List.cons.inj here
      exact open_ _ rfl rfl
  | case3 n => cases closes

/-- Whether passing over the start of the text `cs`, which lies at an offset, leads from one gap to
another: what is passed over is a list of fillers, and its length and its line ends are added. -/
def Passes (before after : Gap) (offset : Nat) (cs : List Char) : Prop :=
  ∃ fillers rest, cs = gapText fillers ++ rest ∧ Fills offset fillers rest ∧
    after.length = before.length + (gapText fillers).length ∧
    after.newline = (before.newline || fillers.any Filler.endsLine)

theorem Passes.refl (gap : Gap) (offset : Nat) (cs : List Char) : Passes gap gap offset cs :=
  ⟨[], cs, rfl, .nil .., rfl, (Bool.or_false _).symm⟩

/-- A filler is passed over before the rest of its gap. -/
theorem Passes.cons {before between after : Gap} {offset : Nat} {cs : List Char} {filler : Filler}
    (stands : filler.MayStand offset cs)
    (length : between.length = before.length + filler.text.length)
    (newline : between.newline = (before.newline || filler.endsLine))
    (rest : Passes between after (offset + filler.text.length) cs) :
    Passes before after offset (filler.text ++ cs) := by
  obtain ⟨fillers, rest, rfl, fills, size, ends⟩ := rest
  refine ⟨filler :: fillers, rest, ?_, .cons stands fills, ?_, ?_⟩
  · rw [gapText_cons, List.append_assoc]
  · rw [size, length, gapText_cons, List.length_append, Nat.add_assoc]
  · rw [ends, newline, List.any_cons, Bool.or_assoc]

/-- What is passed over before a token is a list of fillers. -/
theorem gap_spec {pos : Nat} {before after : Gap} {cs : List Char}
    (passed : gap pos before cs = .ok after) (offset : Nat) : Passes before after offset cs := by
  fun_induction gap pos before cs generalizing offset with
  | case1 =>
    cases passed
    exact .refl ..
  | case2 pos before c cs ends ih =>
    have stands : (Filler.blank c).MayStand offset cs := .inl (isBlank_of_isLineEnd ends)
    refine .cons stands rfl ?_ (ih passed _)
    rw [Filler.endsLine, ends, Bool.or_true]
  | case3 pos before c cs noEnd blank ih =>
    have stands : (Filler.blank c).MayStand offset cs := by
      change isBlank c = true ∨ c = '\ufeff'
      simpa using blank
    refine .cons stands rfl ?_ (ih passed _)
    rw [Filler.endsLine, Bool.not_eq_true _ |>.mp noEnd, Bool.or_false]
  | case4 pos before c cs noEnd noBlank slashes n ih =>
    rw [Bool.and_eq_true, decide_eq_true_eq, beq_iff_eq] at slashes
    obtain ⟨rfl, second⟩ := slashes
    obtain ⟨more, rfl⟩ := List.head?_eq_some_iff.mp second
    have size : n = lineLength more + 1 := rfl
    have line := isLine_take more
    have whole : '/' :: '/' :: more =
        (Filler.lineComment (more.take (lineLength more))).text ++ more.drop (lineLength more) := by
      simp [Filler.text]
    have length : (Filler.lineComment (more.take (lineLength more))).text.length = 1 + n := by
      rw [Filler.text, List.length_cons, List.length_cons, length_take_lineLength, size]
      omega
    have noEnd : (Filler.lineComment (more.take (lineLength more))).endsLine = false :=
      line.not_any
    rw [whole]
    refine .cons line ?_ ?_ (ih passed _)
    · rw [length, Nat.add_assoc]
    · rw [noEnd, Bool.or_false]
  | case5 => cases passed
  | case6 pos before c cs noEnd noBlank noLine opens n closes newline ih =>
    rw [Bool.and_eq_true, decide_eq_true_eq, beq_iff_eq] at opens
    obtain ⟨rfl, second⟩ := opens
    obtain ⟨more, rfl⟩ := List.head?_eq_some_iff.mp second
    obtain ⟨body, rest, same, rfl, first⟩ := blockLength?_spec closes
    obtain rfl : more = body ++ ['*', '/'] ++ rest := same
    have split : '*' :: (body ++ ['*', '/'] ++ rest) = ('*' :: (body ++ ['*', '/'])) ++ rest := rfl
    have length : ('*' :: (body ++ ['*', '/'])).length = 1 + (body.length + 2) := by
      simp
      omega
    have whole : '/' :: '*' :: (body ++ ['*', '/'] ++ rest) =
        (Filler.blockComment body).text ++ rest := rfl
    rw [split, List.drop_left' length] at ih passed
    rw [whole]
    have ends : newline = (Filler.blockComment body).endsLine := by
      simp only [newline, split]
      rw [List.take_left' length]
      simp [Filler.endsLine, Filler.text]
    refine .cons first ?_ ?_ (ih passed _)
    · change before.length + 1 + (1 + (body.length + 2)) = before.length + _
      rw [Filler.text, List.length_cons, length]
      omega
    · rw [← ends]
  | case7 =>
    cases passed
    exact .refl ..

end ModuleLinker
