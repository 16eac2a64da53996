import ModuleLinker.Proofs.Source.Substitution

/-!
# Template literals that are put together

A template literal that is made of plain texts and of texts that fill a substitution (`Literal`) is one
token, and its substitutions are those texts (`scan_literal`). A text that can be scanned alone fills a
substitution, a line feed behind it, unless a regular expression in it is mistaken for something else
there: `scan_substitution` has the condition, and `scan_brace_in_regex` a text that does without it.
-/

set_option autoImplicit false

namespace ModuleLinker

open Lexeme

/-- A template literal: plain texts with substitutions between them. -/
inductive Literal where
  /-- The text behind the last substitution. -/
  | last (plain : List Char)
  /-- A text, the substitution behind it, and what follows them. -/
  | hole (plain inside : List Char) (rest : Literal)

namespace Literal

/-- The characters of a literal behind the mark that it starts with. -/
def body : Literal → List Char
  | last plain => plain ++ [templateMark]
  | hole plain inside rest => plain ++ '$' :: '{' :: (inside ++ '}' :: rest.body)

/-- The characters of a literal. -/
def text (l : Literal) : List Char := templateMark :: l.body

/-- The texts between the substitutions. -/
def plains : Literal → List (List Char)
  | last plain => [plain]
  | hole plain _ rest => plain :: rest.plains

/-- The texts in the substitutions. -/
def insides : Literal → List (List Char)
  | last _ => []
  | hole _ inside rest => inside :: rest.insides

/-- The substitutions of a literal whose body lies at an offset. -/
def holesFrom (pos : Nat) : Literal → List Hole
  | last _ => []
  | hole plain inside rest =>
    let start := pos + plain.length + 2
    ⟨start, inside⟩ :: rest.holesFrom (start + inside.length + 1)

end Literal

/-- Whether a character has no meaning of its own between substitutions. -/
def isTemplatePlain (c : Char) : Bool := c != templateMark && c != '\\' && c != '$'

namespace Lexeme

/-- Plain characters are passed by. -/
theorem template_plain {plain : List Char} (isPlain : ∀ c ∈ plain, isTemplatePlain c = true)
    (start pos : Nat) (holes : List Hole) (rest : List Char) :
    template start pos holes (plain ++ rest) = template start (pos + plain.length) holes rest := by
  induction plain generalizing pos with
  | nil => rfl
  | cons c plain ih =>
    rw [List.forall_mem_cons] at isPlain
    obtain ⟨first, isPlain⟩ := isPlain
    simp only [isTemplatePlain, Bool.and_eq_true, bne_iff_ne] at first
    obtain ⟨⟨noMark, noEscape⟩, noDollar⟩ := first
    have noHole : ¬ (decide (c = '$') && (plain ++ rest).head? == some '{') = true := by simp [noDollar]
    rw [List.cons_append, template, if_neg noMark, if_neg noEscape, if_neg noHole, ih isPlain,
      List.length_cons, Nat.add_assoc, Nat.add_comm 1]

/-- A substitution that a text fills is taken off a template literal. -/
theorem template_hole {inside : List Char} (fills : FillsHole inside) (start pos : Nat)
    (holes : List Hole) (rest : List Char) :
    template start pos holes ('$' :: '{' :: (inside ++ '}' :: rest)) =
      template start (pos + 2 + inside.length + 1) (⟨pos + 2, inside⟩ :: holes) rest := by
  have opens : (decide ('$' = '$') && ('{' :: (inside ++ '}' :: rest)).head? == some '{') = true := rfl
  rw [template, if_neg (by decide), if_neg (by decide), if_pos opens, List.drop_succ_cons, List.drop_zero]
  dsimp only
  rw [fills start]
  simp only [bind, Except.bind, Nat.add_sub_cancel_left, List.take_left]
  rw [← List.drop_drop, List.drop_left, List.drop_succ_cons, List.drop_zero]

/-- The substitutions of a template literal are the texts that it was put together from. -/
theorem template_body {l : Literal} (plain : ∀ t ∈ l.plains, ∀ c ∈ t, isTemplatePlain c = true)
    (fills : ∀ t ∈ l.insides, FillsHole t) (start pos : Nat) (holes : List Hole) :
    template start pos holes l.body = .ok (pos + l.body.length, holes.reverse ++ l.holesFrom pos) := by
  induction l generalizing pos holes with
  | last text =>
    rw [Literal.body, template_plain (plain text List.mem_cons_self), template, if_pos rfl,
      List.length_append, Literal.holesFrom, List.append_nil]
    rfl
  | hole text inside rest ih =>
    rw [Literal.plains, List.forall_mem_cons] at plain
    rw [Literal.insides, List.forall_mem_cons] at fills
    rw [Literal.body, template_plain plain.1, template_hole fills.1, ih plain.2 fills.2, Literal.holesFrom,
      List.reverse_cons, List.append_assoc, List.singleton_append]
    have length : pos + text.length + 2 + inside.length + 1 + rest.body.length =
        pos + (text ++ '$' :: '{' :: (inside ++ '}' :: rest.body)).length := by
      simp only [List.length_append, List.length_cons]
      omega
    rw [length]

end Lexeme

/-- A template literal is one token. -/
theorem scan_literal {l : Literal} (plain : ∀ t ∈ l.plains, ∀ c ∈ t, isTemplatePlain c = true)
    (fills : ∀ t ∈ l.insides, FillsHole t) :
    scan l.text = .ok #[⟨.template, 0, String.ofList l.text, false, l.holesFrom 1⟩] := by
  have between : gap 0 ⟨0, false⟩ l.text = .ok ⟨0, false⟩ := gap_of_isSolid (by decide +kernel) ..
  have cut : extent true 0 templateMark l.body = .ok ⟨.template, l.body.length, l.holesFrom 1⟩ := by
    rw [extent, if_neg (by decide), if_pos rfl, template_body plain fills]
    simp [bind, Except.bind]
  have noInterpreter : interpreterLineLength l.text = 0 := rfl
  rw [scan, noInterpreter, List.drop_zero, scanFrom_cons between rfl cut]
  dsimp only
  rw [List.take_length, List.drop_length, scanFrom_nil]
  rfl

/-- A text is no interpreter line where it does not start like one. -/
theorem interpreterLineLength_eq_zero {text : List Char} (plain : ¬ ['#', '!'] <+: text) :
    interpreterLineLength text = 0 := by
  unfold interpreterLineLength
  split
  case h_1 cs => exact absurd (List.prefix_append ['#', '!'] cs) plain
  case h_2 => rfl

/-- A text in a substitution, on its own line, which fills a template literal. -/
def inSubstitution (text : List Char) : List Char :=
  templateMark :: '$' :: '{' :: (text ++ ['\n', '}', templateMark])

/-- A text that can be scanned, with matched brackets, is all of a substitution if a line feed follows
it and its regular expressions look like nothing else. -/
theorem scan_substitution {text : List Char} {tokens : Array Token} {partners : Partners}
    (plain : ¬ ['#', '!'] <+: text) (scanned : scan text = .ok tokens)
    (matched : matchBrackets tokens = .ok partners)
    (quiet : ∀ t ∈ tokens, t.kind = .regex → t.IsQuiet text) :
    scan (inSubstitution text) =
      .ok #[⟨.template, 0, String.ofList (inSubstitution text), false, [⟨3, text ++ ['\n']⟩]⟩] := by
  have fills := fillsHole_lineFeed (interpreterLineLength_eq_zero plain) scanned matched quiet
  have whole : (Literal.hole [] (text ++ ['\n']) (.last [])).text = inSubstitution text := by
    simp [Literal.text, Literal.body, inSubstitution]
  rw [← whole, scan_literal (by simp [Literal.plains]) (by simpa [Literal.insides] using fills)]
  rfl

/-- Braces in a string and in a comment do no harm, and neither do those of a quantifier. -/
theorem scan_substitution_braces :
    ∃ tokens partners, scan "f(\"\x7d\", /a\x7b2\x7d/g) // \x7d".toList = .ok tokens ∧
      matchBrackets tokens = .ok partners ∧ tokens.any (·.kind == .regex) = true ∧
      scan (inSubstitution "f(\"\x7d\", /a\x7b2\x7d/g) // \x7d".toList) =
        .ok #[⟨.template, 0, "\x60$\x7bf(\"\x7d\", /a\x7b2\x7d/g) // \x7d\n\x7d\x60", false,
          [⟨3, "f(\"\x7d\", /a\x7b2\x7d/g) // \x7d\n".toList⟩]⟩] := by
  have scanned : scan "f(\"\x7d\", /a\x7b2\x7d/g) // \x7d".toList = .ok
      #[⟨.ident, 0, "f", false, []⟩, ⟨.punct, 1, "(", false, []⟩, ⟨.string, 2, "\"\x7d\"", false, []⟩,
        ⟨.punct, 5, ",", false, []⟩, ⟨.regex, 7, "/a\x7b2\x7d/g", false, []⟩,
        ⟨.punct, 14, ")", false, []⟩] := by cbv
  have quiet : Token.IsQuiet ⟨.regex, 7, "/a\x7b2\x7d/g", false, []⟩
      "f(\"\x7d\", /a\x7b2\x7d/g) // \x7d".toList := by
    refine ⟨List.all_eq_true.mp (by cbv), fun n ge less => ?_, by cbv⟩
    change n < 14 at less
    change 7 ≤ n at ge
    interval_cases n <;> decide +kernel
  have matched : matchBrackets #[⟨.ident, 0, "f", false, []⟩, ⟨.punct, 1, "(", false, []⟩,
        ⟨.string, 2, "\"\x7d\"", false, []⟩, ⟨.punct, 5, ",", false, []⟩,
        ⟨.regex, 7, "/a\x7b2\x7d/g", false, []⟩, ⟨.punct, 14, ")", false, []⟩] =
      .ok #[none, some 5, none, none, none, some 1] := by decide +kernel
  refine ⟨_, _, scanned, matched, by decide +kernel, ?_⟩
  exact scan_substitution (by decide) scanned matched (by simpa using quiet)

/-- A brace in a regular expression ends the substitution that it stands in. -/
theorem scan_brace_in_regex :
    ¬ ['#', '!'] <+: "/\x7d/".toList ∧
      scan "/\x7d/".toList = .ok #[⟨.regex, 0, "/\x7d/", false, []⟩] ∧
      matchBrackets #[⟨.regex, 0, "/\x7d/", false, []⟩] = .ok #[none] ∧
      scan (inSubstitution "/\x7d/".toList) =
        .ok #[⟨.template, 0, "\x60$\x7b/\x7d/\n\x7d\x60", false, [⟨3, ['/']⟩]⟩] := by
  refine ⟨by decide, by cbv, by decide +kernel, by cbv⟩

end ModuleLinker
