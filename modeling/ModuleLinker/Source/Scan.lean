import ModuleLinker.Source.Lexeme

/-!
# Scanning

The tokens of a source text, in order. Whether a slash starts a regular expression or divides is
decided from the token before it.
-/

set_option autoImplicit false

namespace ModuleLinker

open ModuleLinker.Lexeme

/-- The words after which a slash starts a regular expression. -/
def regexPrecedingWords : List String := [
  "return", "typeof", "instanceof", "in", "of", "new", "delete", "void", "throw", "case",
  "do", "else", "yield", "await"]

/-- Whether a slash after this token starts a regular expression. -/
def regexAllowedAfter : Option Token → Bool
  | none => true
  | some t =>
    match t.kind with
    | .punct => !(t.text == ")" || t.text == "]" || t.text == "++" || t.text == "--")
    | .ident => regexPrecedingWords.contains t.text
    | _ => false

/-- The tokens of the text `cs`, which lies at the offset `pos` after the tokens `done`. -/
def scanFrom (done : Array Token) (pos : Nat) (cs : List Char) :
    Except SourceError (Array Token) := do
  let space ← gap pos ⟨0, false⟩ cs
  match rest : cs.drop space.length with
  | [] => .ok done
  | c :: more =>
    let start := pos + space.length
    let found ← extent (regexAllowedAfter done.back?) start c more
    let token : Token :=
      { kind := found.kind, start, text := String.ofList (c :: more.take found.more),
        newlineBefore := space.newline, holes := found.holes }
    scanFrom (done.push token) (start + 1 + found.more) (more.drop found.more)
termination_by cs.length
decreasing_by
  have shorter := congrArg List.length rest
  simp only [List.length_drop, List.length_cons] at shorter ⊢
  omega

/-- How many characters the line takes that names an interpreter at the very start of a text. -/
def interpreterLineLength : List Char → Nat
  | '#' :: '!' :: cs => 2 + lineLength cs
  | _ => 0

/-- The tokens of a source text. -/
def scan (source : List Char) : Except SourceError (Array Token) :=
  let skipped := interpreterLineLength source
  scanFrom #[] skipped (source.drop skipped)

end ModuleLinker
