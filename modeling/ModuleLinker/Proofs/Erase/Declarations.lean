import Mathlib
import ModuleLinker.Proofs.Erase.Annotated
import ModuleLinker.Proofs.Erase.Neighbours

/-!
# Declarations on lines of their own

A declaration that only exists for the types, on a line of its own and without a semicolon, is
overwritten, and the text on the next line is erased as it is alone (`erase_declaration`). That asks for
neighbours between which the end of the declaration is seen (`Declaration.isClear`); the three pairs
that are left out do go wrong (`declaration_takes_next_line`).
-/

set_option autoImplicit false

namespace ModuleLinker

open Erase Text ModuleLinker.Symbol

namespace Erase

/-! ## A line and its tokens -/

/-- A text on one line, with the tokens that it starts with, consists of and ends with. -/
structure IsLine (line : List Char) (tokens : Array Token) : Prop where
  /-- The tokens are those of the text. -/
  scanned : scan line = .ok tokens
  /-- There is no line end in the text. -/
  oneLine : ∀ c ∈ line, isLineEnd c = false
  /-- A token starts where the text does. -/
  starts : ∃ t ∈ tokens[0]?, t.start = 0
  /-- The last token ends where the text does. -/
  stops : ∃ t ∈ tokens.back?, t.stop = line.length

namespace IsLine

variable {line : List Char} {tokens : Array Token}

theorem size_pos (isLine : IsLine line tokens) : 0 < tokens.size := by
  obtain ⟨t, mem, -⟩ := isLine.starts
  exact (Array.getElem?_eq_some_iff.mp mem).1

theorem scanFrom_eq (isLine : IsLine line tokens) : scanFrom #[] 0 line = .ok tokens :=
  scanFrom_of_oneLine isLine.scanned isLine.oneLine (Array.size_pos_iff.mp isLine.size_pos)

end IsLine

/-! ## A declaration and the program behind it -/

namespace Declaration

theorem exists_symbols_eq_cons (d : Declaration) :
    ∃ keyword ∈ ["type", "interface", "declare"], ∃ ss, d.symbols = .word keyword :: ss := by
  cases d <;> exact ⟨_, by decide, _, rfl⟩

/-- In front of a clear program, an ambient declaration ends with a brace, or there is neither a `>` at
its end nor a bracket behind it. -/
theorem ends_of_isClear {d : Declaration} {p : Program} (clear : d.isClear p = true)
    (ambient : d.isAmbient = true) : d.symbols.getLast? = some (.mark closeBrace) ∨
      (d.symbols.getLast? ≠ some (.mark ">") ∧ p.isPunct 0 "(" = false ∧ p.isPunct 0 "[" = false) := by
  simp only [isClear, ambient, Bool.true_or, Bool.and_true, Bool.and_eq_true, Bool.not_eq_true',
    beq_eq_false_iff_ne, Bool.or_eq_true, beq_iff_eq, Bool.or_eq_false_iff] at clear
  exact clear.2.imp_right fun other => ⟨clear.1, other.1⟩

end Declaration

/-- The only punctuators that a type ends with are closing brackets and a `>`. -/
theorem isPunct_of_endsText {s : Symbol} (ends : endsText s = true) {text : String}
    (other : text ∉ [")", "]", closeBrace, ">"]) : s.token.isPunct text = false := by
  obtain ⟨kind, text'⟩ := s
  rw [Bool.eq_false_iff]
  intro same
  simp only [Symbol.token, Token.isPunct, Bool.and_eq_true, beq_iff_eq] at same
  obtain ⟨rfl, rfl⟩ := same
  simp only [List.mem_cons, List.not_mem_nil, or_false, not_or] at other
  simp [endsText, Symbol.token, Token.isCloser, Token.isPunct, other] at ends

namespace Program

variable {p' p : Program} {f : Front}

/-- The first token of a clear program is taken for the same behind a declaration as alone. -/
theorem joins_of_isClear {d : Declaration} (proper : IsType d.type) (reads : p'.Reads 0 d.symbols)
    (length : d.symbols.length = f.tokens) (line : p'.newlineBefore f.tokens = true)
    (clear : d.isClear p = true) : p'.Joins f p := by
  obtain ⟨s, last, ends⟩ := (Option.any_eq_true ..).mp (Declaration.endsText_symbols proper)
  have shows : p'.Shows (f.tokens - 1) s := by
    have shows := reads.last last
    rwa [Nat.zero_add, length] at shows
  simp only [Declaration.isClear, last, Bool.and_eq_true, Bool.or_eq_true, Bool.not_eq_true',
    Bool.and_eq_false_iff, Bool.or_eq_false_iff, beq_iff_eq, beq_eq_false_iff_ne, ne_eq,
    Option.some_inj] at clear
  obtain ⟨angle, body⟩ := clear
  refine ⟨?_, angle.imp (fun other => ?_) And.right, fun paren => body.imp ?_ fun other => ?_⟩
  · have dot : p'.is (f.tokens - 1) (·.isDot) = s.token.isDot := shows.is_eq fun _ => rfl
    rw [afterDot, dot, Token.isDot, isPunct_of_endsText ends (by decide),
      isPunct_of_endsText ends (by decide), Bool.or_false, Bool.and_false]
  · rw [startsStatement, line, shows.expectsOperand_eq ends other]
    simp
  · rintro rfl
    have brace : p'.endsMethodName (f.tokens - 1) = false := by
      obtain ⟨⟨kind, start, text, newline, holes⟩, found, same, -⟩ := shows
      cases same
      rw [endsMethodName, is, found]
      rfl
    rw [followsMethodName, brace, Bool.and_false]
  · exact other.2.resolve_left (by simp [paren])

/-- Overwriting the tokens of a line overwrites the line. -/
theorem blank_line {line : List Char} {tokens : Array Token} (isLine : IsLine line tokens)
    (front : ∀ i < tokens.size, p.tokens[i]? = tokens[i]?) :
    (p.blank ⟨0, []⟩ 0 tokens.size).goto tokens.size = ⟨tokens.size, [⟨0, line.length, none⟩]⟩ := by
  obtain ⟨⟨a, first, start⟩, z, last, stop⟩ := And.intro isLine.starts isLine.stops
  rw [Option.mem_def] at first
  rw [Option.mem_def, Array.back?_eq_getElem?] at last
  have some := isLine.size_pos
  rw [blank, if_pos some, front 0 some, front (tokens.size - 1) (by omega), first, last]
  dsimp only
  rw [start, stop]
  rfl

/-- A program reads the symbols of a line from which it starts. -/
theorem reads_of_front {line : List Char} {tokens : Array Token} (isLine : IsLine line tokens)
    (front : ∀ i < tokens.size, p.tokens[i]? = tokens[i]?) :
    p.Reads 0 (tokens.toList.map Token.symbol) := by
  have same : p.tokens.toList.take tokens.size = tokens.toList := by
    refine List.ext_getElem? fun i => ?_
    rw [List.getElem?_take]
    split
    case isTrue less => rw [Array.getElem?_toList, front i less, Array.getElem?_toList]
    case isFalse le => rw [List.getElem?_eq_none (by simpa using le)]
  have whole : p.tokens.toList = [] ++ (tokens.toList ++ p.tokens.toList.drop tokens.size) := by
    rw [List.nil_append, ← same, List.take_append_drop]
  exact reads_of_tokens whole fun t mem =>
    scanFrom_oneLine isLine.scanFrom_eq isLine.oneLine (by simp) t (Array.mem_toList_iff.mp mem)

end Program

end Erase

/-! ## Erasing a declaration -/

/-- A text that starts with a declaration does not name an interpreter. -/
theorem not_interpreter_of_declaration {line : List Char} {tokens : Array Token}
    (isLine : IsLine line tokens) {d : Declaration} (symbols : tokens.toList.map Token.symbol = d.symbols)
    (more : List Char) : ¬ ['#', '!'] <+: line ++ more := by
  obtain ⟨t, first, start⟩ := isLine.starts
  obtain ⟨keyword, among, ss, same⟩ := d.exists_symbols_eq_cons
  rw [Option.mem_def] at first
  have text : t.text = keyword := by
    have symbol : (tokens.toList.map Token.symbol)[0]? = some (.word keyword) := by
      rw [symbols, same]
      rfl
    rw [List.getElem?_map, Array.getElem?_toList, first, Option.map_some, Option.some_inj] at symbol
    exact congrArg Symbol.text symbol
  have piece := ((scan_pieces isLine.scanned).pieces t (Array.mem_of_getElem? first).val).piece
  rw [start, List.drop_zero, text] at piece
  obtain ⟨rest, rfl⟩ := piece
  rintro ⟨tail, interpreter⟩
  have head := congrArg List.head? interpreter
  simp only [List.mem_cons, List.not_mem_nil, or_false] at among
  rcases among with rfl | rfl | rfl <;> cases head

/-- The tokens of a declaration on a line of its own are the first ones of the whole text. -/
theorem scan_declaration {line : List Char} {tokens : Array Token} (isLine : IsLine line tokens)
    {d : Declaration} (symbols : tokens.toList.map Token.symbol = d.symbols) (source : List Char) :
    scan (line ++ '\n' :: source) = scanFrom tokens line.length ('\n' :: source) := by
  have none := interpreterLineLength_eq_zero
    (not_interpreter_of_declaration isLine symbols ('\n' :: source))
  have ahead := scanFrom_ahead (.inr rfl) isLine.scanFrom_eq (fun t mem => by cases mem)
    (by simpa using isLine.stops) source
  rwa [scan, none, List.drop_zero, ← Nat.zero_add line.length]

open Program in
/-- A declaration that only exists for the types, on a line of its own and without a semicolon, is
overwritten, and the text on the next line is erased as it is alone, if the end of the declaration is
seen before it. -/
theorem erase_declaration {d : Declaration} {line source out : List Char} {tokens : Array Token}
    {p : Program} {first : Token} (proper : IsType d.type) (isLine : IsLine line tokens)
    (symbols : tokens.toList.map Token.symbol = d.symbols)
    (read : Program.ofSource source = .ok p) (found : p.tokens[0]? = some first)
    (start : first.start = 0) (opens : first.opensStatement = true) (noNew : first.isWord "new" = false)
    (clear : d.isClear p = true) (done : erase source = .ok out) :
    erase (line ++ '\n' :: source) = .ok (List.replicate line.length ' ' ++ '\n' :: out) := by
  have size : d.symbols.length = tokens.size := by rw [← symbols, List.length_map, Array.length_toList]
  obtain ⟨p', read', front, behind⟩ := ofSource_behind (scan_declaration isLine symbols source)
    (symbols ▸ Declaration.nested_symbols proper) read found start opens
  have matched := matched_of_ofSource read'
  have reads : p'.Reads 0 d.symbols := symbols ▸ reads_of_front isLine front
  have next : p'.tokens[tokens.size]? = some (first.placed (line.length + 1) 0) := by
    have same := behind.token 0
    rwa [found] at same
  have newline : p'.newlineBefore tokens.size = true := by
    rw [newlineBefore, next]
    rfl
  have punct (text : String) : p.isPunct 0 text = first.isPunct text := by
    rw [isPunct, is, found]
    rfl
  have joins : p'.Joins ⟨tokens.size, line.length + 1, [⟨0, line.length, none⟩]⟩ p :=
    joins_of_isClear proper reads size newline clear
  have goes (w : Walker) (limit : Nat) :
      p'.step w limit ⟨0, []⟩ = .ok ⟨tokens.size, [⟨0, line.length, none⟩]⟩ := by
    have step := @step_of_declaration p' matched d proper reads (first.placed (line.length + 1) 0)
      (by rw [size, next]) opens rfl noNew (fun ambient => by
        have ends := Declaration.ends_of_isClear clear ambient
        rwa [punct, punct] at ends) w limit
    rw [step, size, blank_line isLine front]
  rw [erase_behind isLine.size_pos read' behind read found opens joins goes done,
    map_blankOut_of_oneLine isLine.oneLine]

/-- The pieces of an ambient constant with an array of a generic type. -/
def ambientPieces : List Spaced := [
  ⟨[], word "declare"⟩, ⟨[' '], word "const"⟩, ⟨[' '], word "x"⟩, ⟨[], mark ":"⟩, ⟨[' '], word "M"⟩,
  ⟨[], mark "."⟩, ⟨[], word "N"⟩, ⟨[], mark "<"⟩, ⟨[], word "A"⟩, ⟨[], mark ">"⟩, ⟨[], mark "["⟩,
  ⟨[], mark "]"⟩]

/-- The pieces of an alias and a call with an assertion on two lines. -/
def aliasPieces : List Spaced := [
  ⟨[], word "type"⟩, ⟨[' '], word "Y"⟩, ⟨[' '], mark "="⟩, ⟨[' '], word "B"⟩, ⟨['\n'], word "f"⟩,
  ⟨[], mark "("⟩, ⟨[], word "y"⟩, ⟨[' '], word "as"⟩, ⟨[' '], word "B"⟩, ⟨[], mark ")"⟩]

/-- A declaration goes, and the statements behind it are erased as they are alone. -/
theorem erase_ambient_alias :
    erase ("declare const x: M.N<A>[]".toList ++ '\n' :: "type Y = B\nf(y as B)".toList) =
      .ok (List.replicate 25 ' ' ++ '\n' :: "          \nf(y     )".toList) := by
  have lineText : spell ambientPieces [] = "declare const x: M.N<A>[]".toList := by decide +kernel
  have sourceText : spell aliasPieces [] = "type Y = B\nf(y as B)".toList := by decide +kernel
  have legible : isLegible ambientPieces [] = true := by decide +kernel
  have legible' : isLegible aliasPieces [] = true := by decide +kernel
  have oneLine : (spell ambientPieces []).all (fun c => !isLineEnd c) = true := by decide +kernel
  have tight : (tokensOf 0 ambientPieces).toArray.back?.any
      (fun t => t.stop == (spell ambientPieces []).length) = true := by decide +kernel
  rw [List.all_eq_true] at oneLine
  obtain ⟨t, last, stop⟩ := (Option.any_eq_true _ _).mp tight
  have isLine : IsLine (spell ambientPieces []) (tokensOf 0 ambientPieces).toArray :=
    ⟨scan_spell legible rfl, fun c mem => by simpa using oneLine c mem, ⟨_, rfl, rfl⟩,
      ⟨t, last, beq_iff_eq.mp stop⟩⟩
  have scanned : scan (spell aliasPieces []) = .ok (tokensOf 0 aliasPieces).toArray :=
    scan_spell legible' rfl
  have nested : Nested ((tokensOf 0 aliasPieces).toArray.toList.map Token.symbol) := by
    rw [map_symbol_tokensOf]
    exact .cons rfl (.cons rfl (.cons (by decide) (.cons rfl (.cons rfl
      (@Nested.bracket "(" _ (by decide) (.cons rfl (.cons rfl (.plain rfl))))))))
  obtain ⟨p, read, same, -⟩ := Program.exists_ofSource scanned nested
  have found : p.tokens[0]? = some ⟨.ident, 0, "type", false, []⟩ := by
    rw [same]
    rfl
  have isType : IsType (Declaration.ambientConst "x" [word "M", mark ".", word "N", mark "<", word "A",
      mark ">", mark "[", mark "]"]).type :=
    .array (@IsType.generic "M" ["N"] [[word "A"]] (by decide) (by decide) fun ss mem => by
      rw [List.mem_singleton.mp mem]
      exact @IsType.name "A" [] (by decide))
  have done : erase (spell aliasPieces []) = .ok "          \nf(y     )".toList := by
    rw [sourceText]
    cbv
  have noParenthesis : p.isPunct 0 "(" = false := by
    rw [Program.isPunct, Program.is, found]
    rfl
  have noBracket : p.isPunct 0 "[" = false := by
    rw [Program.isPunct, Program.is, found]
    rfl
  have clear : (Declaration.ambientConst "x" [word "M", mark ".", word "N", mark "<", word "A", mark ">",
      mark "[", mark "]"]).isClear p = true := by
    rw [Declaration.isClear, noParenthesis, noBracket]
    rfl
  have erased := erase_declaration isType isLine (map_symbol_tokensOf ..) read found rfl rfl rfl clear done
  rw [lineText, sourceText] at erased
  exact erased

/-- Four declarations whose end is not seen: a `>` in front of the line hides the statement on it, and a
bracket at its start is taken for a part of the declaration or for a list of parameters. -/
theorem declaration_takes_next_line :
    erase "declare const x: Array<string>\nfoo()".toList =
        .ok (List.replicate 30 ' ' ++ '\n' :: "     ".toList) ∧
      erase "foo()".toList = .ok "foo()".toList ∧
      erase "type X = Array<string>\ntype Y = A".toList =
        .ok (List.replicate 22 ' ' ++ '\n' :: "type Y = A".toList) ∧
      erase "type Y = A".toList = .ok (List.replicate 10 ' ') ∧
      erase "declare const x: A\n(foo)".toList = .ok (List.replicate 18 ' ' ++ '\n' :: "     ".toList) ∧
      erase "(foo)".toList = .ok "(foo)".toList ∧
      erase "type X = A\n(a ? b : c) \x7b \x7d".toList =
        .error (.rejected ⟨16, .punctuatorExpected ","⟩) ∧
      erase "(a ? b : c) \x7b \x7d".toList = .ok "(a ? b : c) \x7b \x7d".toList := by
  refine ⟨?_, ?_, ?_, ?_, ?_, ?_, ?_, ?_⟩ <;> cbv

end ModuleLinker
