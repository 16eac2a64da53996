import Mathlib
import ModuleLinker.Source.Imports
import ModuleLinker.Proofs.Source.Spelling

/-!
# Which references the search for static imports finds

For a module that is a list of import, export and call statements, the search finds what `found`
says: of each statement the reference behind the word `from` that the search comes to. That is the
reference of the statement itself unless the statement binds the name `from`, or is an
`export default x` without a semicolon, which lets the search run on into the next statement
(`staticImports_spell`).
-/

set_option autoImplicit false

namespace ModuleLinker

/-! ## Statements -/

/-- A name in a brace list. -/
structure Named where
  /-- The name. -/
  name : String
  /-- The name behind `as`. -/
  other : Option String
  deriving DecidableEq, Repr

/-- A statement of a module. -/
inductive Item where
  /-- The statement `import "r"`. -/
  | importOnly (r : String)
  /-- The statement `import x from "r"`. -/
  | importDefault (x r : String)
  /-- The statement `import * as x from "r"`. -/
  | importAll (x r : String)
  /-- The statement `import { a, b as c } from "r"`. -/
  | importNamed (names : List Named) (r : String)
  /-- The statement `import x, { a } from "r"`. -/
  | importBoth (x : String) (names : List Named) (r : String)
  /-- The statement `export { a, b as c } from "r"`. -/
  | exportNamed (names : List Named) (r : String)
  /-- The statement `export * from "r"`. -/
  | exportAll (r : String)
  /-- The statement `export * as x from "r"`. -/
  | exportAllAs (x r : String)
  /-- The statement `export default x`. -/
  | exportDefault (x : String)
  /-- The statement `export const x = n`. -/
  | exportConst (x n : String)
  /-- The statement `x(n)`. -/
  | call (x n : String)
  /-- The statement `import("r")`. -/
  | importCall (r : String)
  deriving DecidableEq, Repr

open ModuleLinker.Symbol

/-- The symbols of a name in a brace list. -/
def Named.symbols (n : Named) : List Symbol :=
  word n.name :: n.other.elim [] fun other => [word "as", word other]

/-- The symbols of a brace list. -/
def braceList (names : List Named) : List Symbol :=
  mark openBrace :: ([mark ","].intercalate (names.map Named.symbols) ++ [mark closeBrace])

/-- The symbols that name another module. -/
def fromClause (r : String) : List Symbol := [word "from", quoted r]

namespace Item

/-- The symbols of a statement. -/
def symbols : Item → List Symbol
  | importOnly r => [word "import", quoted r]
  | importDefault x r => word "import" :: word x :: fromClause r
  | importAll x r => word "import" :: mark "*" :: word "as" :: word x :: fromClause r
  | importNamed names r => word "import" :: (braceList names ++ fromClause r)
  | importBoth x names r =>
    word "import" :: word x :: mark "," :: (braceList names ++ fromClause r)
  | exportNamed names r => word "export" :: (braceList names ++ fromClause r)
  | exportAll r => word "export" :: mark "*" :: fromClause r
  | exportAllAs x r => word "export" :: mark "*" :: word "as" :: word x :: fromClause r
  | exportDefault x => [word "export", word "default", word x]
  | exportConst x n => [word "export", word "const", word x, mark "=", ⟨.number, n⟩]
  | call x n => [word x, mark "(", ⟨.number, n⟩, mark ")"]
  | importCall r => [word "import", mark "(", quoted r, mark ")"]

/-- The name that a statement binds or uses outside braces. -/
def name? : Item → Option String
  | importDefault x _ | importAll x _ | importBoth x _ _ | exportAllAs x _ | exportDefault x
  | exportConst x _ | call x _ => some x
  | _ => none

/-- Whether the name of a statement is neither of the reserved words `import` and `export`. -/
def isProper (item : Item) : Bool := !item.name?.any fun x => x == "import" || x == "export"

/-- The reference of a static import or of an export from another module. -/
def reference? : Item → Option String
  | importOnly r | importDefault _ r | importAll _ r | importNamed _ r | importBoth _ _ r
  | exportNamed _ r | exportAll r | exportAllAs _ r => some r
  | _ => none

/-- Whether a statement has the name `from` before the word `from`. -/
def bindsFrom : Item → Bool
  | importDefault x _ | importAll x _ | importBoth x _ _ | exportAllAs x _ => x == "from"
  | _ => false

/-- The reference behind the first word `from` that a search comes to from the start of a statement,
where it finds `behind` past the end of the statement. -/
def clause? (behind : Option String) : Item → Option String
  | exportDefault x => if x = "from" then none else behind
  | importOnly _ => none
  | item => if item.bindsFrom then none else item.reference?

/-- Whether a search that starts at a statement goes on past its end, unless a semicolon is there. -/
def runsOn : Item → Bool
  | exportDefault x => x != "from"
  | _ => false

/-- The reference that the search finds for a statement. -/
def found? (behind : Option String) : Item → Option String
  | importOnly r => some r
  | item => item.clause? behind

end Item

/-- A statement and its end. -/
structure Ended where
  /-- The statement. -/
  item : Item
  /-- Whether a semicolon ends it. Otherwise a line end among the following blanks does, which the
  search does not look at. -/
  closed : Bool
  deriving DecidableEq, Repr

/-- The symbols of a statement and its semicolon. -/
def Ended.symbols (e : Ended) : List Symbol :=
  e.item.symbols ++ if e.closed then [mark ";"] else []

/-- The reference that a search from the start of these statements for the word `from` comes to. -/
def leading? : List Ended → Option String
  | [] => none
  | e :: rest => e.item.clause? (if e.closed then none else leading? rest)

/-- The references that the search finds in a module. -/
def found : List Ended → List String
  | [] => []
  | e :: rest => (e.item.found? (if e.closed then none else leading? rest)).toList ++ found rest

/-- Whether no statement of a module binds the name `from` in front of its reference, and none lets
the search run on to the reference of another one. -/
def isClear : List Ended → Bool
  | [] => true
  | e :: rest =>
    !e.item.bindsFrom && (!e.item.runsOn || e.closed || (leading? rest).isNone) && isClear rest

/-! ## Places do not matter -/

theorem reference?_symbols (ts : List Token) :
    ModuleLinker.reference? ((ts.map Token.symbol).map token) = ModuleLinker.reference? ts := by
  cases ts <;> rfl

theorem afterBrace_symbols (ts : List Token) :
    afterBrace ((ts.map Token.symbol).map token) = ((afterBrace ts).map Token.symbol).map token := by
  induction ts with
  | nil => rfl
  | cons t ts ih =>
    have same : t.symbol.token.isPunct closeBrace = t.isPunct closeBrace := rfl
    rw [List.map_cons, List.map_cons, afterBrace, afterBrace, same]
    split
    · rfl
    · exact ih

theorem clauseReference?_symbols (ts : List Token) :
    clauseReference? ((ts.map Token.symbol).map token) = clauseReference? ts := by
  fun_induction clauseReference? ts with
  | case1 => rw [List.map_nil, List.map_nil, clauseReference?]
  | case2 t ts isFrom =>
    have same : t.symbol.token.isWord "from" = true := isFrom
    rw [List.map_cons, List.map_cons, clauseReference?, if_pos same, reference?_symbols]
  | case3 t ts other between ih =>
    have same : ¬ t.symbol.token.isWord "from" = true := other
    have same' : (t.symbol.token.kind == .ident || t.symbol.token.isPunct "," ||
      t.symbol.token.isPunct "*") = true := between
    rw [List.map_cons, List.map_cons, clauseReference?, if_neg same, if_pos same', ih]
  | case4 t ts other other' opens ih =>
    have same : ¬ t.symbol.token.isWord "from" = true := other
    have same' : ¬ (t.symbol.token.kind == .ident || t.symbol.token.isPunct "," ||
      t.symbol.token.isPunct "*") = true := other'
    have same'' : t.symbol.token.isPunct openBrace = true := opens
    rw [List.map_cons, List.map_cons, clauseReference?, if_neg same, if_neg same', if_pos same'',
      afterBrace_symbols, ih]
  | case5 t ts other other' other'' =>
    have same : ¬ t.symbol.token.isWord "from" = true := other
    have same' : ¬ (t.symbol.token.kind == .ident || t.symbol.token.isPunct "," ||
      t.symbol.token.isPunct "*") = true := other'
    have same'' : ¬ t.symbol.token.isPunct openBrace = true := other''
    rw [List.map_cons, List.map_cons, clauseReference?, if_neg same, if_neg same', if_neg same'']

/-- What the search finds depends on the classes and texts of the tokens only. -/
theorem tokenImports_symbols (depth : Nat) (afterDot : Bool) (ts : List Token) :
    tokenImports depth afterDot ((ts.map Token.symbol).map token) = tokenImports depth afterDot ts := by
  induction ts generalizing depth afterDot with
  | nil => rfl
  | cons t ts ih =>
    have statement : statementReference? t.symbol.token ((ts.map Token.symbol).map token) =
        statementReference? t ts := by
      rw [statementReference?, statementReference?, reference?_symbols, clauseReference?_symbols]
      rfl
    rw [List.map_cons, List.map_cons, tokenImports, tokenImports, statement, ih, ih, ih]
    rfl

/-! ## The search, statement by statement -/

/-- A clause ends at the word `from` and goes on over another name. -/
theorem clauseReference?_word (x : String) (ts : List Token) :
    clauseReference? ((word x).token :: ts) =
      if x = "from" then ModuleLinker.reference? ts else clauseReference? ts := by
  split
  case isTrue isFrom =>
    rw [isFrom, clauseReference?, if_pos (by decide)]
  case isFalse other =>
    have noFrom : ¬ (word x).token.isWord "from" = true := by simpa [Token.isWord, word, token]
    rw [clauseReference?, if_neg noFrom, if_pos (by rfl)]

/-- A clause goes on over a star or a comma. -/
theorem clauseReference?_mark {op : String} (between : op = "*" ∨ op = ",") (ts : List Token) :
    clauseReference? ((mark op).token :: ts) = clauseReference? ts := by
  rcases between with rfl | rfl <;>
    rw [clauseReference?, if_neg (by decide), if_pos (by decide)]

/-- Nothing else belongs to a clause. -/
theorem clauseReference?_eq_none {s : Symbol}
    (other : s.kind ≠ .ident ∧ s ∉ [mark ",", mark "*", mark openBrace]) (ts : List Token) :
    clauseReference? (s.token :: ts) = none := by
  obtain ⟨kind, text⟩ := s
  obtain ⟨noName, noMark⟩ := other
  simp only [List.mem_cons, List.not_mem_nil, or_false, mark, mk.injEq, not_or] at noMark
  have plain : clauseReference? ((Symbol.mk kind text).token :: ts) = none := by
    rw [clauseReference?]
    simp [token, Token.isWord, Token.isPunct, noName, noMark]
  exact plain

theorem afterBrace_append {ss : List Symbol} (plain : ∀ s ∈ ss, s ≠ mark closeBrace)
    (ts : List Token) : afterBrace (ss.map token ++ (mark closeBrace).token :: ts) = ts := by
  induction ss with
  | nil => rw [List.map_nil, List.nil_append, afterBrace, if_pos (by decide)]
  | cons s ss ih =>
    rw [List.forall_mem_cons] at plain
    have other : ¬ s.token.isPunct closeBrace = true := by
      obtain ⟨kind, text⟩ := s
      simpa [Token.isPunct, token, mark] using plain.1
    rw [List.map_cons, List.cons_append, afterBrace, if_neg other, ih plain.2]

/-- A brace list holds names and commas. -/
theorem mem_listed {names : List Named} {s : Symbol}
    (mem : s ∈ [mark ","].intercalate (names.map Named.symbols)) :
    s = mark "," ∨ ∃ x, s = word x := by
  induction names with
  | nil => cases mem
  | cons n names ih =>
    have own (mem : s ∈ n.symbols) : ∃ x, s = word x := by
      obtain ⟨name, other⟩ := n
      cases other <;> simp [Named.symbols] at mem
      · exact ⟨_, mem⟩
      · rcases mem with rfl | rfl | rfl <;> exact ⟨_, rfl⟩
    cases names with
    | nil =>
      rw [List.map_cons, List.map_nil, List.intercalate_singleton] at mem
      exact .inr (own mem)
    | cons n' names =>
      rw [List.map_cons, List.map_cons, List.intercalate_cons_cons, List.mem_append, List.mem_append,
        List.mem_singleton] at mem
      rcases mem with (mem | comma) | mem
      · exact .inr (own mem)
      · exact .inl comma
      · exact ih mem

/-- A clause goes on after braces with names and commas in them. -/
theorem clauseReference?_braces {ss : List Symbol} (plain : ∀ s ∈ ss, s = mark "," ∨ ∃ x, s = word x)
    (ts : List Token) :
    clauseReference? ((mark openBrace :: (ss ++ [mark closeBrace])).map token ++ ts) =
      clauseReference? ts := by
  have open' : ∀ s ∈ ss, s ≠ mark closeBrace := by
    rintro s mem rfl
    rcases plain _ mem with comma | ⟨x, name⟩
    · exact absurd comma (by decide)
    · cases name
  rw [List.map_cons, List.map_append, List.cons_append, List.append_assoc,
    clauseReference?, if_neg (by decide), if_neg (by decide), if_pos (by decide)]
  exact congrArg clauseReference? (afterBrace_append open' ts)

/-- A clause goes on after a brace list. -/
theorem clauseReference?_braceList (names : List Named) (ts : List Token) :
    clauseReference? ((braceList names).map token ++ ts) = clauseReference? ts :=
  clauseReference?_braces (fun _ => mem_listed) ts

/-- A string is a reference. -/
theorem reference?_quoted (r : String) (ts : List Token) :
    ModuleLinker.reference? ((quoted r).token :: ts) = some r := by
  have text : unquote (quoted r).token.text = r := by
    simp [unquote, quoted, token]
  exact congrArg some text

/-- A search comes to the reference of a clause. -/
theorem clauseReference?_fromClause (r : String) (ts : List Token) :
    clauseReference? ((fromClause r).map token ++ ts) = some r := by
  refine (clauseReference?_word "from" _).trans ?_
  rw [if_pos rfl]
  exact reference?_quoted r ts

/-- What a search for the word `from` finds from the start of a statement. -/
theorem clauseReference?_item (item : Item) {ts : List Token}
    (noString : ModuleLinker.reference? ts = none) :
    clauseReference? (item.symbols.map token ++ ts) = item.clause? (clauseReference? ts) := by
  have atMark (op : String) (ts : List Token) :
      ModuleLinker.reference? ((mark op).token :: ts) = none := rfl
  have atClause (r : String) :
      ModuleLinker.reference? ((fromClause r).map token ++ ts) = none := rfl
  have atString (r : String) (ts : List Token) : clauseReference? ((quoted r).token :: ts) = none :=
    clauseReference?_eq_none (by simp [quoted, mark]) ts
  have atEquals (ts : List Token) : clauseReference? ((mark "=").token :: ts) = none :=
    clauseReference?_eq_none (by decide) ts
  have atParen (ts : List Token) : clauseReference? ((mark "(").token :: ts) = none :=
    clauseReference?_eq_none (by decide) ts
  cases item <;>
    simp [Item.symbols, Item.clause?, Item.bindsFrom, Item.reference?, clauseReference?_word,
      clauseReference?_mark, clauseReference?_fromClause, clauseReference?_braceList, atMark,
      atClause, atString, atEquals, atParen, noString]

theorem isPunct_token (s : Symbol) (op : String) : s.token.isPunct op = decide (s = mark op) := by
  obtain ⟨kind, text⟩ := s
  rw [Bool.eq_iff_iff]
  simp [token, Token.isPunct, mark]

theorem isWord_token (s : Symbol) (x : String) : s.token.isWord x = decide (s = word x) := by
  obtain ⟨kind, text⟩ := s
  rw [Bool.eq_iff_iff]
  simp [token, Token.isWord, word]

theorem isOpener_token (s : Symbol) :
    s.token.isOpener = true ↔ s = mark "(" ∨ s = mark "[" ∨ s = mark openBrace := by
  obtain ⟨kind, text⟩ := s
  simp [token, Token.isOpener, mark, and_or_left, or_assoc]

theorem isCloser_token (s : Symbol) :
    s.token.isCloser = true ↔ s = mark ")" ∨ s = mark "]" ∨ s = mark closeBrace := by
  obtain ⟨kind, text⟩ := s
  simp [token, Token.isCloser, mark, and_or_left, or_assoc]

/-- The search passes by a token that is no bracket, no dot and neither of the words that start a
statement, and inside brackets by each word. -/
theorem tokenImports_cons {s : Symbol} {depth : Nat}
    (passed : s ∉ ["(", "[", openBrace, ")", "]", closeBrace, ".", "?."].map mark)
    (inner : 0 < depth ∨ s ≠ word "import" ∧ s ≠ word "export") (ts : List Token) :
    tokenImports depth false (s.token :: ts) = tokenImports depth false ts := by
  simp only [List.map_cons, List.map_nil, List.mem_cons, List.not_mem_nil, or_false, not_or] at passed
  obtain ⟨noParen, noBracket, noBrace, noParen', noBracket', noBrace', noPoint, noPoint'⟩ := passed
  have noOpener : s.token.isOpener = false := by
    rw [Bool.eq_false_iff, Ne, isOpener_token]
    simp [noParen, noBracket, noBrace]
  have noCloser : s.token.isCloser = false := by
    rw [Bool.eq_false_iff, Ne, isCloser_token]
    simp [noParen', noBracket', noBrace']
  have noDot : s.token.isDot = false := by
    rw [Token.isDot, isPunct_token, isPunct_token, decide_eq_false noPoint, decide_eq_false noPoint',
      Bool.or_false]
  have noStart : (depth == 0 && !false && (s.token.isWord "import" || s.token.isWord "export")) =
      false := by
    rw [isWord_token, isWord_token]
    rcases inner with inside | ⟨noImport, noExport⟩
    · rw [beq_eq_false_iff_ne.mpr (by omega), Bool.false_and, Bool.false_and]
    · rw [decide_eq_false noImport, decide_eq_false noExport, Bool.or_false, Bool.and_false]
  rw [tokenImports, noOpener, noCloser, noStart, noDot]
  rfl

/-- The search passes by a word that does not start a statement. -/
theorem tokenImports_word {x : String} (other : x ≠ "import" ∧ x ≠ "export") (ts : List Token) :
    tokenImports 0 false ((word x).token :: ts) = tokenImports 0 false ts :=
  tokenImports_cons (by simp [word, mark]) (.inr (by simpa [word] using other)) ts

theorem tokenImports_mark {op : String} (between : op ∈ ["*", ",", "=", ";"]) (ts : List Token) :
    tokenImports 0 false ((mark op).token :: ts) = tokenImports 0 false ts := by
  simp only [List.mem_cons, List.not_mem_nil, or_false] at between
  rcases between with rfl | rfl | rfl | rfl <;>
    exact tokenImports_cons (by decide) (.inr (by decide)) ts

theorem tokenImports_literal {kind : TokenKind} (literal : kind = .string ∨ kind = .number)
    (text : String) (ts : List Token) :
    tokenImports 0 false ((Symbol.mk kind text).token :: ts) = tokenImports 0 false ts := by
  rcases literal with rfl | rfl <;>
    exact tokenImports_cons (by simp [mark]) (.inr (by simp [word])) ts

/-- The search passes by braces with names and commas in them. -/
theorem tokenImports_braces {ss : List Symbol} (plain : ∀ s ∈ ss, s = mark "," ∨ ∃ x, s = word x)
    (ts : List Token) :
    tokenImports 0 false ((mark openBrace :: (ss ++ [mark closeBrace])).map token ++ ts) =
      tokenImports 0 false ts := by
  have inside {ss : List Symbol} (plain : ∀ s ∈ ss, s = mark "," ∨ ∃ x, s = word x)
      (ts : List Token) : tokenImports 1 false (ss.map token ++ ts) = tokenImports 1 false ts := by
    induction ss with
    | nil => rfl
    | cons s ss ih =>
      rw [List.forall_mem_cons] at plain
      rw [List.map_cons, List.cons_append, tokenImports_cons _ (.inl Nat.one_pos), ih plain.2]
      rcases plain.1 with rfl | ⟨x, rfl⟩
      · decide
      · simp [mark, word]
  have opened (ts : List Token) :
      tokenImports 0 false ((mark openBrace).token :: ts) = tokenImports 1 false ts := rfl
  have closed (ts : List Token) :
      tokenImports 1 false ((mark closeBrace).token :: ts) = tokenImports 0 false ts := rfl
  rw [List.map_cons, List.map_append, List.cons_append, List.append_assoc, opened, inside plain]
  exact closed ts

/-- The search passes by a brace list. -/
theorem tokenImports_braceList (names : List Named) (ts : List Token) :
    tokenImports 0 false ((braceList names).map token ++ ts) = tokenImports 0 false ts :=
  tokenImports_braces (fun _ => mem_listed) ts

/-- At the word `import` a reference is looked for right behind it, and else behind the clause. -/
theorem statementReference?_import (ts : List Token) :
    statementReference? (word "import").token ts =
      (ModuleLinker.reference? ts).or (clauseReference? ts) := by
  rw [statementReference?, if_pos (by decide)]
  cases ModuleLinker.reference? ts <;> rfl

theorem statementReference?_export (ts : List Token) :
    statementReference? (word "export").token ts = clauseReference? ts := rfl

/-- At the word `import` or `export` the search looks for a reference, and then goes on. -/
theorem tokenImports_start {x : String} (starts : x = "import" ∨ x = "export") (ts : List Token) :
    tokenImports 0 false ((word x).token :: ts) =
      (statementReference? (word x).token ts).toList ++ tokenImports 0 false ts := by
  have starting : (0 == 0 && !false && ((word x).token.isWord "import" ||
      (word x).token.isWord "export")) = true := by
    rcases starts with rfl | rfl <;> decide
  have noBracket : (word x).token.isOpener = false ∧ (word x).token.isCloser = false := ⟨rfl, rfl⟩
  rw [tokenImports, noBracket.1, noBracket.2, if_neg Bool.false_ne_true, if_neg Bool.false_ne_true,
    if_pos starting]
  cases statementReference? (word x).token ts <;> rfl

/-- The search passes by what stands in parentheses. -/
theorem tokenImports_argument {s : Symbol} (plain : s.kind = .string ∨ s.kind = .number)
    (ts : List Token) :
    tokenImports 0 false ((mark "(").token :: s.token :: (mark ")").token :: ts) =
      tokenImports 0 false ts := by
  have opened (ts : List Token) :
      tokenImports 0 false ((mark "(").token :: ts) = tokenImports 1 false ts := rfl
  rw [opened, tokenImports_cons _ (.inl Nat.one_pos)]
  · rfl
  · simp only [List.mem_map, not_exists, not_and]
    rintro op - rfl
    rcases plain with other | other <;> cases other

/-- The search finds the reference that `found?` tells for a statement and goes on behind it. -/
theorem tokenImports_item {item : Item} (proper : item.isProper = true) {ts : List Token}
    (noString : ModuleLinker.reference? ts = none) :
    tokenImports 0 false (item.symbols.map token ++ ts) =
      (item.found? (clauseReference? ts)).toList ++ tokenImports 0 false ts := by
  have clause := clauseReference?_item item noString
  have source (r : String) (ts : List Token) :
      tokenImports 0 false ((fromClause r).map token ++ ts) = tokenImports 0 false ts := by
    exact (tokenImports_word (by decide) _).trans (tokenImports_literal (.inl rfl) _ ts)
  have string (r : String) (ts : List Token) :
      tokenImports 0 false ((quoted r).token :: ts) = tokenImports 0 false ts :=
    tokenImports_literal (.inl rfl) _ ts
  have number (n : String) (ts : List Token) :
      tokenImports 0 false ((Symbol.mk .number n).token :: ts) = tokenImports 0 false ts :=
    tokenImports_literal (.inr rfl) n ts
  have starting {x : String} (starts : x = "import" ∨ x = "export") (ts : List Token) :
      clauseReference? ((word x).token :: ts) = clauseReference? ts := by
    rw [clauseReference?_word, if_neg (by rcases starts with rfl | rfl <;> decide)]
  have atName (x : String) (ts : List Token) :
      ModuleLinker.reference? ((word x).token :: ts) = none := rfl
  have atMark (op : String) (ts : List Token) :
      ModuleLinker.reference? ((mark op).token :: ts) = none := rfl
  have atBrace (names : List Named) (ts : List Token) :
      ModuleLinker.reference? ((braceList names).map token ++ ts) = none := rfl
  cases item <;>
    simp [Item.symbols, Item.isProper, Item.name?, starting] at proper clause ⊢ <;>
    simp [tokenImports_start, tokenImports_braceList, reference?_quoted, statementReference?_import,
      statementReference?_export, tokenImports_word, tokenImports_mark, string, number, source, clause,
      proper, atName, atMark, atBrace, Item.found?]
  case call n => exact tokenImports_argument (.inr rfl) ts
  case importCall r => exact tokenImports_argument (.inl rfl) ts

/-! ## Whole modules -/

/-- The symbols of a module. -/
def moduleSymbols (es : List Ended) : List Symbol := es.flatMap Ended.symbols

theorem map_moduleSymbols_cons (e : Ended) (es : List Ended) :
    (moduleSymbols (e :: es)).map token = e.item.symbols.map token ++
      ((if e.closed then [mark ";"] else []).map token ++ (moduleSymbols es).map token) := by
  rw [moduleSymbols, List.flatMap_cons, List.map_append, Ended.symbols, List.map_append,
    List.append_assoc, ← moduleSymbols]

/-- No module starts with a string, and no end of a statement is one. -/
theorem reference?_moduleSymbols (es : List Ended) :
    ModuleLinker.reference? ((moduleSymbols es).map token) = none := by
  cases es with
  | nil => rfl
  | cons e es =>
    rw [map_moduleSymbols_cons]
    cases e.item <;> rfl

theorem reference?_end (closed : Bool) (es : List Ended) :
    ModuleLinker.reference? ((if closed then [mark ";"] else []).map token ++
      (moduleSymbols es).map token) = none := by
  cases closed
  · exact reference?_moduleSymbols es
  · rfl

/-- What a search for the word `from` finds from the start of a module. -/
theorem clauseReference?_moduleSymbols (es : List Ended) :
    clauseReference? ((moduleSymbols es).map token) = leading? es := by
  induction es with
  | nil => rw [moduleSymbols, List.flatMap_nil, List.map_nil, clauseReference?, leading?]
  | cons e es ih =>
    rw [map_moduleSymbols_cons, clauseReference?_item e.item (reference?_end e.closed es), leading?]
    cases e.closed
    · exact congrArg (e.item.clause? ·) ih
    · exact congrArg (e.item.clause? ·) (clauseReference?_eq_none (by decide) _)

/-- The search finds the references that `found` tells. -/
theorem tokenImports_moduleSymbols {es : List Ended} (proper : ∀ e ∈ es, e.item.isProper = true) :
    tokenImports 0 false ((moduleSymbols es).map token) = found es := by
  induction es with
  | nil => rfl
  | cons e es ih =>
    rw [List.forall_mem_cons] at proper
    have search := tokenImports_item proper.1 (reference?_end e.closed es)
    rw [map_moduleSymbols_cons, search, found]
    cases e.closed
    · rw [← clauseReference?_moduleSymbols, ← ih proper.2]
      rfl
    · rw [← ih proper.2]
      exact congrArg₂ (fun behind rest => (e.item.found? behind).toList ++ rest)
        (clauseReference?_eq_none (by decide) _) (tokenImports_cons (by decide) (.inr (by decide)) _)

/-- The search finds the reference of a statement that does not bind `from` before it and does not let
the search run on to another one. -/
theorem Item.found?_eq_reference? {item : Item} {behind : Option String}
    (own : item.bindsFrom = false) (ends : item.runsOn = true → behind = none) :
    item.found? behind = item.reference? := by
  cases item
  case importOnly => rfl
  case exportDefault x =>
    change (if x = "from" then none else behind) = none
    split
    · rfl
    case isFalse other => exact ends (bne_iff_ne.mpr other)
  all_goals simp only [Item.found?, Item.clause?, own, Bool.false_eq_true, if_false]

/-- In a clear module the search finds the reference of each static import and of each export from
another module. -/
theorem found_of_isClear {es : List Ended} (clear : isClear es = true) :
    found es = es.filterMap fun e => e.item.reference? := by
  induction es with
  | nil => rfl
  | cons e es ih =>
    rw [isClear, Bool.and_eq_true, Bool.and_eq_true] at clear
    obtain ⟨⟨own, ends⟩, clear⟩ := clear
    rw [Bool.not_eq_true'] at own
    have same : e.item.found? (if e.closed then none else leading? es) = e.item.reference? := by
      refine e.item.found?_eq_reference? own fun runs => ?_
      rw [runs, Bool.not_true, Bool.false_or, Bool.or_eq_true, Option.isNone_iff_eq_none] at ends
      split
      · rfl
      case isFalse open' => exact ends.resolve_left open'
    rw [found, ih clear, same, List.filterMap_cons]
    cases e.item.reference? <;> rfl

/-- The static imports that are found in a module: what `found` tells of its statements, which is the
references of its static imports and exports from other modules, each once and in order, where no
statement binds `from` before its reference and none lets the search run on to another one. -/
theorem staticImports_spell {es : List Ended} {pieces : List Spaced} {last : List Char}
    (proper : ∀ e ∈ es, e.item.isProper = true)
    (spelled : pieces.map Spaced.symbol = moduleSymbols es)
    (legible : isLegible pieces last = true) (blank : isGap last = true) :
    staticImports (String.ofList (spell pieces last)) = .ok (found es) ∧
      (isClear es = true → found es = es.filterMap fun e => e.item.reference?) := by
  refine ⟨?_, found_of_isClear⟩
  have scanned : scan (String.ofList (spell pieces last)).toList = .ok (tokensOf 0 pieces).toArray := by
    rw [String.toList_ofList]
    exact scan_spell legible blank
  have same : tokenImports 0 false (tokensOf 0 pieces) = found es := by
    rw [← tokenImports_symbols, map_symbol_tokensOf, spelled, tokenImports_moduleSymbols proper]
  rw [staticImports, scanned, ← same]
  rfl

/-- Two imports around a default export with a semicolon. -/
theorem staticImports_spell_default :
    let es : List Ended := [⟨.importBoth "d" [⟨"a", none⟩, ⟨"b", some "c"⟩] "q", false⟩,
      ⟨.exportDefault "d", true⟩, ⟨.exportAllAs "y" "r", false⟩]
    staticImports "import d, \x7b a, b as c \x7d from \"q\"\nexport default d;\nexport * as y from \"r\"" =
        .ok (found es) ∧
      found es = es.filterMap fun e => e.item.reference? := by
  intro es
  let pieces : List Spaced := [⟨[], word "import"⟩, ⟨[' '], word "d"⟩, ⟨[], mark ","⟩,
    ⟨[' '], mark openBrace⟩, ⟨[' '], word "a"⟩, ⟨[], mark ","⟩, ⟨[' '], word "b"⟩, ⟨[' '], word "as"⟩,
    ⟨[' '], word "c"⟩, ⟨[' '], mark closeBrace⟩, ⟨[' '], word "from"⟩, ⟨[' '], quoted "q"⟩,
    ⟨['\n'], word "export"⟩, ⟨[' '], word "default"⟩, ⟨[' '], word "d"⟩, ⟨[], mark ";"⟩,
    ⟨['\n'], word "export"⟩, ⟨[' '], mark "*"⟩, ⟨[' '], word "as"⟩, ⟨[' '], word "y"⟩,
    ⟨[' '], word "from"⟩, ⟨[' '], quoted "r"⟩]
  obtain ⟨finds, clear⟩ := @staticImports_spell es pieces [] (by decide)
    (by decide +kernel) (by decide +kernel) (by decide)
  exact ⟨finds, clear (by decide)⟩

/-- A default export without a semicolon gives the reference of the next import once more. -/
theorem staticImports_default_repeats :
    let es : List Ended := [⟨.exportDefault "x", false⟩, ⟨.importDefault "y" "r", false⟩]
    staticImports "export default x\nimport y from \"r\"" = .ok ["r", "r"] ∧
      (es.filterMap fun e => e.item.reference?) = ["r"] := by
  intro es
  constructor
  · cbv
  · rfl

end ModuleLinker
