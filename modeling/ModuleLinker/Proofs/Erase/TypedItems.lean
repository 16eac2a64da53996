import Mathlib
import ModuleLinker.Proofs.Erase.Neighbours
import ModuleLinker.Proofs.Erase.Stretches
import ModuleLinker.Proofs.Source.Imports

/-!
# Imports, exports and types, item by item

The items of a module with types: imports and exports from other modules, as values or only as types,
with elements in their brace lists that are only types, type aliases and constants. Each of them is cut
into parts that are overwritten or stay (`TypedItem.parts`), and a walk that comes to an item overwrites
these parts and goes on behind the semicolon (`Program.walk_item`).
-/

set_option autoImplicit false

namespace ModuleLinker

open Erase ModuleLinker.Symbol

/-! ## Items -/

/-- A reference in quotes of either kind. -/
structure Quoted where
  /-- The reference. -/
  text : String
  /-- Whether the quotes are single ones. -/
  single : Bool
  deriving DecidableEq, Repr

/-- An element of a brace list. -/
structure Element where
  /-- Whether the word `type` stands in front of it. -/
  typeOnly : Bool
  /-- The name. -/
  name : String
  /-- The name behind `as`. -/
  other : Option String
  deriving DecidableEq, Repr

/-- A brace list. -/
structure Braces where
  /-- The elements. -/
  elements : List Element
  /-- Whether a comma stands behind the last one. -/
  trailing : Bool
  deriving DecidableEq, Repr

/-- What an import binds. -/
inductive ImportClause where
  /-- The clause `x`. -/
  | default (x : String)
  /-- The clause `* as x`. -/
  | all (x : String)
  /-- The clause `{ a, type B as C }`. -/
  | named (list : Braces)
  /-- The clause `x, { a, type B as C }`. -/
  | both (x : String) (list : Braces)
  deriving DecidableEq, Repr

/-- What an export from another module names. -/
inductive ExportClause where
  /-- The clause `{ a, type B as C }`. -/
  | named (list : Braces)
  /-- The clause `*`. -/
  | all
  /-- The clause `* as x`. -/
  | allAs (x : String)
  deriving DecidableEq, Repr

/-- An item of a module, which ends in a semicolon. -/
inductive TypedItem where
  /-- The import `import "r";`. -/
  | importOnly (r : Quoted)
  /-- An import from another module, of values or only of types. -/
  | importFrom (typeOnly : Bool) (clause : ImportClause) (r : Quoted)
  /-- An export from another module, of values or only of types. -/
  | exportFrom (typeOnly : Bool) (clause : ExportClause) (r : Quoted)
  /-- The export of types of its own `export type { A, B as C };`. -/
  | exportTypes (list : Braces)
  /-- The type alias `type X = T;`. -/
  | typeAlias (name : String) (type : List Symbol)
  /-- The constant `const x = n;`. -/
  | constant (x n : String)
  deriving DecidableEq, Repr

/-- The quote around a reference. -/
def Quoted.quote (r : Quoted) : Char := if r.single then '\x27' else '"'

/-- The string token of a reference. -/
def Quoted.symbol (r : Quoted) : Symbol :=
  ⟨.string, String.ofList (r.quote :: (r.text.toList ++ [r.quote]))⟩

/-- The symbols of an element. -/
def Element.symbols (e : Element) : List Symbol :=
  (if e.typeOnly then [word "type"] else []) ++
    word e.name :: e.other.elim [] fun other => [word "as", word other]

/-- The parts of the elements of a brace list; the comma behind an element belongs to it. -/
def elementParts (trailing : Bool) : List Element → List Part
  | [] => []
  | [e] => [⟨e.typeOnly, e.symbols ++ if trailing then [mark ","] else []⟩]
  | e :: es => ⟨e.typeOnly, e.symbols ++ [mark ","]⟩ :: elementParts trailing es

/-- The parts of a brace list. -/
def Braces.parts (list : Braces) : List Part :=
  ⟨false, [mark openBrace]⟩ :: (elementParts list.trailing list.elements ++
    [⟨false, [mark closeBrace]⟩])

/-- The symbols of an import clause in front of its brace list. -/
def ImportClause.front : ImportClause → List Symbol
  | default x => [word x]
  | all x => [mark "*", word "as", word x]
  | named _ => []
  | both x _ => [word x, mark ","]

/-- The brace list of an import clause. -/
def ImportClause.list? : ImportClause → Option Braces
  | named list | both _ list => some list
  | _ => none

/-- The symbols of an export clause in front of its brace list. -/
def ExportClause.front : ExportClause → List Symbol
  | named _ => []
  | all => [mark "*"]
  | allAs x => [mark "*", word "as", word x]

/-- The brace list of an export clause. -/
def ExportClause.list? : ExportClause → Option Braces
  | named list => some list
  | _ => none

/-- The parts of an item behind its keyword. -/
def clauseParts (front : List Symbol) (list : Option Braces) (r : Quoted) : List Part :=
  ⟨false, front⟩ :: (list.elim [] Braces.parts ++ [⟨false, [word "from", r.symbol, mark ";"]⟩])

/-- The parts of an item with a clause: it goes as a whole if it is only about types. -/
def fromParts (keyword : String) (typeOnly : Bool) (front : List Symbol) (list : Option Braces)
    (r : Quoted) : List Part :=
  if typeOnly then
    [⟨true, word keyword :: word "type" :: allSymbols (clauseParts front list r)⟩]
  else ⟨false, [word keyword]⟩ :: clauseParts front list r

namespace TypedItem

/-- The parts of an item. -/
def parts : TypedItem → List Part
  | importOnly r => [⟨false, [word "import", r.symbol, mark ";"]⟩]
  | importFrom typeOnly clause r => fromParts "import" typeOnly clause.front clause.list? r
  | exportFrom typeOnly clause r => fromParts "export" typeOnly clause.front clause.list? r
  | exportTypes list =>
    [⟨true, word "export" :: word "type" :: (allSymbols list.parts ++ [mark ";"])⟩]
  | typeAlias name type => [⟨true, word "type" :: word name :: mark "=" :: (type ++ [mark ";"])⟩]
  | constant x n => [⟨false, [word "const", word x, mark "=", ⟨.number, n⟩, mark ";"]⟩]

/-- The symbols of an item. -/
def symbols (item : TypedItem) : List Symbol := allSymbols item.parts

/-- The reference of an item that is not about types only. -/
def reference? : TypedItem → Option String
  | importOnly r | importFrom false _ r | exportFrom false _ r => some r.text
  | _ => none

/-- Whether an item ends with its line, so that it has to be on one. -/
def endsWithLine : TypedItem → Bool
  | exportTypes .. | typeAlias .. => true
  | _ => false

end TypedItem

/-! ## Names -/

/-- The words that do not name anything in an item, since they mean something else there. -/
def specialNames : List String := ["from", "type", "import", "export", "enum"]

/-- Whether a name is none of the words that mean something else. -/
def isFree (name : String) : Bool := !specialNames.contains name

theorem ne_of_isFree {name other : String} (free : isFree name = true) (special : other ∈ specialNames) :
    name ≠ other := by
  rintro rfl
  rw [isFree, List.contains_iff_mem.mpr special] at free
  cases free

/-- The names of the elements of a brace list. -/
def Braces.names (list : Braces) : List String := list.elements.map Element.name

/-- The names that an import clause binds, and those of the elements in its brace list. -/
def ImportClause.names : ImportClause → List String
  | default x | all x => [x]
  | named list => list.names
  | both x list => x :: list.names

theorem ImportClause.mem_names {clause : ImportClause} {list : Braces} (same : clause.list? = some list)
    {name : String} (mem : name ∈ list.names) : name ∈ clause.names := by
  cases clause <;> cases same
  · exact mem
  · exact List.mem_cons_of_mem _ mem

/-- The names in an export clause. -/
def ExportClause.names : ExportClause → List String
  | named list => list.names
  | all => []
  | allAs x => [x]

/-- The names in an item that would be taken for something else if they were special. -/
def TypedItem.names : TypedItem → List String
  | importFrom _ clause _ => clause.names
  | exportFrom _ clause _ => clause.names
  | constant x _ => [x]
  | _ => []

/-- Whether an item is written as it should be: names are free, and types are types. -/
structure TypedItem.IsProper (item : TypedItem) : Prop where
  /-- The names are free. -/
  names : ∀ name ∈ item.names, isFree name = true
  /-- What stands in a type alias is a type. -/
  type : ∀ name type, item = typeAlias name type → IsType type

/-! ## Symbols -/

/-- The symbols of an element are words. -/
theorem exists_word_of_mem_element {e : Element} {s : Symbol} (mem : s ∈ e.symbols) :
    ∃ x, s = word x := by
  obtain ⟨typeOnly, name, other⟩ := e
  cases typeOnly <;> cases other <;> simp [Element.symbols] at mem <;> aesop

/-- The symbols of a brace list. -/
theorem allSymbols_braces (list : Braces) : allSymbols list.parts = mark openBrace ::
    (allSymbols (elementParts list.trailing list.elements) ++ [mark closeBrace]) := by
  simp [Braces.parts]

/-- In a brace list there are words and commas. -/
theorem mem_elementParts {trailing : Bool} {es : List Element} {s : Symbol}
    (mem : s ∈ allSymbols (elementParts trailing es)) : s = mark "," ∨ ∃ x, s = word x := by
  fun_induction elementParts trailing es with
  | case1 => cases mem
  | case2 e =>
    rw [allSymbols_cons, allSymbols_nil, List.append_nil, List.mem_append] at mem
    rcases mem with own | comma
    · exact .inr (exists_word_of_mem_element own)
    · cases trailing
      · cases comma
      · exact .inl (List.mem_singleton.mp comma)
  | case3 e es some ih =>
    rw [allSymbols_cons, List.mem_append, List.mem_append] at mem
    rcases mem with (own | comma) | rest
    · exact .inr (exists_word_of_mem_element own)
    · exact .inl (List.mem_singleton.mp comma)
    · exact ih rest

theorem nested_elementParts (trailing : Bool) (es : List Element) :
    Nested (allSymbols (elementParts trailing es)) := by
  refine nested_of_isPlain fun s mem => ?_
  obtain rfl | ⟨x, rfl⟩ := mem_elementParts mem <;> rfl

/-- Whether a symbol can stand in front of the word `from` outside braces. -/
def isBetween (s : Symbol) : Bool := s.kind == .ident || s.token.isPunct "*" || s.token.isPunct ","

theorem eq_of_isBetween {s : Symbol} (between : isBetween s = true) :
    (∃ x, s = word x) ∨ s = mark "*" ∨ s = mark "," := by
  obtain ⟨kind, text⟩ := s
  simp only [isBetween, Symbol.token, Token.isPunct, Bool.or_eq_true, Bool.and_eq_true,
    beq_iff_eq] at between
  rcases between with (rfl | ⟨rfl, rfl⟩) | ⟨rfl, rfl⟩
  · exact .inl ⟨text, rfl⟩
  · exact .inr (.inl rfl)
  · exact .inr (.inr rfl)

theorem ImportClause.isBetween_front (clause : ImportClause) : ∀ s ∈ clause.front, isBetween s = true := by
  cases clause <;> simp [front, isBetween]

theorem ExportClause.isBetween_front (clause : ExportClause) : ∀ s ∈ clause.front, isBetween s = true := by
  cases clause <;> simp [front, isBetween]

/-- The symbols behind the keyword of an item with a clause. -/
theorem allSymbols_clause (front : List Symbol) (list : Option Braces) (r : Quoted) :
    allSymbols (clauseParts front list r) = front ++
      ((list.elim [] fun list => allSymbols list.parts) ++ [word "from", r.symbol, mark ";"]) := by
  cases list <;> simp [clauseParts]

namespace Erase.Program

variable {p : Program}

/-! ## Overwriting parts -/

/-- Overwrites the parts that go, where the first part starts at a position. -/
def eraseParts (p : Program) (i : Nat) : List Part → State → State
  | [], s => s
  | part :: parts, s =>
    let stop := i + part.symbols.length
    eraseParts p stop parts (if part.erased then p.blank s i stop else s)

theorem eraseParts_cons (i : Nat) (part : Part) (parts : List Part) (s : State) :
    p.eraseParts i (part :: parts) s = p.eraseParts (i + part.symbols.length) parts
      (if part.erased then p.blank s i (i + part.symbols.length) else s) := rfl

theorem eraseParts_append (i : Nat) (front back : List Part) (s : State) :
    p.eraseParts i (front ++ back) s =
      p.eraseParts (i + (allSymbols front).length) back (p.eraseParts i front s) := by
  induction front generalizing i s with
  | nil => rfl
  | cons part front ih =>
    have place : i + part.symbols.length + (allSymbols front).length =
        i + (allSymbols (part :: front)).length := by
      rw [allSymbols_cons, List.length_append, Nat.add_assoc]
    rw [List.cons_append, eraseParts_cons, eraseParts_cons, ih, place]

theorem eraseParts_goto (i k : Nat) (parts : List Part) (s : State) :
    p.eraseParts i parts (s.goto k) = (p.eraseParts i parts s).goto k := by
  induction parts generalizing i s with
  | nil => rfl
  | cons part parts ih =>
    rw [eraseParts_cons, eraseParts_cons]
    split
    · rw [blank_goto, ih]
    · rw [ih]

/-! ## Brace lists -/

/-- An element ends before the comma behind it, or where the list ends. -/
theorem elementEnd_eq {k limit : Nat} {ss : List Symbol} (has : p.HasAll k ss)
    (words : ∀ s ∈ ss, ∃ x, s = word x)
    (ends : k + ss.length = limit ∨
      (k + ss.length < limit ∧ p.isPunct (k + ss.length) "," = true)) :
    p.elementEnd limit k = k + ss.length := by
  induction ss generalizing k with
  | nil =>
    rw [elementEnd]
    rcases ends with same | ⟨less, comma⟩
    · exact if_neg (by rw [← same]; exact Nat.lt_irrefl _)
    · exact (if_pos less).trans (if_pos comma)
  | cons s ss ih =>
    rw [List.forall_mem_cons] at words
    obtain ⟨x, rfl⟩ := words.1
    have place : k + (word x :: ss).length = k + 1 + ss.length := by
      rw [List.length_cons]
      omega
    rw [place] at ends ⊢
    rw [elementEnd, if_pos (by omega), has.1.isPunct_eq, isPunct_token_word,
      if_neg Bool.false_ne_true]
    exact ih has.2 words.2 ends

/-- An element goes with the comma behind it if it is a type, and the search goes on behind it. -/
theorem blankTypeElements_cons {e : Element} {ending : List Symbol} {limit k : Nat}
    (free : isFree e.name = true) (has : p.HasAll k (e.symbols ++ ending))
    (ends : (ending = [] ∧ k + e.symbols.length = limit) ∨
      (ending = [mark ","] ∧ k + e.symbols.length < limit)) (s : State) :
    p.blankTypeElements limit k s = p.blankTypeElements limit (k + e.symbols.length + 1)
      (if e.typeOnly then p.blank s k (k + (e.symbols ++ ending).length) else s) := by
  obtain ⟨words, comma⟩ := hasAll_append.mp has
  have stop : p.elementEnd limit k = k + e.symbols.length := by
    refine elementEnd_eq words (fun s => exists_word_of_mem_element) ?_
    rcases ends with ⟨-, same⟩ | ⟨rfl, less⟩
    · exact .inl same
    · exact .inr ⟨less, comma.1.isPunct_eq ","⟩
  have less : k < limit := by
    have some : 0 < e.symbols.length := by simp [Element.symbols]
    omega
  have isType : (p.isWord k "type" && decide (2 ≤ k + e.symbols.length - k) &&
      !(k + e.symbols.length - k == 3 && p.isWord (k + 1) "as")) = e.typeOnly := by
    rw [Nat.add_sub_cancel_left]
    obtain ⟨typeOnly, name, other⟩ := e
    cases typeOnly with
    | false =>
      have noType : p.isWord k "type" = (name == "type") := words.1.isWord_eq "type"
      rw [noType, beq_eq_false_iff_ne.mpr (ne_of_isFree free (by decide))]
      rfl
    | true =>
      have isType : p.isWord k "type" = true := words.1.isWord_eq "type"
      rw [isType]
      cases other <;> rfl
  have last : (if k + e.symbols.length < limit then k + e.symbols.length + 1
      else k + e.symbols.length) = k + (e.symbols ++ ending).length := by
    rw [List.length_append, ← Nat.add_assoc]
    rcases ends with ⟨rfl, same⟩ | ⟨rfl, less⟩
    · exact if_neg (by omega)
    · exact if_pos less
  rw [blankTypeElements, if_pos less]
  dsimp only
  rw [stop, isType, last]

theorem blankTypeElements_eq {es : List Element} {trailing : Bool} {k limit : Nat}
    (free : ∀ e ∈ es, isFree e.name = true) (has : p.HasAll k (allSymbols (elementParts trailing es)))
    (place : k + (allSymbols (elementParts trailing es)).length = limit) (s : State) :
    p.blankTypeElements limit k s = p.eraseParts k (elementParts trailing es) s := by
  have done {k : Nat} (ge : limit ≤ k) (s : State) : p.blankTypeElements limit k s = s := by
    rw [blankTypeElements, if_neg (Nat.not_lt.mpr ge)]
  fun_induction elementParts trailing es generalizing k s with
  | case1 => exact done (Nat.le_of_eq place.symm) s
  | case2 e =>
    rw [allSymbols_cons, allSymbols_nil, List.append_nil] at has place
    rw [blankTypeElements_cons (free e List.mem_cons_self) has ?_, done ?_]
    · rfl
    · rw [← place, List.length_append]
      cases trailing <;> simp
      omega
    · cases trailing with
      | false => exact .inl ⟨rfl, by simpa using place⟩
      | true =>
        refine .inr ⟨rfl, ?_⟩
        rw [← place]
        simp
  | case3 e es some ih =>
    rw [List.forall_mem_cons] at free
    rw [allSymbols_cons] at has place
    obtain ⟨own, rest⟩ := hasAll_append.mp has
    have length : (e.symbols ++ [mark ","]).length = e.symbols.length + 1 := List.length_append
    rw [List.length_append, length] at place
    rw [length, ← Nat.add_assoc] at rest
    rw [blankTypeElements_cons free.1 own (.inr ⟨rfl, by omega⟩), ih free.2 rest (by omega),
      eraseParts_cons, length, ← Nat.add_assoc]

/-! ## The ends of statements -/

theorem isBetween_cases {t : Token} (between : isBetween t.symbol = true) :
    (t.kind == .string) = false ∧ t.isPunct ";" = false ∧ t.isPunct openBrace = false := by
  obtain ⟨kind, start, text, newline, holes⟩ := t
  obtain ⟨x, same⟩ | same | same := eq_of_isBetween between <;> cases same <;> exact ⟨rfl, rfl, rfl⟩

theorem moduleStatementEnd_of_has {k : Nat} {s : Symbol} (has : p.Has k s) (between : isBetween s = true) :
    p.moduleStatementEnd k = p.moduleStatementEnd (k + 1) := by
  obtain ⟨t, found, rfl⟩ := has
  obtain ⟨noString, noSemicolon, noBrace⟩ := isBetween_cases between
  rw [moduleStatementEnd_eq, found, Option.elim_some, noString, noSemicolon, noBrace]
  rfl

theorem clauseList?_of_has {k : Nat} {s : Symbol} (has : p.Has k s) (between : isBetween s = true) :
    p.clauseList? k = p.clauseList? (k + 1) := by
  obtain ⟨t, found, rfl⟩ := has
  obtain ⟨noString, noSemicolon, noBrace⟩ := isBetween_cases between
  rw [clauseList?_eq, found, Option.bind_some, noString, noSemicolon, noBrace]
  rfl

theorem moduleStatementEnd_between {k : Nat} {ss : List Symbol} (between : ∀ s ∈ ss, isBetween s = true)
    (has : p.HasAll k ss) : p.moduleStatementEnd k = p.moduleStatementEnd (k + ss.length) := by
  induction ss generalizing k with
  | nil => rfl
  | cons s ss ih =>
    rw [List.forall_mem_cons] at between
    rw [moduleStatementEnd_of_has has.1 between.1, ih between.2 has.2, List.length_cons, Nat.add_assoc,
      Nat.add_comm 1]

theorem clauseList?_between {k : Nat} {ss : List Symbol} (between : ∀ s ∈ ss, isBetween s = true)
    (has : p.HasAll k ss) : p.clauseList? k = p.clauseList? (k + ss.length) := by
  induction ss generalizing k with
  | nil => rfl
  | cons s ss ih =>
    rw [List.forall_mem_cons] at between
    rw [clauseList?_of_has has.1 between.1, ih between.2 has.2, List.length_cons, Nat.add_assoc,
      Nat.add_comm 1]

section Clauses

variable (matched : matchBrackets p.tokens = .ok p.partners)
include matched

/-- A brace list closes behind its symbols. -/
theorem close_braces {k : Nat} {list : Braces} (has : p.HasAll k (allSymbols list.parts)) :
    p.close k + 1 = k + (allSymbols list.parts).length := by
  rw [allSymbols_braces] at has ⊢
  exact has.close_succ matched (by decide) (nested_elementParts ..)

theorem blankTypeList_eq {k : Nat} {list : Braces} (free : ∀ name ∈ list.names, isFree name = true)
    (has : p.HasAll k (allSymbols list.parts)) (s : State) :
    p.blankTypeList k s = p.eraseParts k list.parts s := by
  have close := close_braces matched has
  have free' : ∀ e ∈ list.elements, isFree e.name = true := fun e mem => free _ (List.mem_map_of_mem mem)
  rw [allSymbols_braces] at has close
  have inside := (hasAll_append.mp has.2).1
  simp only [List.length_cons, List.length_append, List.length_nil] at close
  rw [blankTypeList, blankTypeElements_eq free' inside (by omega), Braces.parts, eraseParts_cons,
    eraseParts_append]
  rfl

/-- The end of a statement is the same from the brace list in front of the word `from` as behind it. -/
theorem moduleStatementEnd_braces {k : Nat} {list : Braces} (has : p.HasAll k (allSymbols list.parts))
    (next : p.Has (k + (allSymbols list.parts).length) (word "from")) :
    p.moduleStatementEnd k = p.moduleStatementEnd (k + (allSymbols list.parts).length) := by
  have close := close_braces matched has
  rw [allSymbols_braces] at has
  obtain ⟨⟨kind, start, text, newline, holes⟩, found, same⟩ := has.1
  cases same
  rw [moduleStatementEnd_eq, found]
  change (if p.newlineBefore (p.close k + 1) && !p.isWord (p.close k + 1) "from" then _ else _) = _
  rw [close, next.isWord_eq, isWord_token_word, beq_self_eq_true, Bool.not_true, Bool.and_false]
  rfl

omit matched in
/-- A statement ends behind the semicolon behind its reference. -/
theorem moduleStatementEnd_reference {k : Nat} {r : Quoted}
    (has : p.HasAll k [r.symbol, mark ";"]) : p.moduleStatementEnd k = k + 2 := by
  obtain ⟨⟨⟨kind, start, text, newline, holes⟩, found, same⟩, semicolon, -⟩ := has
  cases same
  have stop : p.referenceEnd k = k + 1 := by
    rw [referenceEnd, semicolon.isWord_eq, semicolon.isWord_eq]
    rfl
  rw [moduleStatementEnd_eq, found, stop, semicolon.isPunct_eq]
  rfl

/-- A statement ends behind the semicolon of its clause. -/
theorem moduleStatementEnd_clause {k : Nat} {front : List Symbol} {list : Option Braces} {r : Quoted}
    (between : ∀ s ∈ front, isBetween s = true)
    (has : p.HasAll k (allSymbols (clauseParts front list r))) :
    p.moduleStatementEnd k = k + (allSymbols (clauseParts front list r)).length := by
  rw [allSymbols_clause] at has ⊢
  obtain ⟨start, rest⟩ := hasAll_append.mp has
  obtain ⟨braces, word, reference⟩ := hasAll_append.mp rest
  have inside : p.moduleStatementEnd (k + front.length) =
      p.moduleStatementEnd (k + front.length + (list.elim [] fun list => allSymbols list.parts).length) := by
    cases list with
    | none => rfl
    | some list => exact moduleStatementEnd_braces matched braces word
  rw [moduleStatementEnd_between between start, inside, moduleStatementEnd_of_has word rfl,
    moduleStatementEnd_reference reference]
  simp only [List.length_append, List.length_cons, List.length_nil]
  omega

theorem moduleStatementEnd_type {k : Nat} {front : List Symbol} {list : Option Braces} {r : Quoted}
    (between : ∀ s ∈ front, isBetween s = true)
    (has : p.HasAll k (word "type" :: allSymbols (clauseParts front list r))) :
    p.moduleStatementEnd k = k + 1 + (allSymbols (clauseParts front list r)).length := by
  rw [moduleStatementEnd_of_has has.1 rfl, moduleStatementEnd_clause matched between has.2]

omit matched in
/-- A reference comes without a brace list. -/
theorem clauseList?_reference {k : Nat} {r : Quoted} (has : p.Has k r.symbol) :
    p.clauseList? k = none := by
  obtain ⟨⟨kind, start, text, newline, holes⟩, found, same⟩ := has
  cases same
  rw [clauseList?_eq, found]
  rfl

omit matched in
/-- The brace list of a clause is found. -/
theorem clauseList?_clause {k : Nat} {front : List Symbol} {list : Option Braces} {r : Quoted}
    (between : ∀ s ∈ front, isBetween s = true)
    (has : p.HasAll k (allSymbols (clauseParts front list r))) :
    p.clauseList? k = list.map fun _ => k + front.length := by
  rw [allSymbols_clause] at has
  obtain ⟨start, rest⟩ := hasAll_append.mp has
  rw [clauseList?_between between start]
  cases list with
  | none =>
    obtain ⟨word, reference, -⟩ := rest
    exact (clauseList?_of_has word rfl).trans (clauseList?_reference reference)
  | some list =>
    obtain ⟨⟨⟨kind, start, text, newline, holes⟩, found, same⟩, -⟩ := rest
    cases same
    rw [clauseList?_eq, found]
    rfl

end Clauses

/-- Of a clause only the types in its brace list go. -/
theorem eraseParts_clause (k : Nat) (front : List Symbol) (list : Option Braces) (r : Quoted) (s : State) :
    p.eraseParts k (clauseParts front list r) s =
      list.elim s fun list => p.eraseParts (k + front.length) list.parts s := by
  rw [clauseParts, eraseParts_cons, eraseParts_append]
  cases list <;> rfl

/-! ## Imports and exports -/

section Imports

variable {i : Nat} {r : Quoted}

theorem importDeclaration_only (has : p.HasAll (i + 1) [r.symbol, mark ";"]) (s : State) :
    p.importDeclaration i s = .ok (s.goto (i + 3)) := by
  have string : p.kind? (i + 1) = some .string := has.1.kind?_eq
  have noType : p.isWord (i + 1) "type" = false := has.1.isWord_eq "type"
  have noName : p.isName (i + 1) = false := has.1.isName_eq
  unfold importDeclaration
  dsimp only
  rw [string, noType, noName, clauseList?_reference has.1, moduleStatementEnd_reference has,
    beq_self_eq_true, Bool.or_true]
  rfl

/-- What is asked about the start of an import clause. -/
theorem importClause_start {n : Nat} {clause : ImportClause}
    (free : ∀ name ∈ clause.names, isFree name = true)
    (has : p.HasAll n (allSymbols (clauseParts clause.front clause.list? r))) :
    (p.isPunct n openBrace || p.isPunct n "*" || p.isName n) = true ∧
      p.isWord n "type" = false ∧ (p.isName n && p.isPunct (n + 1) "=") = false ∧
      (p.isPunct n "," || p.isWord n "from" || p.isPunct n "=") = false := by
  have free' {x : String} (mem : x ∈ clause.names) : x ≠ "type" ∧ x ≠ "from" :=
    ⟨ne_of_isFree (free x mem) (by decide), ne_of_isFree (free x mem) (by decide)⟩
  cases clause with
  | default x =>
    obtain ⟨name, word, -⟩ := has
    simp [name.isPunct_eq, name.isName_eq, name.isWord_eq, word.isPunct_eq, free' List.mem_cons_self]
  | all x =>
    obtain ⟨star, -⟩ := has
    simp [star.isPunct_eq, star.isName_eq, star.isWord_eq]
  | named list =>
    obtain ⟨brace, -⟩ := has
    simp [brace.isPunct_eq, brace.isName_eq, brace.isWord_eq, openBrace]
  | both x list =>
    obtain ⟨name, comma, -⟩ := has
    simp [name.isPunct_eq, name.isName_eq, name.isWord_eq, comma.isPunct_eq, free' List.mem_cons_self]

/-- An export of types goes as a whole. -/
theorem exportDeclaration_of_type (word : p.Has (i + 1) (word "type"))
    (opens : (p.isPunct (i + 2) openBrace || p.isPunct (i + 2) "*") = true) {stop : Nat}
    (ends : p.moduleStatementEnd (i + 1) = stop) (w : Walker) (s : State) :
    p.exportDeclaration w i s = .ok ((p.blank s i stop).goto stop) := by
  unfold exportDeclaration
  dsimp only
  rw [word.isPunct_eq, word.isWord_eq, word.isWord_eq, opens, ends]
  rfl

variable (matched : matchBrackets p.tokens = .ok p.partners)
include matched

theorem importDeclaration_value {clause : ImportClause}
    (free : ∀ name ∈ clause.names, isFree name = true)
    (has : p.HasAll (i + 1) (allSymbols (clauseParts clause.front clause.list? r))) (s : State) :
    p.importDeclaration i s = .ok ((p.eraseParts (i + 1) (clauseParts clause.front clause.list? r) s).goto
      (i + 1 + (allSymbols (clauseParts clause.front clause.list? r)).length)) := by
  obtain ⟨start, noType, noEquals, -⟩ := importClause_start free has
  have ends := moduleStatementEnd_clause matched clause.isBetween_front has
  unfold importDeclaration
  dsimp only
  rw [start, noType, noEquals, ends, clauseList?_clause clause.isBetween_front has, eraseParts_clause]
  generalize (allSymbols (clauseParts clause.front clause.list? r)).length = length
  cases same : clause.list? with
  | none => rfl
  | some list =>
    rw [same, allSymbols_clause] at has
    have braces := (hasAll_append.mp (hasAll_append.mp has).2).1
    have blanked := blankTypeList_eq matched (fun name mem => free name (clause.mem_names same mem)) braces s
    exact congrArg (fun t : State => Except.ok (t.goto (i + 1 + length))) blanked

theorem importDeclaration_type {clause : ImportClause}
    (free : ∀ name ∈ clause.names, isFree name = true)
    (has : p.HasAll (i + 1) (word "type" :: allSymbols (clauseParts clause.front clause.list? r)))
    (s : State) {stop : Nat}
    (place : i + 2 + (allSymbols (clauseParts clause.front clause.list? r)).length = stop) :
    p.importDeclaration i s = .ok ((p.blank s i stop).goto stop) := by
  have ends := (moduleStatementEnd_type matched clause.isBetween_front has).trans place
  obtain ⟨word, has⟩ := has
  obtain ⟨-, -, -, binds⟩ := importClause_start free has
  have isType : p.isWord (i + 1) "type" = true := word.isWord_eq "type"
  have isName : p.isName (i + 1) = true := word.isName_eq
  unfold importDeclaration
  dsimp only
  rw [isName, isType, binds, ends, Bool.or_true, Bool.true_or]
  rfl

theorem exportDeclaration_value {clause : ExportClause}
    (free : ∀ name ∈ clause.names, isFree name = true)
    (has : p.HasAll (i + 1) (allSymbols (clauseParts clause.front clause.list? r))) (w : Walker) (s : State) :
    p.exportDeclaration w i s =
      .ok ((p.eraseParts (i + 1) (clauseParts clause.front clause.list? r) s).goto
        (i + 1 + (allSymbols (clauseParts clause.front clause.list? r)).length)) := by
  have ends := moduleStatementEnd_clause matched clause.isBetween_front has
  unfold exportDeclaration
  dsimp only
  rw [ends, eraseParts_clause]
  generalize (allSymbols (clauseParts clause.front clause.list? r)).length = length
  cases clause with
  | named list =>
    rw [allSymbols_clause] at has
    have braces : p.HasAll (i + 1) (allSymbols list.parts) :=
      (hasAll_append.mp (hasAll_append.mp has).2).1
    obtain ⟨brace, -⟩ := has
    rw [blankTypeList_eq matched free braces, brace.isPunct_eq, brace.isWord_eq, brace.isWord_eq,
      brace.isPunct_eq]
    rfl
  | all | allAs x =>
    obtain ⟨star, -⟩ := has
    rw [star.isPunct_eq, star.isWord_eq, star.isWord_eq, star.isPunct_eq, star.isPunct_eq]
    rfl

theorem exportDeclaration_type {clause : ExportClause}
    (has : p.HasAll (i + 1) (word "type" :: allSymbols (clauseParts clause.front clause.list? r)))
    (w : Walker) (s : State) {stop : Nat}
    (place : i + 2 + (allSymbols (clauseParts clause.front clause.list? r)).length = stop) :
    p.exportDeclaration w i s = .ok ((p.blank s i stop).goto stop) := by
  have ends := (moduleStatementEnd_type matched clause.isBetween_front has).trans place
  obtain ⟨word, has⟩ := has
  have opens : (p.isPunct (i + 2) openBrace || p.isPunct (i + 2) "*") = true := by
    cases clause with
    | named list =>
      obtain ⟨brace, -⟩ := has
      simp [brace.isPunct_eq]
    | all | allAs x =>
      obtain ⟨star, -⟩ := has
      simp [star.isPunct_eq]
  exact exportDeclaration_of_type word opens ends w s

/-- An export of types of its own ends with its line or behind the semicolon on it. -/
theorem exportDeclaration_types {list : Braces}
    (has : p.HasAll (i + 1) (word "type" :: allSymbols list.parts))
    (semicolon : p.Shows (i + 2 + (allSymbols list.parts).length) (mark ";")) (w : Walker) (s : State)
    {stop : Nat} (place : i + 2 + (allSymbols list.parts).length + 1 = stop) :
    p.exportDeclaration w i s = .ok ((p.blank s i stop).goto stop) := by
  obtain ⟨word, has⟩ := has
  have close := close_braces matched has
  rw [allSymbols_braces] at has
  have opens : (p.isPunct (i + 2) openBrace || p.isPunct (i + 2) "*") = true := by
    rw [has.1.isPunct_eq]
    rfl
  have ends : p.moduleStatementEnd (i + 1) = stop := by
    have after : p.moduleStatementEnd (p.close (i + 2) + 1) = stop := by
      obtain ⟨⟨kind, start, text, newline, holes⟩, found, same⟩ := semicolon.has
      cases same
      rw [close, ← place, moduleStatementEnd_eq, found]
      rfl
    obtain ⟨⟨kind, start, text, newline, holes⟩, found, same⟩ := has.1
    cases same
    rw [moduleStatementEnd_of_has word rfl, moduleStatementEnd_eq, found]
    change (if p.newlineBefore (p.close (i + 2) + 1) && !p.isWord (p.close (i + 2) + 1) "from" then _
      else _) = _
    rw [close, semicolon.newlineBefore_eq, ← close]
    exact after
  exact exportDeclaration_of_type word opens ends w s

end Imports

end Erase.Program

end ModuleLinker
