import Mathlib
import ModuleLinker.Proofs.Erase.Behind.Text
import ModuleLinker.Proofs.Erase.TypeText

/-!
# Declarations and their neighbours

A declaration that only exists for the types, on a line of its own and without a semicolon, is
overwritten up to the end of its line (`Program.step_of_declaration`). Where it
ends is told from its last token and the first one of the next line: a `>` there is taken for an
operator that waits for its operand, and an ambient declaration goes on through a bracket on the next
line, so that these neighbours are left out (`Declaration.isClear`).
-/

set_option autoImplicit false

namespace ModuleLinker

open Erase

theorem Token.isPunct_of_isPlain {t : Token} (plain : t.symbol.isPlain = true) {text : String}
    (among : text ∈ ["(", ")", "[", "]", openBrace, closeBrace]) : t.isPunct text = false := by
  obtain ⟨kind, start, text', newline, holes⟩ := t
  rw [Bool.eq_false_iff]
  intro same
  simp only [Token.isPunct, Bool.and_eq_true, beq_iff_eq] at same
  obtain ⟨rfl, rfl⟩ := same
  rw [← List.contains_iff_mem] at among
  simp only [Token.symbol, Symbol.isPlain, among] at plain
  cases plain

/-- The only punctuators that a statement starts with are brackets. -/
theorem Token.isPunct_of_opensStatement {t : Token} (opens : t.opensStatement = true) {text : String}
    (other : text ≠ "(" ∧ text ≠ "[") : t.isPunct text = false := by
  obtain ⟨kind, start, text', newline, holes⟩ := t
  rw [Bool.eq_false_iff]
  intro same
  simp only [Token.isPunct, Bool.and_eq_true, beq_iff_eq] at same
  obtain ⟨rfl, rfl⟩ := same
  simp [Token.opensStatement, Token.isPunct, other] at opens

namespace Erase

/-! ## Ambient declarations -/

/-- Whether symbols make up a run without semicolons, their brackets apart. -/
inductive IsInline : List Symbol → Prop
  /-- Nothing. -/
  | nil : IsInline []
  /-- A symbol that is no bracket and no semicolon, and a run. -/
  | plain {s : Symbol} {ss : List Symbol} :
      s.isPlain = true → s.token.isPunct ";" = false → IsInline ss → IsInline (s :: ss)
  /-- Anything in brackets, and a run. -/
  | bracket {opener : String} {inside ss : List Symbol} : opener ∈ openers → Nested inside →
      IsInline ss → IsInline (.mark opener :: (inside ++ .mark (closerOf opener) :: ss))

namespace IsInline

theorem append {ss ts : List Symbol} (first : IsInline ss) (second : IsInline ts) :
    IsInline (ss ++ ts) := by
  induction first with
  | nil => exact second
  | plain plain noSemicolon _ ih => exact .plain plain noSemicolon ih
  | bracket among nested _ ih =>
    rw [List.cons_append, List.append_assoc, List.cons_append]
    exact .bracket among nested ih

/-- A run does not start with a semicolon. -/
theorem head_ne {s : Symbol} {ss : List Symbol} (inline : IsInline (s :: ss)) :
    s.token.isPunct ";" = false := by
  cases inline with
  | plain _ noSemicolon _ => exact noSemicolon
  | bracket among _ _ =>
    simp only [openers, List.mem_cons, List.not_mem_nil, or_false] at among
    rcases among with rfl | rfl | rfl <;> decide

end IsInline

theorem isInline_qualified (first : String) (segments : List String) :
    IsInline (.word first :: segments.flatMap fun name => [.mark ".", .word name]) := by
  refine .plain rfl rfl ?_
  induction segments with
  | nil => exact .nil
  | cons name segments ih => exact .plain (by decide) (by decide) (.plain rfl rfl ih)

theorem isInline_separated {arguments : List (List Symbol)}
    (inline : ∀ ss ∈ arguments, IsInline ss) : IsInline (separated arguments) := by
  fun_induction separated arguments with
  | case1 => exact .nil
  | case2 ss => exact inline ss List.mem_cons_self
  | case3 ss rest _ ih =>
    rw [List.forall_mem_cons] at inline
    exact inline.1.append (.plain (by decide) (by decide) (ih inline.2))

/-- Something in brackets is a run. -/
theorem IsInline.of_bracket {opener : String} (among : opener ∈ openers) {ss : List Symbol}
    (nested : Nested ss) : IsInline (.mark opener :: (ss ++ [.mark (closerOf opener)])) :=
  .bracket among nested .nil

theorem IsType.isInline {ss : List Symbol} (isType : IsType ss) : IsInline ss := by
  induction isType with
  | name => exact isInline_qualified _ _
  | generic _ _ _ ih =>
    refine (isInline_qualified _ _).append (.plain (by decide) (by decide) ?_)
    exact (isInline_separated ih).append (.plain (by decide) (by decide) .nil)
  | array _ ih => exact ih.append (IsInline.of_bracket (by decide) .nil)
  | tuple inside => exact IsInline.of_bracket (by decide) inside
  | parenthesized isType => exact IsInline.of_bracket (by decide) isType.nested
  | union _ _ ih ih' => exact ih.append (.plain (by decide) (by decide) ih')
  | object inside => exact IsInline.of_bracket (by decide) inside
  | string => exact .plain rfl rfl .nil
  | number => exact .plain rfl rfl .nil
  | negative => exact .plain (by decide) (by decide) (.plain rfl rfl .nil)

namespace Program

variable {p : Program}

/-- An ambient declaration goes on to the end of its line, where it ends in a brace or ends there at
the latest. -/
theorem declarationEnd_of_isInline {ss : List Symbol} (inline : IsInline ss)
    (matched : matchBrackets p.tokens = .ok p.partners) {first i : Nat} (reads : p.Reads i ss)
    (line : p.newlineBefore (i + ss.length) = true)
    (noSemicolon : p.isPunct (i + ss.length) ";" = false)
    (ends : ss.getLast? = some (.mark closeBrace) ∨
      p.declarationEnd first (i + ss.length) = i + ss.length) :
    p.declarationEnd first i = i + ss.length := by
  induction inline generalizing i with
  | nil => exact ends.resolve_left (by simp)
  | @plain s ss plain other inline ih =>
    obtain ⟨⟨t, found, rfl, newline⟩, rest⟩ := reads
    have place : i + (t.symbol :: ss).length = i + 1 + ss.length := by
      rw [List.length_cons]
      omega
    rw [place] at line noSemicolon ends ⊢
    have ends' : ss.getLast? = some (.mark closeBrace) ∨
        p.declarationEnd first (i + 1 + ss.length) = i + 1 + ss.length := by
      refine ends.imp_left fun last => ?_
      cases ss with
      | nil =>
        rw [List.getLast?_singleton, Option.some_inj] at last
        rw [last] at plain
        exact absurd plain (by decide)
      | cons s ss => rwa [List.getLast?_cons_cons] at last
    have noSemicolon' : t.isPunct ";" = false := other
    rw [declarationEnd_eq, found, Option.elim_some, noSemicolon', newline,
      t.isPunct_of_isPlain plain (by decide), t.isPunct_of_isPlain plain (by decide),
      t.isPunct_of_isPlain plain (by decide), t.isPunct_of_isPlain plain (by decide), Bool.and_false]
    exact ih rest line noSemicolon ends'
  | @bracket opener inside ss among nested inline ih =>
    have regroup : Symbol.mark opener :: (inside ++ .mark (closerOf opener) :: ss) =
        (.mark opener :: (inside ++ [.mark (closerOf opener)])) ++ ss := by simp
    rw [regroup] at reads line noSemicolon ends ⊢
    obtain ⟨bracket, rest⟩ := reads_append.mp reads
    have close := bracket.close_succ matched among nested
    rw [List.length_append, ← Nat.add_assoc, ← close] at line noSemicolon ends ⊢
    rw [← close] at rest
    have ends' (other : ss ≠ [] ∨ closerOf opener ≠ closeBrace) :
        ss.getLast? = some (.mark closeBrace) ∨
          p.declarationEnd first (p.close i + 1 + ss.length) = p.close i + 1 + ss.length := by
      refine ends.imp_left fun last => ?_
      rw [← List.cons_append, List.getLast?_append, List.getLast?_append] at last
      cases ss with
      | nil =>
        have same : closerOf opener = closeBrace := congrArg Symbol.text (Option.some_inj.mp last)
        exact absurd same (other.resolve_left (by simp))
      | cons s ss => simpa [List.getLast?_cons] using last
    obtain ⟨⟨kind, start, text, newline, holes⟩, found, same, -⟩ := bracket.1
    cases same
    rw [declarationEnd_eq, found]
    simp only [openers, List.mem_cons, List.not_mem_nil, or_false] at among
    rcases among with rfl | rfl | rfl
    · exact ih rest line noSemicolon (ends' (.inr (show closerOf "(" ≠ closeBrace by decide)))
    · exact ih rest line noSemicolon (ends' (.inr (show closerOf "[" ≠ closeBrace by decide)))
    · change (if p.isPunct (p.close i + 1) ";" = true then _
        else if p.newlineBefore (p.close i + 1) = true then _ else _) = _
      cases ss with
      | nil =>
        rw [List.length_nil, Nat.add_zero] at line noSemicolon
        rw [noSemicolon, line]
        rfl
      | cons s ss =>
        rw [rest.1.isPunct_eq, inline.head_ne, rest.1.newlineBefore_eq]
        exact ih rest line noSemicolon (ends' (.inl (by simp)))

/-- An ambient declaration ends before a line that starts with a token other than a bracket, unless an
operator stands before it. -/
theorem declarationEnd_of_opensStatement {first k : Nat} {t : Token} (found : p.tokens[k]? = some t)
    (opens : t.opensStatement = true) (noParenthesis : t.isPunct "(" = false)
    (noBracket : t.isPunct "[" = false) (later : first < k) (line : t.newlineBefore = true)
    (noOperator : p.expectsOperand (k - 1) = false) : p.declarationEnd first k = k := by
  have plain {text : String} (other : text ≠ "(" ∧ text ≠ "[") : t.isPunct text = false :=
    Token.isPunct_of_opensStatement opens other
  rw [declarationEnd_eq, found, Option.elim_some, plain (by decide), plain (by decide),
    plain (by decide), noParenthesis, noBracket, plain (by decide), plain (by decide), line, noOperator,
    decide_eq_true later]
  rfl

end Program

/-! ## The last symbol of a type -/

/-- The last of some symbols stands in front of the position behind them. -/
theorem Program.Reads.last {p : Program} {i : Nat} {ss : List Symbol} {s : Symbol}
    (reads : p.Reads i ss) (last : ss.getLast? = some s) : p.Shows (i + ss.length - 1) s := by
  obtain ⟨front, rfl⟩ := List.getLast?_eq_some_iff.mp last
  have place : i + (front ++ [s]).length - 1 = i + front.length := by
    rw [List.length_append, List.length_singleton]
    omega
  rw [place]
  exact (Program.reads_append.mp reads).2.1

/-- Whether a symbol is a name, a literal, a closing bracket or the end of type arguments. -/
def endsText (s : Symbol) : Bool :=
  s.kind != .punct || s.token.isCloser || s.token.isPunct ">"

theorem endsText_append (ss : List Symbol) {ts : List Symbol}
    (ends : ts.getLast?.any endsText = true) : (ss ++ ts).getLast?.any endsText = true := by
  rw [List.getLast?_append]
  cases last : ts.getLast? with
  | none =>
    rw [last] at ends
    cases ends
  | some s =>
    rw [last] at ends
    exact ends

theorem IsType.endsText {ss : List Symbol} (isType : IsType ss) :
    ss.getLast?.any Erase.endsText = true := by
  induction isType with
  | @name first segments _ =>
    cases segments using List.reverseRecOn with
    | nil => rfl
    | append_singleton segments name =>
      rw [List.flatMap_append, ← List.cons_append]
      exact endsText_append _ rfl
  | generic =>
    rw [← List.cons_append, ← List.append_assoc]
    exact endsText_append _ rfl
  | array => exact endsText_append _ rfl
  | tuple => exact endsText_append (_ :: _) rfl
  | parenthesized => exact endsText_append (_ :: _) rfl
  | @union ss ts _ _ _ ih =>
    rw [← List.singleton_append, ← List.append_assoc]
    exact endsText_append _ ih
  | object => exact endsText_append (_ :: _) rfl
  | string => rfl
  | number => rfl
  | negative => rfl

/-! ## Declarations -/

/-- A declaration that only exists for the types, on one line and without a semicolon. -/
inductive Declaration where
  /-- The statement `type X = T`. -/
  | typeAlias (name : String) (type : List Symbol)
  /-- The statement `interface X { a: T }`. -/
  | interface (name member : String) (type : List Symbol)
  /-- The statement `declare const x: T`. -/
  | ambientConst (name : String) (type : List Symbol)
  /-- The statement `declare function f(): T`. -/
  | ambientFunction (name : String) (type : List Symbol)

namespace Declaration

/-- The symbols of the type in a declaration. -/
def type : Declaration → List Symbol
  | .typeAlias _ type => type
  | .interface _ _ type => type
  | .ambientConst _ type => type
  | .ambientFunction _ type => type

/-- The symbols of a declaration. -/
def symbols : Declaration → List Symbol
  | .typeAlias name type => [.word "type", .word name, .mark "="] ++ type
  | .interface name member type =>
    [.word "interface", .word name, .mark openBrace, .word member, .mark ":"] ++ type ++
      [.mark closeBrace]
  | .ambientConst name type => [.word "declare", .word "const", .word name, .mark ":"] ++ type
  | .ambientFunction name type =>
    [.word "declare", .word "function", .word name, .mark "(", .mark ")", .mark ":"] ++ type

/-- Whether a declaration is an ambient one. -/
def isAmbient : Declaration → Bool
  | .typeAlias .. => false
  | .interface .. => false
  | .ambientConst .. => true
  | .ambientFunction .. => true

/-- Whether the end of a declaration is seen before a program on the next line: neither a type-only
statement nor the end of an ambient declaration is seen behind a `>`, and a bracket that starts the
line goes on with an ambient declaration, or holds parameters if a body stands behind it, unless the
declaration ends in a brace. -/
def isClear (d : Declaration) (p : Program) : Bool :=
  let last := d.symbols.getLast?
  !(last == some (.mark ">") && (d.isAmbient || p.opensTypeStatement 0)) &&
    (last == some (.mark closeBrace) ||
      (!((p.isPunct 0 "(" || p.isPunct 0 "[") && d.isAmbient) &&
        !(p.isPunct 0 "(" && p.opensBody (p.close 0))))

theorem nested_symbols {d : Declaration} (proper : IsType d.type) : Nested d.symbols := by
  cases d with
  | typeAlias name type => exact .cons rfl (.cons rfl (.cons (by decide) proper.nested))
  | interface name member type =>
    refine .cons rfl (.cons rfl ?_)
    exact @Nested.bracket openBrace _ (by decide) (.cons rfl (.cons (by decide) proper.nested))
  | ambientConst name type =>
    exact .cons rfl (.cons rfl (.cons rfl (.cons (by decide) proper.nested)))
  | ambientFunction name type =>
    refine .cons rfl (.cons rfl (.cons rfl ?_))
    exact (@Nested.bracket "(" _ (by decide) .nil).append (.cons (by decide) proper.nested)

theorem endsText_symbols {d : Declaration} (proper : IsType d.type) :
    d.symbols.getLast?.any endsText = true := by
  cases d with
  | interface => exact endsText_append _ rfl
  | typeAlias | ambientConst | ambientFunction => exact endsText_append _ proper.endsText

end Declaration

/-! ## The step at a declaration -/

namespace Program

variable {p : Program}

/-- At the start of a text a word that starts type-only statements is taken for one. -/
theorem step_of_word {word : String} (among : word ∈ ["type", "interface", "declare"])
    (shows : p.Shows 0 (.word word)) (w : Walker) (limit : Nat) :
    p.step w limit ⟨0, []⟩ = p.typeStatement w 0 0 1 ⟨0, []⟩ := by
  have text := shows.text_eq
  obtain ⟨⟨kind, start, word', newline, holes⟩, found, same, -⟩ := shows
  cases same
  have word : p.stepWord w limit ⟨0, []⟩ = p.typeStatement w 0 0 1 ⟨0, []⟩ := by
    unfold stepWord
    dsimp only
    rw [text]
    simp only [List.mem_cons, List.not_mem_nil, or_false] at among
    rcases among with rfl | rfl | rfl <;> rfl
  unfold step
  rw [found]
  exact word

theorem blank_goto (s : State) (k first last : Nat) :
    p.blank (s.goto k) first last = (p.blank s first last).goto k := by
  unfold blank
  split
  · split <;> rfl
  · rfl

variable (matched : matchBrackets p.tokens = .ok p.partners)
include matched

/-- A type alias goes with the semicolon behind it, if there is one. -/
theorem typeStatement_typeAlias {i k : Nat} {name : String} {type : List Symbol}
    (isType : IsType type) (word : p.Has i (.word "type"))
    (reads : p.Reads (i + 1) (.word name :: .mark "=" :: type)) (place : i + 3 + type.length = k)
    (ends : p.endsType k = true) (w : Walker) (s : State) {stop : Nat}
    (semicolon : stop = if p.isPunct k ";" then k + 1 else k) :
    p.typeStatement w i i (i + 1) s = .ok ((p.blank s i stop).goto stop) := by
  obtain ⟨named, equals, rest⟩ := reads
  have found : p.expectType (i + 2 + 1) = .ok k := by
    rw [← place] at ends ⊢
    rw [expectType_eq, typeStop?_of_isType isType matched rest ends]
    rfl
  have blanked : p.blankAlias i i s = .ok ((p.blank s i stop).goto stop) := by
    unfold blankAlias
    rw [equals.isPunct_eq, Symbol.isPunct_token_mark]
    change (if p.isPunct (i + 2) "=" = true then _ else _) = _
    rw [equals.isPunct_eq, Symbol.isPunct_token_mark, if_pos (by decide)]
    refine bind_eq_ok.mpr ⟨k, found, ?_⟩
    have skipped : p.skipPunct (s.goto k) ";" = s.goto stop := by
      have position : (s.goto k).pos = k := rfl
      rw [skipPunct, position, semicolon]
      cases p.isPunct k ";" <;> rfl
    dsimp only
    rw [skipped, blank_goto]
    rfl
  unfold typeStatement
  rw [word.text_eq, named.isName_eq, named.newlineBefore_eq, equals.isPunct_eq]
  exact blanked

theorem typeStatement_interface {name member : String} {type : List Symbol} (isType : IsType type)
    (reads : p.Reads 0 (Declaration.interface name member type).symbols) {k : Nat}
    (place : (Declaration.interface name member type).symbols.length = k) (w : Walker) :
    p.typeStatement w 0 0 1 ⟨0, []⟩ = .ok ((p.blank ⟨0, []⟩ 0 k).goto k) := by
  obtain ⟨word, named, body⟩ := reads
  have nested : Nested (.word member :: .mark ":" :: type) := .cons rfl (.cons (by decide) isType.nested)
  have close : p.close 2 + 1 = k := by
    rw [Reads.close_eq matched (by decide) nested body, ← place]
    simp only [Declaration.symbols, List.length_append, List.length_cons, List.length_nil]
    omega
  have ahead : p.bodyAhead 0 2 = .ok 2 := by
    have isBrace : p.isPunct 2 openBrace = true := body.1.isPunct_eq openBrace
    obtain ⟨t, found, same⟩ := (Option.any_eq_true ..).mp isBrace
    rw [bodyAhead_eq, found, Option.elim_some, same, if_pos rfl]
  unfold typeStatement
  rw [word.text_eq, named.isName_eq, named.newlineBefore_eq]
  refine bind_eq_ok.mpr ⟨2, ahead, ?_⟩
  dsimp only
  rw [close]

theorem typeStatement_ambient {word : String} {ss : List Symbol} (inline : IsInline (.word word :: ss))
    (reads : p.Reads 0 (.word "declare" :: .word word :: ss)) {k : Nat}
    (place : (Symbol.word "declare" :: .word word :: ss).length = k) (line : p.newlineBefore k = true)
    (noSemicolon : p.isPunct k ";" = false)
    (ends : (Symbol.word "declare" :: .word word :: ss).getLast? = some (.mark closeBrace) ∨
      p.declarationEnd 1 k = k) (w : Walker) :
    p.typeStatement w 0 0 1 ⟨0, []⟩ = .ok ((p.blank ⟨0, []⟩ 0 k).goto k) := by
  obtain ⟨declare, rest⟩ := reads
  have length : 0 + 1 + (Symbol.word word :: ss).length = k := by
    rw [← place, List.length_cons, List.length_cons, List.length_cons]
    omega
  rw [List.getLast?_cons_cons] at ends
  rw [← length] at line noSemicolon ends
  have stop := declarationEnd_of_isInline inline matched rest line noSemicolon ends
  rw [length] at stop
  unfold typeStatement
  rw [declare.text_eq, rest.1.isName_eq, rest.1.newlineBefore_eq]
  change Except.ok ((p.blank ⟨0, []⟩ 0 (p.declarationEnd 1 1)).goto (p.declarationEnd 1 1)) = _
  rw [show p.declarationEnd 1 1 = k from stop]

omit matched in
/-- The last token of a type waits for an operand only where it is a `>`. -/
theorem Shows.expectsOperand_eq {i : Nat} {s : Symbol} (shows : p.Shows i s) (ends : endsText s = true)
    (other : s ≠ .mark ">") : p.expectsOperand i = false := by
  have whole : p.expectsOperand i = (s.kind == .punct &&
      !(s.token.isCloser || s.text == "++" || s.text == "--" || s.text == ";")) :=
    shows.is_eq fun _ => rfl
  rw [whole, Bool.and_eq_false_iff, Bool.not_eq_false']
  simp only [endsText, Bool.or_eq_true, bne_iff_ne] at ends
  rcases ends with (other | closer) | angle
  · exact .inl (beq_eq_false_iff_ne.mpr other)
  · exact .inr (by rw [closer, Bool.true_or, Bool.true_or, Bool.true_or])
  · refine absurd ?_ other
    obtain ⟨kind, text⟩ := s
    simp only [Symbol.token, Token.isPunct, Bool.and_eq_true, beq_iff_eq] at angle
    rw [angle.1, angle.2]
    rfl

/-- The first step in a text that starts with a declaration overwrites it. -/
theorem step_of_declaration {d : Declaration} (proper : IsType d.type) (reads : p.Reads 0 d.symbols)
    {t : Token} (found : p.tokens[d.symbols.length]? = some t) (opens : t.opensStatement = true)
    (line : t.newlineBefore = true) (noNew : t.isWord "new" = false)
    (ends : d.isAmbient = true → d.symbols.getLast? = some (.mark closeBrace) ∨
      (d.symbols.getLast? ≠ some (.mark ">") ∧ t.isPunct "(" = false ∧ t.isPunct "[" = false))
    (w : Walker) (limit : Nat) :
    p.step w limit ⟨0, []⟩ =
      .ok ((p.blank ⟨0, []⟩ 0 d.symbols.length).goto d.symbols.length) := by
  have punct {text : String} (other : text ≠ "(" ∧ text ≠ "[") :
      p.isPunct d.symbols.length text = false := by
    rw [isPunct, is, found]
    exact Token.isPunct_of_opensStatement opens other
  have newline : p.newlineBefore d.symbols.length = true := by
    rw [newlineBefore, found]
    exact line
  have noNew' : p.isWord d.symbols.length "new" = false := by
    rw [isWord, is, found]
    exact noNew
  have endsType : p.endsType d.symbols.length = true := by
    rw [endsType, endsOperand, punct (by decide), punct (by decide), punct (by decide),
      punct (by decide), punct (by decide), noNew', newline]
    rfl
  have ambient (isAmbient : d.isAmbient = true) (first : Nat) (later : first < d.symbols.length) :
      d.symbols.getLast? = some (.mark closeBrace) ∨
        p.declarationEnd first d.symbols.length = d.symbols.length := by
    refine (ends isAmbient).imp_right fun other => ?_
    obtain ⟨noAngle, noParenthesis, noBracket⟩ := other
    obtain ⟨s, last, ends⟩ := (Option.any_eq_true ..).mp (Declaration.endsText_symbols proper)
    have shows := reads.last last
    rw [Nat.zero_add] at shows
    refine declarationEnd_of_opensStatement found opens noParenthesis noBracket later line
      (shows.expectsOperand_eq ends ?_)
    rintro rfl
    exact noAngle last
  cases d with
  | typeAlias name type =>
    rw [step_of_word (by decide) reads.1]
    refine typeStatement_typeAlias matched proper reads.1.has reads.2 ?_ endsType w _ ?_
    · simp only [Declaration.symbols, List.length_append, List.length_cons, List.length_nil,
        Declaration.type]
    · rw [punct (by decide), if_neg Bool.false_ne_true]
  | interface name member type =>
    rw [step_of_word (by decide) reads.1]
    exact typeStatement_interface matched proper reads rfl w
  | ambientConst name type =>
    rw [step_of_word (by decide) reads.1]
    refine typeStatement_ambient matched ?_ reads rfl newline (punct (by decide)) ?_ w
    · exact .plain rfl rfl (.plain rfl rfl (.plain (by decide) (by decide) proper.isInline))
    · exact ambient rfl 1 (by simp [Declaration.symbols])
  | ambientFunction name type =>
    rw [step_of_word (by decide) reads.1]
    refine typeStatement_ambient matched ?_ reads rfl newline (punct (by decide)) ?_ w
    · refine .plain rfl rfl (.plain rfl rfl ?_)
      exact (@IsInline.of_bracket "(" (by decide) _ .nil).append
        (.plain (by decide) (by decide) proper.isInline)
    · exact ambient rfl 1 (by simp [Declaration.symbols])

end Program

end Erase

end ModuleLinker
