import ModuleLinker.Proofs.Source.Appended
import ModuleLinker.Proofs.Source.Behind
import ModuleLinker.Proofs.Source.Complaints

/-!
# Where a substitution ends

Inside a template literal a substitution is passed by without being scanned: strings, templates and
comments are stepped over, and braces are counted. Scanning takes the same text apart into tokens. Both
come to the same end (`substitution_scan`): what stands between two tokens is passed by, so is a token,
and as many braces are open as there are among the open brackets.

Regular expressions are the exception: one is passed by as if its characters stood for themselves. That
does no harm where its braces go together and nothing in it looks like a string, a template or a comment
(`Token.IsQuiet`).
-/

set_option autoImplicit false

namespace ModuleLinker

open Text

namespace Lexeme

/-! ## Characters that stand for themselves -/

/-- Whether a text starts with a comment. -/
def startsComment : List Char → Bool
  | '/' :: c :: _ => c == '/' || c == '*'
  | _ => false

/-- Whether a character opens neither a string nor a template literal. -/
def isUnquoted (c : Char) : Bool := c != '"' && c != '\x27' && c != templateMark

/-- How many braces are open behind some characters, where `depth` are open in front of them; there is
no answer where one closes that is not open. -/
def bracesBehind? (depth : Nat) : List Char → Option Nat
  | [] => some depth
  | c :: cs =>
    if c = '{' then bracesBehind? (depth + 1) cs
    else if c = '}' then
      match depth with
      | 0 => none
      | outer + 1 => bracesBehind? outer cs
    else bracesBehind? depth cs

/-- Whether a run of characters before a text is passed by in a substitution, character by character. -/
structure IsRun (cs rest : List Char) : Prop where
  /-- Nothing in it opens a string or a template literal. -/
  unquoted : ∀ c ∈ cs, isUnquoted c = true
  /-- No comment starts in it. -/
  noComment : ∀ n < cs.length, startsComment ((cs ++ rest).drop n) = false

theorem IsRun.tail {c : Char} {cs rest : List Char} (run : IsRun (c :: cs) rest) : IsRun cs rest where
  unquoted := fun d mem => run.unquoted d (List.mem_cons_of_mem _ mem)
  noComment := fun n less => run.noComment (n + 1) (Nat.succ_lt_succ less)

/-- Characters without a slash start no comment. -/
theorem IsRun.of_noSlash {cs : List Char} (unquoted : ∀ c ∈ cs, isUnquoted c = true)
    (noSlash : '/' ∉ cs) (rest : List Char) : IsRun cs rest := by
  refine ⟨unquoted, fun n less => ?_⟩
  rw [List.drop_append_of_le_length (Nat.le_of_lt less), List.drop_eq_getElem_cons less, List.cons_append]
  have other : cs[n] ≠ '/' := fun same => noSlash (same ▸ List.getElem_mem less)
  unfold startsComment
  split
  case h_1 _ _ _ same => exact absurd (List.cons.inj same).1 other
  case h_2 => rfl

theorem bracesBehind?_cons (depth : Nat) (c : Char) (cs : List Char) :
    bracesBehind? depth (c :: cs) =
      if c = '{' then bracesBehind? (depth + 1) cs
      else if c = '}' then
        match depth with
        | 0 => none
        | outer + 1 => bracesBehind? outer cs
      else bracesBehind? depth cs := by
  rw [bracesBehind?.eq_def]

theorem bracesBehind?_add {depth depth' : Nat} {cs : List Char}
    (braces : bracesBehind? depth cs = some depth') (n : Nat) :
    bracesBehind? (depth + n) cs = some (depth' + n) := by
  induction cs generalizing depth with
  | nil =>
    cases braces
    rfl
  | cons c cs ih =>
    rw [bracesBehind?_cons] at braces ⊢
    split at braces
    case isTrue opens =>
      rw [if_pos opens, Nat.add_right_comm]
      exact ih braces
    case isFalse noOpens =>
    rw [if_neg noOpens]
    split at braces
    case isTrue closes =>
      rw [if_pos closes]
      cases depth with
      | zero => cases braces
      | succ outer =>
        rw [Nat.add_right_comm]
        exact ih braces
    case isFalse noCloses =>
      rw [if_neg noCloses]
      exact ih braces

theorem bracesBehind?_of_noBrace {cs : List Char} (plain : ∀ c ∈ cs, c ≠ '{' ∧ c ≠ '}')
    (depth : Nat) : bracesBehind? depth cs = some depth := by
  induction cs with
  | nil => rfl
  | cons c cs ih =>
    rw [List.forall_mem_cons] at plain
    rw [bracesBehind?_cons, if_neg plain.1.1, if_neg plain.1.2, ih plain.2]

/-- A run is passed by, and its braces are counted. -/
theorem substitution_run {depth depth' : Nat} {cs rest : List Char} (run : IsRun cs rest)
    (braces : bracesBehind? depth cs = some depth') (start pos : Nat) :
    substitution start pos depth (cs ++ rest) = substitution start (pos + cs.length) depth' rest := by
  induction cs generalizing pos depth with
  | nil =>
    cases braces
    rfl
  | cons c cs ih =>
    have unquoted := run.unquoted c List.mem_cons_self
    have noComment := run.noComment 0 (Nat.succ_pos _)
    have next {depth : Nat} (braces : bracesBehind? depth cs = some depth') :
        substitution start (pos + 1) depth (cs ++ rest) =
          substitution start (pos + (c :: cs).length) depth' rest := by
      rw [ih run.tail braces, List.length_cons, Nat.add_assoc, Nat.add_comm 1]
    rw [List.drop_zero, List.cons_append] at noComment
    rw [isUnquoted, Bool.and_eq_true, Bool.and_eq_true, bne_iff_ne, bne_iff_ne, bne_iff_ne] at unquoted
    obtain ⟨⟨noDouble, noSingle⟩, noMark⟩ := unquoted
    rw [bracesBehind?_cons] at braces
    rw [List.cons_append, substitution.eq_def]
    dsimp only
    split at braces
    case isTrue opens =>
      rw [if_pos opens]
      exact next braces
    case isFalse noOpens =>
    rw [if_neg noOpens]
    split at braces
    case isTrue closes =>
      rw [if_pos closes]
      cases depth with
      | zero => cases braces
      | succ outer => exact next braces
    case isFalse noCloses =>
    have noQuote : ¬ (decide (c = '"') || decide (c = '\x27')) = true := by simp [noDouble, noSingle]
    rw [if_neg noCloses, if_neg noQuote, if_neg noMark]
    have plain (d : Char) (comment : d = '/' ∨ d = '*') :
        ¬ (decide (c = '/') && (cs ++ rest).head? == some d) = true := by
      intro starts
      rw [Bool.and_eq_true, decide_eq_true_eq, beq_iff_eq] at starts
      obtain ⟨more, same⟩ := List.head?_eq_some_iff.mp starts.2
      rw [same, starts.1, startsComment] at noComment
      rcases comment with rfl | rfl <;> cases noComment
    rw [if_neg (plain '/' (.inl rfl)), if_neg (plain '*' (.inr rfl))]
    exact next braces

/-! ## What stands between tokens -/

/-- Whether so many characters at the start of a text are passed by in a substitution where another text
follows, with no comment behind them. -/
structure PassesBy (k : Nat) (cs tail : List Char) : Prop where
  /-- So many there are. -/
  within : k ≤ cs.length
  /-- No comment starts behind them. -/
  noComment : startsComment (cs.drop k) = false
  /-- They are passed by. -/
  same : ∀ start pos depth, substitution start pos depth (cs ++ tail) =
    substitution start (pos + k) depth (cs.drop k ++ tail)

theorem PassesBy.cons {k n : Nat} {c : Char} {cs tail : List Char} (le : n ≤ cs.length)
    (first : ∀ start pos depth, substitution start pos depth (c :: (cs ++ tail)) =
      substitution start (pos + 1 + n) depth (cs.drop n ++ tail))
    (rest : PassesBy k (cs.drop n) tail) : PassesBy (1 + n + k) (c :: cs) tail := by
  obtain ⟨within, noComment, same⟩ := rest
  rw [List.drop_drop] at noComment same
  have behind : (c :: cs).drop (1 + n + k) = cs.drop (n + k) := by
    rw [Nat.add_assoc, Nat.add_comm 1, List.drop_succ_cons]
  refine ⟨?_, behind ▸ noComment, fun start pos depth => ?_⟩
  · rw [List.length_drop] at within
    rw [List.length_cons]
    omega
  · rw [List.cons_append, first, same, behind]
    have place : pos + 1 + n + k = pos + (1 + n + k) := by omega
    rw [place]

/-- No blank is one of the characters that mean something in a substitution. -/
theorem ne_of_blank {c d : Char} (blank : (isBlank c || decide (c = '\ufeff')) = true)
    (plain : (isBlank d || decide (d = '\ufeff')) = false) : c ≠ d := by
  rintro rfl
  rw [plain] at blank
  cases blank

theorem substitution_blank {c : Char} (blank : (isBlank c || decide (c = '\ufeff')) = true)
    (start pos depth : Nat) (rest : List Char) :
    substitution start pos depth (c :: rest) = substitution start (pos + 1) depth rest := by
  have unquoted : ∀ d ∈ [c], isUnquoted d = true := by
    intro d mem
    rw [List.mem_singleton.mp mem, isUnquoted]
    simp [ne_of_blank blank (d := '"') (by decide), ne_of_blank blank (d := '\x27') (by decide),
      ne_of_blank blank (d := templateMark) (by decide)]
  have noSlash : '/' ∉ [c] := fun mem =>
    ne_of_blank blank (d := '/') (by decide) (List.mem_singleton.mp mem).symm
  have noBrace : ∀ d ∈ [c], d ≠ '{' ∧ d ≠ '}' := by
    intro d mem
    rw [List.mem_singleton.mp mem]
    exact ⟨ne_of_blank blank (by decide), ne_of_blank blank (by decide)⟩
  exact substitution_run (.of_noSlash unquoted noSlash rest) (bracesBehind?_of_noBrace noBrace depth) ..

theorem substitution_lineComment {cs : List Char} (slash : cs.head? = some '/') (start pos depth : Nat) :
    substitution start pos depth ('/' :: cs) =
      substitution start (pos + 1 + lineLength cs) depth (cs.drop (lineLength cs)) := by
  rw [substitution.eq_def]
  dsimp only
  rw [slash]
  rfl

theorem substitution_blockComment {n : Nat} {cs : List Char} (star : cs.head? = some '*')
    (closes : blockLength? 1 (cs.drop 1) = some n) (start pos depth : Nat) :
    substitution start pos depth ('/' :: cs) = substitution start (pos + 1 + n) depth (cs.drop n) := by
  rw [blockLength?_succ] at closes
  obtain ⟨m, inner, rfl⟩ := Option.map_eq_some_iff.mp closes
  rw [substitution.eq_def]
  dsimp only
  rw [star, inner, Nat.add_comm m]
  rfl

/-- What stands in front of a token is passed by, where a comment that reaches to the end of its line
finds one behind the text. -/
theorem gap_passesBy {tail : List Char} {p : Nat} {before after : Gap} {cs : List Char}
    (passed : gap p before cs = .ok after) (ends : '/' ∉ cs ∨ ∃ more, tail = '\n' :: more) :
    ∃ k, after.length = before.length + k ∧ PassesBy k cs tail := by
  fun_induction gap p before cs with
  | case1 =>
    cases passed
    exact ⟨0, rfl, Nat.le_refl _, rfl, fun _ _ _ => rfl⟩
  | case2 p before c cs lineEnd ih =>
    obtain ⟨k, length, rest⟩ := ih passed (ends.imp_left fun no mem => no (List.mem_cons_of_mem _ mem))
    have blank : (isBlank c || decide (c = '\ufeff')) = true := by rw [isBlank_of_isLineEnd lineEnd]; rfl
    refine ⟨1 + 0 + k, by rw [length]; dsimp only; omega,
      .cons (Nat.zero_le _) (fun start pos depth => ?_) rest⟩
    exact substitution_blank blank start pos depth (cs ++ tail)
  | case3 p before c cs noEnd blank ih =>
    obtain ⟨k, length, rest⟩ := ih passed (ends.imp_left fun no mem => no (List.mem_cons_of_mem _ mem))
    refine ⟨1 + 0 + k, by rw [length]; dsimp only; omega,
      .cons (Nat.zero_le _) (fun start pos depth => ?_) rest⟩
    exact substitution_blank blank start pos depth (cs ++ tail)
  | case4 p before c cs noEnd noBlank slashes n ih =>
    rw [Bool.and_eq_true, decide_eq_true_eq, beq_iff_eq] at slashes
    obtain ⟨rfl, second⟩ := slashes
    have line : ∃ more, tail = '\n' :: more := ends.resolve_left fun no => no List.mem_cons_self
    obtain ⟨k, length, rest⟩ := ih passed (.inr line)
    obtain ⟨more, rfl⟩ := line
    have le : n ≤ cs.length := lineLength_le cs
    refine ⟨1 + n + k, by rw [length]; dsimp only; omega, .cons le (fun start pos depth => ?_) rest⟩
    have whole : (cs ++ '\n' :: more).head? = some '/' := by rw [List.head?_append, second]; rfl
    rw [substitution_lineComment whole, lineLength_append_lineFeed, List.drop_append_of_le_length le]
  | case5 => cases passed
  | case6 p before c cs noEnd noBlank noLine opens n closes newline ih =>
    rw [Bool.and_eq_true, decide_eq_true_eq, beq_iff_eq] at opens
    obtain ⟨rfl, second⟩ := opens
    have line : ∃ more, tail = '\n' :: more := ends.resolve_left fun no => no List.mem_cons_self
    obtain ⟨k, length, rest⟩ := ih passed (.inr line)
    obtain ⟨body, rfl⟩ := List.head?_eq_some_iff.mp second
    have le : n ≤ body.length + 1 := by
      obtain ⟨_, _, same, size, -⟩ := blockLength?_spec closes
      have := congrArg List.length same
      simp at this
      omega
    refine ⟨1 + n + k, by rw [length]; dsimp only; omega, .cons le (fun start pos depth => ?_) rest⟩
    have closes : blockLength? 1 (('*' :: body ++ tail).drop 1) = some n := blockLength?_of_closed closes tail
    rw [substitution_blockComment rfl closes, List.drop_append_of_le_length le]
  | case7 p before c cs noEnd noBlank noLine noBlock =>
    cases passed
    refine ⟨0, rfl, Nat.zero_le _, ?_, fun _ _ _ => rfl⟩
    rw [List.drop_zero]
    unfold startsComment
    split
    case h_1 d more same =>
      obtain ⟨rfl, rfl⟩ := List.cons.inj same
      simp only [decide_true, Bool.true_and, List.head?_cons, beq_iff_eq, Option.some.injEq] at noLine noBlock
      simp [noLine, noBlock]
    case h_2 => rfl

/-! ## Tokens -/

/-- Whether a character may stand in a name or in a number, sign included. -/
def isWordPart (c : Char) : Bool :=
  isNamePart c || c.isAlphanum || c == '\\' || c == '.' || c == '+' || c == '-' || c == '#'

theorem ne_of_isWordPart {c d : Char} (part : isWordPart c = true)
    (plain : isWordPart d = false) : c ≠ d := by
  rintro rfl
  rw [plain] at part
  cases part

theorem isWordPart_of_isNamePart {c : Char} (part : (isNamePart c || c == '\\') = true) :
    isWordPart c = true := by
  rcases Bool.or_eq_true _ _ |>.mp part with part | part <;> simp [isWordPart, part]

theorem isWordPart_take_nameLength (cs : List Char) :
    ∀ c ∈ cs.take (nameLength cs), isWordPart c = true := by
  intro d mem
  rw [nameLength, ← List.prefix_iff_eq_take.mp (List.takeWhile_prefix _)] at mem
  have part : (isNamePart d || d == '\\') = true :=
    List.mem_takeWhile_imp (p := fun c => isNamePart c || c == '\\') mem
  exact isWordPart_of_isNamePart part

theorem isWordPart_take_numberLength (hex : Bool) (last : Char) (n : Nat) (cs : List Char) :
    ∃ k, numberLength hex last n cs = n + k ∧ ∀ c ∈ cs.take k, isWordPart c = true := by
  fun_induction numberLength hex last n cs with
  | case1 => exact ⟨0, rfl, fun _ mem => by cases mem⟩
  | case2 last n c cs goesOn ih =>
    obtain ⟨k, length, parts⟩ := ih
    refine ⟨k + 1, by rw [length]; omega, ?_⟩
    rw [List.take_succ_cons, List.forall_mem_cons]
    refine ⟨?_, parts⟩
    simp only [Bool.or_eq_true, Bool.and_eq_true] at goesOn
    rcases goesOn with ((part | part) | part) | ⟨⟨part | part, -⟩, -⟩
    · simp [isWordPart, part]
    · simp [isWordPart, isNamePart, part]
    · simp [isWordPart, part]
    · simp [isWordPart, part]
    · simp [isWordPart, part]
  | case3 => exact ⟨0, rfl, fun _ mem => by cases mem⟩

/-- What a token can be: a string, a template literal, a regular expression, a punctuator, or else a run
of characters of names and numbers. -/
theorem extent_cases {allowed : Bool} {pos : Nat} {c : Char} {cs : List Char} {found : Extent}
    (cut : extent allowed pos c cs = .ok found) :
    (found.kind = .string ∧ (c = '"' ∨ c = '\x27') ∧ quotedLength? c 0 cs = some found.more) ∨
      (found.kind = .template ∧ c = templateMark ∧
        ∃ stop, template pos (pos + 1) [] cs = .ok (stop, found.holes) ∧
          found.more = stop - (pos + 1)) ∨
      (found.kind = .regex ∧ c = '/') ∨ found.kind = .punct ∨
      ((found.kind = .number ∨ found.kind = .privateName ∨ found.kind = .ident) ∧
        ∀ d ∈ c :: cs.take found.more, isWordPart d = true) := by
  unfold extent at cut
  dsimp only at cut
  split at cut
  case isTrue quote =>
    split at cut
    case h_1 => cases cut
    case h_2 n closes =>
      cases cut
      rw [Bool.or_eq_true, decide_eq_true_eq, decide_eq_true_eq] at quote
      exact .inl ⟨rfl, quote, closes⟩
  case isFalse =>
  split at cut
  case isTrue mark =>
    obtain ⟨⟨stop, holes⟩, ends, cut⟩ := bind_eq_ok.mp cut
    cases cut
    exact .inr (.inl ⟨rfl, mark, stop, ends, rfl⟩)
  case isFalse =>
  split at cut
  case isTrue digit =>
    cases cut
    obtain ⟨k, length, parts⟩ := isWordPart_take_numberLength
      (decide (c = '0') && (cs.head? == some 'x' || cs.head? == some 'X')) c 0 cs
    rw [Nat.zero_add] at length
    refine .inr (.inr (.inr (.inr ⟨.inl rfl, ?_⟩)))
    rw [List.forall_mem_cons]
    refine ⟨?_, fun d mem => parts d (length ▸ mem)⟩
    rw [Bool.or_eq_true, Bool.and_eq_true, decide_eq_true_eq] at digit
    rcases digit with digit | ⟨rfl, -⟩
    · simp [isWordPart, Char.isAlphanum, digit]
    · rfl
  case isFalse =>
  split at cut
  case isTrue hash =>
    split at cut
    case isFalse => cases cut
    case isTrue =>
      cases cut
      refine .inr (.inr (.inr (.inr ⟨.inr (.inl rfl), ?_⟩)))
      rw [List.forall_mem_cons]
      exact ⟨by rw [hash]; rfl, isWordPart_take_nameLength cs⟩
  case isFalse =>
  split at cut
  case isTrue slash =>
    split at cut
    case h_1 => cases cut
    case h_2 =>
      cases cut
      rw [Bool.and_eq_true, decide_eq_true_eq] at slash
      exact .inr (.inr (.inl ⟨rfl, slash.1⟩))
  case isFalse =>
  split at cut
  case isTrue starts =>
    cases cut
    refine .inr (.inr (.inr (.inr ⟨.inr (.inr rfl), ?_⟩)))
    rw [List.forall_mem_cons]
    refine ⟨?_, isWordPart_take_nameLength cs⟩
    rw [Bool.or_eq_true, decide_eq_true_eq] at starts
    rcases starts with starts | rfl
    · simp [isWordPart, isNamePart_of_isNameStart starts]
    · rfl
  case isFalse =>
  split at cut
  case h_1 => cases cut
  case h_2 =>
    cases cut
    exact .inr (.inr (.inr (.inl rfl)))

/-- No punctuator looks like a string. -/
theorem unquoted_of_mem_operators : ∀ op ∈ operators, op.toList.all isUnquoted = true := by
  decide +kernel

/-- A slash in a punctuator is its first character. -/
theorem noSlash_of_mem_operators : ∀ op ∈ operators, op.toList.tail.contains '/' = false := by
  decide +kernel

/-- A brace stands alone. -/
theorem noBrace_of_mem_operators : ∀ op ∈ operators, op = openBrace ∨ op = closeBrace ∨
    op.toList.all (fun c => c != '{' && c != '}') = true := by
  decide +kernel

theorem startsComment_cons_of_ne {c : Char} (other : c ≠ '/') (cs : List Char) :
    startsComment (c :: cs) = false := by
  unfold startsComment
  split
  case h_1 _ _ same => exact absurd (List.cons.inj same).1 other
  case h_2 => rfl

/-- Where no comment starts, none starts in the text that goes on. -/
theorem startsComment_append {cs tail : List Char} (noComment : startsComment cs = false) (some : cs ≠ [])
    (head : ∀ d ∈ tail.head?, d ≠ '/' ∧ d ≠ '*') : startsComment (cs ++ tail) = false := by
  match cs, some with
  | [c], _ =>
    cases tail with
    | nil => exact noComment
    | cons d tail =>
      obtain ⟨noSlash, noStar⟩ := head d rfl
      rw [List.singleton_append]
      unfold startsComment
      split
      case h_1 _ _ same =>
        obtain ⟨-, same⟩ := List.cons.inj same
        obtain ⟨rfl, -⟩ := List.cons.inj same
        simp [noSlash, noStar]
      case h_2 => rfl
  | c :: d :: cs, _ =>
    by_cases slash : c = '/'
    · subst slash
      exact noComment
    · exact startsComment_cons_of_ne slash _

/-- A run stays one where the text goes on. -/
theorem IsRun.append {cs rest tail : List Char} (run : IsRun cs rest)
    (head : ∀ d ∈ tail.head?, d ≠ '/' ∧ d ≠ '*') : IsRun cs (rest ++ tail) := by
  refine ⟨run.unquoted, fun n less => ?_⟩
  rw [← List.append_assoc, List.drop_append_of_le_length (by rw [List.length_append]; omega)]
  refine startsComment_append (run.noComment n less) ?_ head
  rw [ne_eq, List.drop_eq_nil_iff, List.length_append]
  omega

/-- A punctuator where no comment starts is a run. -/
theorem isRun_punct {c : Char} {cs : List Char} {n : Nat}
    (known : String.ofList (c :: cs.take n) ∈ operators) (noComment : startsComment (c :: cs) = false) :
    IsRun (c :: cs.take n) (cs.drop n) := by
  have unquoted := unquoted_of_mem_operators _ known
  have noSlash := noSlash_of_mem_operators _ known
  rw [String.toList_ofList] at unquoted noSlash
  rw [List.all_eq_true] at unquoted
  rw [List.tail_cons, List.contains_eq_mem, decide_eq_false_iff_not] at noSlash
  have rest := IsRun.of_noSlash (fun d mem => unquoted d (List.mem_cons_of_mem _ mem)) noSlash (cs.drop n)
  refine ⟨unquoted, fun k less => ?_⟩
  cases k with
  | zero => rwa [List.drop_zero, List.cons_append, List.take_append_drop]
  | succ k => exact rest.noComment k (Nat.lt_of_succ_lt_succ less)

theorem isRun_word {cs : List Char} (parts : ∀ c ∈ cs, isWordPart c = true) (rest : List Char) :
    IsRun cs rest := by
  refine .of_noSlash (fun c mem => ?_) (fun mem => ?_) rest
  · have part := parts c mem
    simp [isUnquoted, ne_of_isWordPart part (d := '"') (by decide +kernel),
      ne_of_isWordPart part (d := '\x27') (by decide +kernel),
      ne_of_isWordPart part (d := templateMark) (by decide +kernel)]
  · exact ne_of_isWordPart (parts '/' mem) (d := '/') (by decide +kernel) rfl

/-- A regular expression starts with a slash. -/
theorem slash_of_extent {allowed : Bool} {pos : Nat} {c : Char} {cs : List Char} {found : Extent}
    (cut : extent allowed pos c cs = .ok found) (regex : found.kind = .regex) : c = '/' := by
  rcases extent_cases cut with ⟨kind, -⟩ | ⟨kind, -⟩ | ⟨-, slash⟩ | kind | ⟨kind | kind | kind, -⟩
  case inr.inr.inl => exact slash
  all_goals
    rw [regex] at kind
    cases kind

theorem mem_operators_of_extent {allowed : Bool} {pos : Nat} {c : Char} {cs : List Char} {found : Extent}
    (cut : extent allowed pos c cs = .ok found) (punct : found.kind = .punct) :
    String.ofList (c :: cs.take found.more) ∈ operators := by
  have isOperator := isOperatorAt_of_extent cut punct
  unfold IsOperatorAt at isOperator
  split at isOperator
  case isTrue =>
    rw [isOperator]
    decide +kernel
  case isFalse => exact isOperator.1

/-- How many braces are open behind a token, where `depth` are open in front of it. Those in a string or
a template literal do not count. -/
def bracesBehindToken? (kind : TokenKind) (depth : Nat) (cs : List Char) : Option Nat :=
  if kind = .string ∨ kind = .template then some depth else bracesBehind? depth cs

/-- A token is passed by, where a regular expression is a run. -/
theorem substitution_extent {allowed : Bool} {p : Nat} {c : Char} {cs tail : List Char} {found : Extent}
    (cut : extent allowed p c cs = .ok found) (noComment : startsComment (c :: cs) = false)
    (head : ∀ d ∈ tail.head?, d ≠ '/' ∧ d ≠ '*')
    (regex : found.kind = .regex → IsRun (c :: cs.take found.more) (cs.drop found.more))
    {depth depth' : Nat}
    (braces : bracesBehindToken? found.kind depth (c :: cs.take found.more) = some depth')
    (start : Nat) {pos : Nat} (behind : p ≤ pos) :
    substitution start pos depth (c :: (cs ++ tail)) =
      substitution start (pos + 1 + found.more) depth' (cs.drop found.more ++ tail) := by
  have le := extent_more_le cut
  have drop : (cs ++ tail).drop found.more = cs.drop found.more ++ tail :=
    List.drop_append_of_le_length le
  have passed (run : IsRun (c :: cs.take found.more) (cs.drop found.more))
      (other : ¬ (found.kind = .string ∨ found.kind = .template)) :
      substitution start pos depth (c :: (cs ++ tail)) =
        substitution start (pos + 1 + found.more) depth' (cs.drop found.more ++ tail) := by
    rw [bracesBehindToken?, if_neg other] at braces
    have whole : c :: (cs ++ tail) = (c :: cs.take found.more) ++ (cs.drop found.more ++ tail) := by
      rw [List.cons_append, ← List.append_assoc, List.take_append_drop]
    rw [whole, substitution_run (run.append head) braces, List.length_cons, List.length_take,
      Nat.min_eq_left le, Nat.add_assoc pos 1, Nat.add_comm 1]
  rcases extent_cases cut with ⟨kind, quote, closes⟩ | ⟨kind, rfl, stop, ends, more⟩ | ⟨kind, -⟩ |
    kind | ⟨kind, parts⟩
  case inl =>
    rw [bracesBehindToken?, if_pos (.inl kind)] at braces
    cases braces
    have isQuote : (decide (c = '"') || decide (c = '\x27')) = true := by simpa using quote
    have noBrace : c ≠ '{' ∧ c ≠ '}' := by rcases quote with rfl | rfl <;> decide
    rw [substitution.eq_def]
    dsimp only
    rw [if_neg noBrace.1, if_neg noBrace.2, if_pos isQuote, quotedLength?_of_closed closes tail]
    dsimp only
    rw [drop]
  case inr.inl =>
    rw [bracesBehindToken?, if_pos (.inr kind)] at braces
    cases braces
    -- The literal ends in the same way at the place where it stands in the substitution.
    obtain ⟨n, rfl⟩ := Nat.exists_eq_add_of_le behind
    have after := (template_spec ends).1
    have moved := template_shifted n ends
    have first : p + 1 + n = p + n + 1 := Nat.add_right_comm ..
    have last : stop + n = p + n + 1 + found.more := by omega
    rw [first, last, List.map_nil] at moved
    rw [substitution.eq_def]
    dsimp only
    rw [if_neg (by decide), if_neg (by decide), if_neg (by decide), if_pos rfl,
      template_append moved tail]
    change substitution start (p + n + 1 + found.more) depth
        ((cs ++ tail).drop (p + n + 1 + found.more - (p + n + 1))) = _
    rw [Nat.add_sub_cancel_left, drop]
  case inr.inr.inl => exact passed (regex kind) (by rw [kind]; decide)
  case inr.inr.inr.inl =>
    exact passed (isRun_punct (mem_operators_of_extent cut kind) noComment) (by rw [kind]; decide)
  case inr.inr.inr.inr =>
    refine passed (isRun_word parts _) ?_
    rcases kind with kind | kind | kind <;> rw [kind] <;> decide

end Lexeme

open Lexeme

/-! ## Texts that can be scanned -/

/-- How many of the open brackets are braces. -/
def BracketState.braces (s : BracketState) : Nat := s.opened.countP fun o => closerOf o.2.text == closeBrace

/-- What reads as a bracket is a brace where a brace is passed by. -/
theorem BracketState.braces_read {s s' : BracketState} {i : Nat} {t : Token} (done : s.read i t = .ok s') :
    (t.kind ≠ .punct → s'.braces = s.braces) ∧
      (t.kind = .punct → t.text ∈ operators → bracesBehind? s.braces t.text.toList = some s'.braces) := by
  unfold read at done
  split at done
  case isTrue opens =>
    cases done
    rw [Token.isOpener, Bool.and_eq_true, beq_iff_eq, Bool.or_eq_true, Bool.or_eq_true, beq_iff_eq,
      beq_iff_eq, beq_iff_eq] at opens
    refine ⟨fun other => absurd opens.1 other, fun _ _ => ?_⟩
    rw [braces, braces, List.countP_cons]
    rcases opens.2 with (text | text) | text <;> rw [text] <;> rfl
  case isFalse noOpener =>
  split at done
  case isTrue closes =>
    rw [Token.isCloser, Bool.and_eq_true, beq_iff_eq, Bool.or_eq_true, Bool.or_eq_true, beq_iff_eq,
      beq_iff_eq, beq_iff_eq] at closes
    refine ⟨fun other => absurd closes.1 other, fun _ _ => ?_⟩
    split at done
    case h_2 => cases done
    case h_1 j o outer opened =>
    split at done
    case isFalse => cases done
    case isTrue same =>
      cases done
      rw [braces, braces, opened, List.countP_cons, same]
      rcases closes.2 with (text | text) | text <;> rw [text] <;> rfl
  case isFalse noCloser =>
    cases done
    refine ⟨fun _ => rfl, fun punct known => ?_⟩
    rw [Token.isOpener, punct] at noOpener
    rw [Token.isCloser, punct] at noCloser
    rcases noBrace_of_mem_operators _ known with text | text | plain
    · rw [text] at noOpener
      exact absurd rfl noOpener
    · rw [text] at noCloser
      exact absurd rfl noCloser
    · refine bracesBehind?_of_noBrace (fun c mem => ?_) _
      simpa using List.all_eq_true.mp plain c mem

/-- Whether a regular expression in a text is passed by in a substitution as if it were none. -/
structure Token.IsQuiet (t : Token) (source : List Char) : Prop where
  /-- No character of it opens a string or a template literal. -/
  unquoted : ∀ c ∈ t.text.toList, isUnquoted c = true
  /-- No slash in it starts a comment. -/
  noComment : ∀ n, t.start ≤ n → n < t.stop → startsComment (source.drop n) = false
  /-- Its braces go together. -/
  braces : bracesBehind? 0 t.text.toList = some 0

/-- A text that is scanned is passed by in a substitution, and what counts as open there are the braces
that are open. -/
theorem substitution_scanFrom {source tail cs : List Char} {pos : Nat} {done tokens : Array Token}
    (scanned : scanFrom done pos cs = .ok tokens) (here : source.drop pos = cs)
    (ends : '/' ∉ cs ∨ ∃ more, tail = '\n' :: more)
    (head : ∀ d ∈ tail.head?, d ≠ '/' ∧ d ≠ '*') :
    ∃ new, tokens.toList = done.toList ++ new ∧
      ((∀ t ∈ new, t.kind = .regex → t.IsQuiet source) →
        ∀ (s s' : BracketState) (i : Nat), s.readAll i new = .ok s' →
          ∀ (start : Nat) {place : Nat}, pos ≤ place →
            substitution start place s.braces (cs ++ tail) =
              substitution start (place + cs.length) s'.braces tail) := by
  rw [scanFrom] at scanned
  obtain ⟨space, passed, scanned⟩ := bind_eq_ok.mp scanned
  obtain ⟨k, length, passes⟩ := gap_passesBy passed ends
  obtain rfl : space.length = k := by rw [length]; exact Nat.zero_add k
  have within := passes.within
  split at scanned
  case h_1 none =>
    cases scanned
    refine ⟨[], (List.append_nil _).symm, fun _ s s' i read start place _ => ?_⟩
    cases read
    have size : space.length = cs.length := by
      have := List.drop_eq_nil_iff.mp none
      omega
    rw [passes.same, none, List.nil_append, size]
  case h_2 c more rest =>
  obtain ⟨found, cut, scanned⟩ := bind_eq_ok.mp scanned
  have le := extent_more_le cut
  have there : source.drop (pos + space.length) = c :: more := by rw [← List.drop_drop, here, rest]
  have size : cs.length = space.length + 1 + more.length := by
    have := congrArg List.length rest
    rw [List.length_drop, List.length_cons] at this
    omega
  have fewer : '/' ∉ more.drop found.more ∨ ∃ more, tail = '\n' :: more := by
    refine ends.imp_left fun no mem => no (List.mem_of_mem_drop (i := space.length) ?_)
    rw [rest]
    exact List.mem_cons_of_mem _ (List.mem_of_mem_drop mem)
  have shorter : (more.drop found.more).length < cs.length := by
    rw [List.length_drop]
    omega
  obtain ⟨new, same, skipped⟩ :=
    substitution_scanFrom scanned (drop_of_drop_eq_cons there found.more) fewer head
  generalize token : Token.mk found.kind (pos + space.length) (String.ofList (c :: more.take found.more))
    space.newline found.holes = t at same
  have text : t.text.toList = c :: more.take found.more := by rw [← token, String.toList_ofList]
  have stop : t.stop = pos + space.length + 1 + found.more := by
    rw [Token.stop, ← String.length_toList, text, ← token, List.length_cons, List.length_take,
      Nat.min_eq_left le]
    dsimp only
    omega
  refine ⟨t :: new, ?_, fun quiet s s'' i read start place behind => ?_⟩
  · rw [same, Array.toList_push, List.append_assoc, List.singleton_append]
  obtain ⟨s', first, read⟩ := bind_eq_ok.mp read
  obtain ⟨regex, quiet⟩ := List.forall_mem_cons.mp quiet
  have kind : t.kind = found.kind := by rw [← token]
  have run (isRegex : found.kind = .regex) :
      IsRun (c :: more.take found.more) (more.drop found.more) := by
    obtain ⟨unquoted, noComment, -⟩ := regex (kind.trans isRegex)
    refine ⟨text ▸ unquoted, fun n less => ?_⟩
    have start : t.start = pos + space.length := by rw [← token]
    have size : (c :: more.take found.more).length = 1 + found.more := by
      rw [List.length_cons, List.length_take, Nat.min_eq_left le, Nat.add_comm]
    have inside := noComment (pos + space.length + n) (by omega) (by omega)
    rwa [← List.drop_drop, there, ← List.take_append_drop (found.more + 1) (c :: more),
      List.take_succ_cons, List.drop_succ_cons] at inside
  have braces : bracesBehindToken? found.kind s.braces (c :: more.take found.more) = some s'.braces := by
    obtain ⟨plain, punct⟩ := BracketState.braces_read first
    rw [kind] at plain regex punct
    rw [text] at punct
    have stays (other : found.kind ≠ .punct) : bracesBehind? 0 (c :: more.take found.more) = some 0 →
        bracesBehind? s.braces (c :: more.take found.more) = some s'.braces := by
      intro none
      have := bracesBehind?_add none s.braces
      rwa [plain other, ← Nat.zero_add s.braces]
    rcases extent_cases cut with ⟨is, -⟩ | ⟨is, -⟩ | ⟨is, -⟩ | is | ⟨is, parts⟩
    · rw [bracesBehindToken?, if_pos (.inl is), plain (by rw [is]; decide)]
    · rw [bracesBehindToken?, if_pos (.inr is), plain (by rw [is]; decide)]
    · rw [bracesBehindToken?, if_neg (by rw [is]; decide)]
      have none := (regex is).braces
      rw [text] at none
      exact stays (by rw [is]; decide) none
    · rw [bracesBehindToken?, if_neg (by rw [is]; decide)]
      refine punct is ?_
      rw [← token]
      exact mem_operators_of_extent cut is
    · rw [bracesBehindToken?, if_neg (by rcases is with is | is | is <;> rw [is] <;> decide)]
      refine stays (by rcases is with is | is | is <;> rw [is] <;> decide) (bracesBehind?_of_noBrace ?_ 0)
      exact fun d mem => ⟨ne_of_isWordPart (parts d mem) (by decide +kernel),
        ne_of_isWordPart (parts d mem) (by decide +kernel)⟩
  rw [passes.same, rest, List.cons_append, substitution_extent cut ?_ head run braces start (by omega),
    skipped quiet s' s'' (i + 1) read start (by omega), List.length_drop]
  · congr 1
    omega
  · have noComment := passes.noComment
    rwa [rest] at noComment
termination_by cs.length
decreasing_by exact shorter

/-- A text with matched brackets is passed by as a whole, and leaves no brace open. -/
theorem substitution_scan {text tail : List Char} {tokens : Array Token} {partners : Partners}
    (plain : interpreterLineLength text = 0) (scanned : scan text = .ok tokens)
    (matched : matchBrackets tokens = .ok partners)
    (quiet : ∀ t ∈ tokens, t.kind = .regex → t.IsQuiet text)
    (ends : '/' ∉ text ∨ ∃ more, tail = '\n' :: more)
    (head : ∀ d ∈ tail.head?, d ≠ '/' ∧ d ≠ '*')
    (start pos : Nat) :
    substitution start pos 0 (text ++ tail) = substitution start (pos + text.length) 0 tail := by
  rw [scan, plain, List.drop_zero] at scanned
  obtain ⟨new, same, passed⟩ := substitution_scanFrom scanned rfl ends head
  rw [List.nil_append] at same
  obtain ⟨s, read, matched⟩ := bind_eq_ok.mp matched
  split at matched
  case h_1 => cases matched
  case h_2 none =>
  have braces : s.braces = 0 := by rw [BracketState.braces, none]; rfl
  rw [same] at read
  have quiet : ∀ t ∈ new, t.kind = .regex → t.IsQuiet text := fun t mem =>
    quiet t (Array.mem_toList_iff.mp (same ▸ mem))
  have whole := passed quiet _ s 0 read start (Nat.zero_le pos)
  rwa [braces] at whole

/-- Whether a text fills a substitution: where it stands in one, the brace behind it closes the
substitution. -/
def FillsHole (text : List Char) : Prop :=
  ∀ (start pos : Nat) (rest : List Char),
    substitution start pos 0 (text ++ '}' :: rest) = .ok (pos + text.length)

theorem substitution_brace (start pos : Nat) (rest : List Char) :
    substitution start pos 0 ('}' :: rest) = .ok pos := by
  rw [substitution.eq_def]
  rfl

/-- A text with matched brackets and quiet regular expressions fills a substitution, where a line feed
follows it. -/
theorem fillsHole_lineFeed {text : List Char} {tokens : Array Token} {partners : Partners}
    (plain : interpreterLineLength text = 0) (scanned : scan text = .ok tokens)
    (matched : matchBrackets tokens = .ok partners)
    (quiet : ∀ t ∈ tokens, t.kind = .regex → t.IsQuiet text) : FillsHole (text ++ ['\n']) := by
  intro start pos rest
  rw [List.append_assoc, List.singleton_append,
    substitution_scan plain scanned matched quiet (.inr ⟨_, rfl⟩) (by simp),
    substitution_blank (by decide), substitution_brace, List.length_append, List.length_singleton,
    Nat.add_assoc]

/-- A regular expression has a slash. -/
theorem slash_mem_of_regex {text : List Char} {tokens : Array Token} (scanned : scan text = .ok tokens)
    {t : Token} (mem : t ∈ tokens) (regex : t.kind = .regex) : '/' ∈ text := by
  obtain ⟨allowed, c, more, found, place, cut, kind, -⟩ := ((scan_pieces scanned).pieces t mem.val).cut
  have slash : c = '/' := slash_of_extent cut (kind.symm.trans regex)
  have here : c ∈ text.drop t.start := by
    rw [place]
    exact List.mem_cons_self
  exact slash ▸ List.mem_of_mem_drop here

/-- A text without slashes and with matched brackets fills a substitution. -/
theorem fillsHole_of_noSlash {text : List Char} {tokens : Array Token} {partners : Partners}
    (plain : interpreterLineLength text = 0) (scanned : scan text = .ok tokens)
    (matched : matchBrackets tokens = .ok partners) (noSlash : '/' ∉ text) : FillsHole text := by
  intro start pos rest
  have quiet : ∀ t ∈ tokens, t.kind = .regex → t.IsQuiet text := fun t mem regex =>
    absurd (slash_mem_of_regex scanned mem regex) noSlash
  rw [substitution_scan plain scanned matched quiet (.inl noSlash) (by simp), substitution_brace]

end ModuleLinker
