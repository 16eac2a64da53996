import Mathlib
import ModuleLinker.Source.Scan
import ModuleLinker.Proofs.Source.Lexeme

/-!
# Reading what has been spelled

A text can be put together from names, strings, numbers and punctuators with blanks in front of them.
Where no symbol runs into what follows it (`Symbol.standsBefore`), scanning the text gives these
symbols back, each at its place (`scanFrom_spell`).
-/

set_option autoImplicit false

namespace ModuleLinker

open Lexeme Text

/-- A token apart from its place: its class and its text. -/
structure Symbol where
  /-- The class of the token. -/
  kind : TokenKind
  /-- The characters of the token. -/
  text : String
  deriving DecidableEq, Repr

/-- The class and the text of a token. -/
def Token.symbol (t : Token) : Symbol := ⟨t.kind, t.text⟩

namespace Symbol

/-- A name or a keyword. -/
def word (text : String) : Symbol := ⟨.ident, text⟩

/-- A punctuator. -/
def mark (text : String) : Symbol := ⟨.punct, text⟩

/-- A string in double quotes. -/
def quoted (text : String) : Symbol := ⟨.string, String.ofList ('"' :: (text.toList ++ ['"']))⟩

/-- The token of a symbol at no place in particular. -/
def token (s : Symbol) : Token := ⟨s.kind, 0, s.text, false, []⟩

/-- Whether characters make up a name; a backslash starts an escape. -/
def isName : List Char → Bool
  | [] => false
  | c :: cs => (isNameStart c || c == '\\') && cs.all fun c => isNamePart c || c == '\\'

/-- Whether characters make up a string on one line without escapes. -/
def isQuoted : List Char → Bool
  | [] => false
  | quote :: cs =>
    (quote == '"' || quote == '\x27') && cs.getLast? == some quote &&
      cs.dropLast.all fun c => c != quote && c != '\\' && c != '\n'

/-- Whether characters are the digits of a number. -/
def isDecimal (cs : List Char) : Bool := !cs.isEmpty && cs.all Char.isDigit

/-- Whether a punctuator that is followed by a character could be read as another one. -/
def runsInto (op : String) (c : Char) : Bool :=
  (op == "." && c.isDigit) || operators.any fun longer => (op.toList ++ [c]).isPrefixOf longer.toList

/-- Whether a symbol that is followed directly by a text is read back as it is. -/
def standsBefore (s : Symbol) (rest : List Char) : Bool :=
  match s.kind with
  | .ident => isName s.text.toList && !rest.head?.any fun c => isNamePart c || c == '\\'
  | .string => isQuoted s.text.toList
  | .number =>
    isDecimal s.text.toList && !rest.head?.any fun c => c.isAlphanum || c == '_' || c == '.'
  | .punct =>
    operators.contains s.text && s.text != "?." && s.text.toList.head? != some '/' &&
      !rest.head?.any (runsInto s.text)
  | _ => false

end Symbol

/-- Whether a text consists of blanks. -/
def isGap (cs : List Char) : Bool := cs.all fun c => isBlank c || c == '\ufeff'

/-! ## Classes of characters -/

namespace Text

/-- The codes of the blanks, of the digits and of some marks that start tokens. -/
def strangeCodes : List Nat :=
  List.range' 9 5 ++ [32, 34, 35, 39, 46, 47, 96, 133, 160, 5760] ++ List.range' 8192 11 ++
    [8232, 8233, 8239, 8287, 12288, 65279] ++ List.range' 48 10

/-- No name starts with one of these. -/
theorem isNameStart_of_mem_strangeCodes :
    ∀ n ∈ strangeCodes, isNameStart (Char.ofNat n) = false := by
  decide +kernel

/-- No name starts with a blank. -/
theorem isNameStart_of_isBlank {c : Char} (blank : isBlank c = true) : isNameStart c = false := by
  simp only [isBlank, Bool.or_eq_true, Bool.and_eq_true, decide_eq_true_eq, beq_iff_eq] at blank
  rw [← Char.ofNat_toNat c]
  refine isNameStart_of_mem_strangeCodes _ ?_
  simp only [strangeCodes, List.mem_append, List.mem_range'_1, List.mem_cons, List.not_mem_nil]
  omega

theorem toNat_of_isDigit {c : Char} (digit : c.isDigit = true) : 48 ≤ c.toNat ∧ c.toNat ≤ 57 := by
  simpa [Char.isDigit, UInt32.le_iff_toNat_le] using digit

/-- No name starts with a digit. -/
theorem isNameStart_of_isDigit {c : Char} (digit : c.isDigit = true) : isNameStart c = false := by
  obtain ⟨ge, le⟩ := toNat_of_isDigit digit
  rw [← Char.ofNat_toNat c]
  refine isNameStart_of_mem_strangeCodes _ ?_
  simp only [strangeCodes, List.mem_append, List.mem_range'_1, List.mem_cons, List.not_mem_nil]
  omega

end Text

/-- Whether a character starts a token wherever it stands, at the start of a text too. -/
def isSolid (c : Char) : Bool := !isBlank c && c != '\ufeff' && c != '/' && c != '#'

/-- Whether a character starts a token behind another one. -/
def endsGap (c : Char) : Bool := !isBlank c && c != '\ufeff' && c != '/'

theorem endsGap_of_isSolid {c : Char} (solid : isSolid c = true) : endsGap c = true :=
  (Bool.and_eq_true_iff.mp solid).1

theorem isSolid_of_isNameStart {c : Char} (starts : isNameStart c = true) : isSolid c = true := by
  have other {d : Char} (plain : isNameStart d = false) : c ≠ d := by
    rintro rfl
    rw [plain] at starts
    cases starts
  have solid : isBlank c = false := by
    rw [Bool.eq_false_iff]
    intro blank
    rw [isNameStart_of_isBlank blank] at starts
    cases starts
  simp only [isSolid, Bool.and_eq_true, Bool.not_eq_true', bne_iff_ne]
  exact ⟨⟨⟨solid, other (isNameStart_of_mem_strangeCodes 65279 (by decide))⟩,
    other (isNameStart_of_mem_strangeCodes 47 (by decide))⟩, other (isNameStart_of_mem_strangeCodes 35 (by decide))⟩

theorem isSolid_of_isDigit {c : Char} (digit : c.isDigit = true) : isSolid c = true := by
  obtain ⟨ge, le⟩ := toNat_of_isDigit digit
  rw [← Char.ofNat_toNat c]
  generalize c.toNat = n at ge le ⊢
  interval_cases n <;> decide

/-! ## What stands between tokens -/

namespace Lexeme

/-- Blanks are passed by. -/
theorem gap_append {blanks : List Char} (blank : isGap blanks = true) (pos : Nat) (before : Gap)
    (cs : List Char) : gap pos before (blanks ++ cs) =
      gap (pos + blanks.length)
        ⟨before.length + blanks.length, before.newline || blanks.any isLineEnd⟩ cs := by
  induction blanks generalizing pos before with
  | nil => simp
  | cons b blanks ih =>
    rw [isGap, List.all_cons, Bool.and_eq_true] at blank
    rw [List.cons_append, gap, List.any_cons, List.length_cons]
    have place (n : Nat) : n + 1 + blanks.length = n + (blanks.length + 1) := by omega
    cases ends : isLineEnd b with
    | true =>
      rw [if_pos rfl, ih blank.2, place, place, Bool.true_or, Bool.or_true]
    | false =>
      have isBlank : (isBlank b || decide (b = '\ufeff')) = true := blank.1
      rw [if_neg Bool.false_ne_true, if_pos isBlank, ih blank.2, place, place, Bool.false_or]

theorem gap_nil (pos : Nat) (before : Gap) : gap pos before [] = .ok before := by
  rw [gap]

/-- A gap ends where a token starts. -/
theorem gap_of_endsGap {c : Char} (ends : endsGap c = true) (pos : Nat) (before : Gap)
    (cs : List Char) : gap pos before (c :: cs) = .ok before := by
  simp only [endsGap, Bool.and_eq_true, Bool.not_eq_true', bne_iff_ne] at ends
  obtain ⟨⟨plain, noMark⟩, noSlash⟩ := ends
  have noEnd : isLineEnd c = false := by
    rw [Bool.eq_false_iff]
    intro ends
    rw [isBlank_of_isLineEnd ends] at plain
    cases plain
  rw [gap]
  simp [noEnd, plain, noMark, noSlash]

theorem gap_of_isSolid {c : Char} (solid : isSolid c = true) (pos : Nat) (before : Gap)
    (cs : List Char) : gap pos before (c :: cs) = .ok before :=
  gap_of_endsGap (endsGap_of_isSolid solid) pos before cs

end Lexeme

/-! ## Single symbols -/

namespace Symbol

/-- A name is cut off where its characters end. -/
theorem extent_name {c : Char} {cs rest : List Char} (name : isName (c :: cs) = true)
    (ends : (rest.head?.any fun c => isNamePart c || c == '\\') = false) (allowed : Bool) (pos : Nat) :
    extent allowed pos c (cs ++ rest) = .ok ⟨.ident, cs.length, []⟩ := by
  rw [isName, Bool.and_eq_true, List.all_eq_true] at name
  obtain ⟨starts, parts⟩ := name
  have other {d : Char} (plain : (isNameStart d || d == '\\') = false) : c ≠ d := by
    rintro rfl
    rw [plain] at starts
    cases starts
  have noDigit : c.isDigit = false := by
    rw [Bool.eq_false_iff]
    intro digit
    refine other ?_ rfl
    rw [isNameStart_of_isDigit digit, Bool.false_or, beq_eq_false_iff_ne]
    rintro rfl
    cases digit
  have length : nameLength (cs ++ rest) = cs.length := by
    rw [nameLength, List.takeWhile_append_of_pos parts]
    cases rest with
    | nil => simp
    | cons d rest =>
      have stops : (isNamePart d || d == '\\') = false := ends
      rw [List.takeWhile_cons_of_neg (by rw [stops]; exact Bool.false_ne_true), List.append_nil]
  have starts' : (isNameStart c || decide (c = '\\')) = true := starts
  have strange {n : Nat} (mem : n ∈ strangeCodes) : c ≠ Char.ofNat n := by
    have apart : ∀ n ∈ strangeCodes, (Char.ofNat n == '\\') = false := by decide
    exact other (by rw [isNameStart_of_mem_strangeCodes n mem, apart n mem, Bool.false_or])
  have noDouble : c ≠ '"' := strange (n := 34) (by decide)
  have noSingle : c ≠ '\x27' := strange (n := 39) (by decide)
  have noTemplate : c ≠ templateMark := strange (n := 96) (by decide)
  have noPoint : c ≠ '.' := strange (n := 46) (by decide)
  have noHash : c ≠ '#' := strange (n := 35) (by decide)
  have noSlash : c ≠ '/' := strange (n := 47) (by decide)
  unfold extent
  rw [decide_eq_false noDouble, decide_eq_false noSingle, Bool.false_or, if_neg Bool.false_ne_true,
    if_neg noTemplate, noDigit, decide_eq_false noPoint, Bool.false_and, Bool.false_or,
    if_neg Bool.false_ne_true, if_neg noHash, decide_eq_false noSlash, Bool.false_and,
    if_neg Bool.false_ne_true, if_pos starts', length]

/-- A string is cut off after its closing quote. -/
theorem quotedLength?_append {quote : Char} {body rest : List Char}
    (plain : ∀ c ∈ body, c ≠ quote ∧ c ≠ '\\' ∧ c ≠ '\n') (other : quote ≠ '\n') (n : Nat) :
    quotedLength? quote n (body ++ quote :: rest) = some (n + body.length + 1) := by
  induction body generalizing n with
  | nil =>
    rw [List.nil_append, quotedLength?.eq_def]
    dsimp only
    rw [if_neg other, if_pos rfl, List.length_nil, Nat.add_zero]
  | cons c body ih =>
    rw [List.forall_mem_cons] at plain
    obtain ⟨⟨noQuote, noEscape, noEnd⟩, plain⟩ := plain
    rw [List.cons_append, quotedLength?.eq_def]
    dsimp only
    rw [if_neg noEnd, if_neg noQuote, if_neg noEscape, ih plain, List.length_cons, Nat.add_assoc n 1,
      Nat.add_comm 1]

theorem extent_quoted {c : Char} {cs : List Char} (quoted : isQuoted (c :: cs) = true)
    (rest : List Char) (allowed : Bool) (pos : Nat) :
    extent allowed pos c (cs ++ rest) = .ok ⟨.string, cs.length, []⟩ := by
  simp only [isQuoted, Bool.and_eq_true, Bool.or_eq_true, beq_iff_eq, List.all_eq_true,
    bne_iff_ne] at quoted
  obtain ⟨⟨quote, last⟩, plain⟩ := quoted
  obtain ⟨body, rfl⟩ := List.getLast?_eq_some_iff.mp last
  rw [List.dropLast_concat] at plain
  have other : c ≠ '\n' := by rcases quote with rfl | rfl <;> decide
  have length : quotedLength? c 0 (body ++ [c] ++ rest) = some (body ++ [c]).length := by
    rw [List.append_assoc, List.singleton_append, quotedLength?_append
      (fun d mem => ⟨(plain d mem).1.1, (plain d mem).1.2, (plain d mem).2⟩) other,
      List.length_append, Nat.zero_add, List.length_singleton]
  have isQuote : (decide (c = '"') || decide (c = '\x27')) = true := by
    rw [Bool.or_eq_true, decide_eq_true_eq, decide_eq_true_eq]
    exact quote
  unfold extent
  rw [if_pos isQuote, length]

theorem numberLength_append {cs rest : List Char} (digits : ∀ c ∈ cs, c.isDigit = true)
    (ends : (rest.head?.any fun c => c.isAlphanum || c == '_' || c == '.') = false) (hex : Bool)
    {last : Char} (digit : last.isDigit = true) (n : Nat) :
    numberLength hex last n (cs ++ rest) = n + cs.length := by
  induction cs generalizing last n with
  | nil =>
    have noExponent : (last == 'e' || last == 'E') = false := by
      rw [Bool.or_eq_false_iff, beq_eq_false_iff_ne, beq_eq_false_iff_ne]
      constructor <;> rintro rfl <;> exact absurd digit (by decide)
    cases rest with
    | nil => rfl
    | cons c rest =>
      have stops : (c.isAlphanum || c == '_' || c == '.') = false := ends
      rw [List.nil_append, numberLength, stops, noExponent, Bool.and_false, Bool.or_false,
        if_neg Bool.false_ne_true, List.length_nil, Nat.add_zero]
  | cons c cs ih =>
    rw [List.forall_mem_cons] at digits
    have goesOn : c.isAlphanum = true := by rw [Char.isAlphanum, digits.1, Bool.or_true]
    rw [List.cons_append, numberLength, goesOn, Bool.true_or, Bool.true_or, Bool.true_or,
      if_pos rfl, ih digits.2 digits.1, List.length_cons, Nat.add_assoc, Nat.add_comm 1]

/-- A number is cut off where its digits end. -/
theorem extent_decimal {c : Char} {cs rest : List Char} (decimal : isDecimal (c :: cs) = true)
    (ends : (rest.head?.any fun c => c.isAlphanum || c == '_' || c == '.') = false)
    (allowed : Bool) (pos : Nat) :
    extent allowed pos c (cs ++ rest) = .ok ⟨.number, cs.length, []⟩ := by
  rw [isDecimal, Bool.and_eq_true, List.all_eq_true, List.forall_mem_cons] at decimal
  obtain ⟨-, digit, digits⟩ := decimal
  have other {d : Char} (plain : d.isDigit = false) : c ≠ d := by
    rintro rfl
    rw [plain] at digit
    cases digit
  unfold extent
  simp [other (d := '"') (by decide), other (d := '\x27') (by decide),
    other (d := templateMark) (by decide), digit, numberLength_append digits ends _ digit]

/-- The punctuators are listed longest first, each once. -/
theorem operators_pairwise :
    operators.Pairwise fun a b => b.toList.length ≤ a.toList.length ∧ a ≠ b := by
  decide +kernel

/-- A punctuator is read back where nothing behind it makes it a longer one. -/
theorem operator?_append {op : String} (known : op ∈ operators) (other : op ≠ "?.")
    {rest : List Char} (ends : rest.head?.any (runsInto op) = false) :
    operator? (op.toList ++ rest) = some op := by
  have found : (operators.find? fun op' => op'.toList.isPrefixOf (op.toList ++ rest)) = some op := by
    obtain ⟨front, back, split⟩ := List.append_of_mem known
    rw [List.find?_eq_some_iff_append]
    refine ⟨List.isPrefixOf_iff_prefix.mpr (List.prefix_append ..), front, back, split, ?_⟩
    intro longer mem
    rw [Bool.not_eq_true', Bool.eq_false_iff]
    intro isPrefix
    have ordered := operators_pairwise
    rw [split, List.pairwise_append] at ordered
    have ⟨le, apart⟩ := ordered.2.2 longer mem op List.mem_cons_self
    -- A punctuator before this one is longer and goes on with the first character of the rest.
    obtain ⟨more, same⟩ := List.prefix_of_prefix_length_le (List.prefix_append op.toList rest)
      (List.isPrefixOf_iff_prefix.mp isPrefix) le
    cases more with
    | nil => exact apart (String.toList_injective (by rw [← same, List.append_nil]))
    | cons c more =>
      have goesOn : c :: more <+: rest := by
        have whole := List.isPrefixOf_iff_prefix.mp isPrefix
        rwa [← same, List.prefix_append_right_inj] at whole
      obtain ⟨rest', rfl⟩ := goesOn
      have inside : longer ∈ operators := by
        rw [split]
        exact List.mem_append_left _ mem
      have runs : runsInto op c = true := by
        rw [runsInto, Bool.or_eq_true, List.any_eq_true]
        refine .inr ⟨longer, inside, List.isPrefixOf_iff_prefix.mpr ⟨more, ?_⟩⟩
        rw [← same, List.append_assoc, List.singleton_append]
      have stops : runsInto op c = false := ends
      rw [stops] at runs
      cases runs
  rw [operator?, found]
  dsimp only
  rw [if_neg fun conditional => other (by simpa using (Bool.and_eq_true_iff.mp conditional).1)]

/-- Whether a character starts punctuators only, a slash and a point apart. -/
def isMark (c : Char) : Bool :=
  isSolid c && !isNameStart c && !c.isDigit && c != '"' && c != '\x27' && c != templateMark &&
    c != '\\'

theorem isMark_of_mem_operators :
    ∀ op ∈ operators, op.toList.head? ≠ some '/' → op.toList.head?.any isMark = true := by
  decide +kernel

theorem point_of_mem_operators :
    ∀ op ∈ operators, op.toList.head? = some '.' → op = "." ∨ op = "..." := by
  decide +kernel

/-- A punctuator is cut off where nothing behind it makes it a longer one. -/
theorem extent_operator {op : String} {c : Char} {cs rest : List Char} (chars : op.toList = c :: cs)
    (known : op ∈ operators) (other : op ≠ "?.") (noSlash : c ≠ '/')
    (ends : rest.head?.any (runsInto op) = false) (allowed : Bool) (pos : Nat) :
    extent allowed pos c (cs ++ rest) = .ok ⟨.punct, cs.length, []⟩ := by
  have mark := isMark_of_mem_operators op known (by simpa [chars] using noSlash)
  rw [chars] at mark
  simp only [isMark, List.head?_cons, Option.any_some, Bool.and_eq_true, Bool.not_eq_true',
    bne_iff_ne] at mark
  obtain ⟨⟨⟨⟨⟨⟨solid, noName⟩, noDigit⟩, noQuote⟩, noQuote'⟩, noTemplate⟩, noEscape⟩ := mark
  have noHash : c ≠ '#' := by
    rintro rfl
    cases solid
  have noPoint : c = '.' → (cs.head?.or rest.head?).any Char.isDigit = false := by
    rintro rfl
    rcases point_of_mem_operators op known (by rw [chars, List.head?_cons]) with rfl | rfl
    · obtain rfl : cs = [] := by simpa using chars.symm
      cases rest with
      | nil => rfl
      | cons d rest =>
        have stops : runsInto "." d = false := ends
        rw [runsInto, Bool.or_eq_false_iff] at stops
        simpa using stops.1
    · obtain rfl : cs = ['.', '.'] := by simpa using chars.symm
      rfl
  have found := operator?_append known other ends
  rw [chars, List.cons_append] at found
  have size : op.length - 1 = cs.length := by
    rw [← String.length_toList, chars, List.length_cons, Nat.add_sub_cancel]
  unfold extent
  simpa [noQuote, noQuote', noTemplate, noDigit, noHash, noSlash, noName, noEscape, found, size]
    using noPoint

/-- A symbol has characters, and the first of them ends the blanks before it. -/
theorem exists_cons_of_standsBefore {s : Symbol} {rest : List Char}
    (stands : s.standsBefore rest = true) :
    ∃ c cs, s.text.toList = c :: cs ∧ isSolid c = true := by
  obtain ⟨kind, text⟩ := s
  cases chars : text.toList with
  | nil =>
    unfold standsBefore at stands
    cases kind <;> simp only [chars, Bool.and_eq_true] at stands
    case punct =>
      obtain ⟨⟨⟨known, -⟩, -⟩, -⟩ := stands
      have mark := isMark_of_mem_operators text (List.contains_iff_mem.mp known) (by simp [chars])
      rw [chars] at mark
      cases mark
    case ident => cases stands.1
    case number => cases stands.1
    all_goals cases stands
  | cons c cs =>
    refine ⟨c, cs, rfl, ?_⟩
    unfold standsBefore at stands
    cases kind <;> simp only [chars, Bool.and_eq_true] at stands
    case ident =>
      rw [isName, Bool.and_eq_true, Bool.or_eq_true, beq_iff_eq] at stands
      rcases stands.1.1 with starts | rfl
      · exact isSolid_of_isNameStart starts
      · decide
    case string =>
      simp only [isQuoted, Bool.and_eq_true, Bool.or_eq_true, beq_iff_eq] at stands
      rcases stands.1.1 with rfl | rfl <;> decide
    case number =>
      rw [isDecimal, Bool.and_eq_true, List.all_cons, Bool.and_eq_true] at stands
      exact isSolid_of_isDigit stands.1.2.1
    case punct =>
      obtain ⟨⟨⟨known, -⟩, noSlash⟩, -⟩ := stands
      have mark := isMark_of_mem_operators text (List.contains_iff_mem.mp known)
        (by simpa [chars] using noSlash)
      rw [chars] at mark
      simp only [isMark, List.head?_cons, Option.any_some, Bool.and_eq_true] at mark
      exact mark.1.1.1.1.1.1
    all_goals cases stands

/-- A symbol is cut off as it is where it stands before what follows. -/
theorem extent_append {s : Symbol} {rest : List Char} (stands : s.standsBefore rest = true)
    {c : Char} {cs : List Char} (chars : s.text.toList = c :: cs) (allowed : Bool) (pos : Nat) :
    extent allowed pos c (cs ++ rest) = .ok ⟨s.kind, cs.length, []⟩ := by
  obtain ⟨kind, text⟩ := s
  dsimp only at chars ⊢
  unfold standsBefore at stands
  cases kind <;> simp only [chars, Bool.and_eq_true, Bool.not_eq_true'] at stands
  case ident => exact extent_name stands.1 stands.2 allowed pos
  case string => exact extent_quoted stands rest allowed pos
  case number => exact extent_decimal stands.1 stands.2 allowed pos
  case punct =>
    obtain ⟨⟨⟨known, other⟩, noSlash⟩, ends⟩ := stands
    rw [List.head?_cons, bne_iff_ne] at noSlash
    exact extent_operator chars (List.contains_iff_mem.mp known) (bne_iff_ne.mp other)
      (fun slash => noSlash (by rw [slash])) ends allowed pos
  all_goals cases stands

end Symbol

/-! ## Whole texts -/

/-- A symbol with the blanks in front of it. -/
structure Spaced where
  /-- The blanks. -/
  gap : List Char
  /-- The symbol. -/
  symbol : Symbol
  deriving DecidableEq, Repr

/-- The characters of symbols and of the blanks in front of them, and after those a text. -/
def spell : List Spaced → List Char → List Char
  | [], rest => rest
  | piece :: pieces, rest => piece.gap ++ (piece.symbol.text.toList ++ spell pieces rest)

/-- Whether no symbol runs into what follows it. -/
def isLegible : List Spaced → List Char → Bool
  | [], _ => true
  | piece :: pieces, rest =>
    isGap piece.gap && piece.symbol.standsBefore (spell pieces rest) && isLegible pieces rest

/-- The tokens of symbols that are spelled from an offset on. -/
def tokensOf (pos : Nat) : List Spaced → List Token
  | [] => []
  | piece :: pieces =>
    let start := pos + piece.gap.length
    ⟨piece.symbol.kind, start, piece.symbol.text, piece.gap.any isLineEnd, []⟩ ::
      tokensOf (start + piece.symbol.text.length) pieces

/-- The tokens of a spelled text are its symbols. -/
theorem map_symbol_tokensOf (pos : Nat) (pieces : List Spaced) :
    (tokensOf pos pieces).map Token.symbol = pieces.map Spaced.symbol := by
  induction pieces generalizing pos with
  | nil => rfl
  | cons piece pieces ih => exact congrArg (piece.symbol :: ·) (ih _)

theorem length_spell (pieces : List Spaced) (rest : List Char) :
    (spell pieces rest).length = (spell pieces []).length + rest.length := by
  induction pieces with
  | nil => simp [spell]
  | cons piece pieces ih =>
    simp only [spell, List.length_append, ih]
    omega

/-- Scanning takes one token and goes on behind it. -/
theorem scanFrom_cons {done : Array Token} {pos : Nat} {cs more : List Char} {space : Gap} {c : Char}
    {found : Extent} (between : gap pos ⟨0, false⟩ cs = .ok space)
    (place : cs.drop space.length = c :: more)
    (cut : extent (regexAllowedAfter done.back?) (pos + space.length) c more = .ok found) :
    scanFrom done pos cs =
      scanFrom (done.push ⟨found.kind, pos + space.length,
          String.ofList (c :: more.take found.more), space.newline, found.holes⟩)
        (pos + space.length + 1 + found.more) (more.drop found.more) := by
  rw [scanFrom, between]
  simp only [bind, Except.bind]
  split
  case h_1 empty =>
    rw [place] at empty
    cases empty
  case h_2 c' more' same =>
    rw [place] at same
    cases same
    rw [cut]

/-- Scanning takes a symbol with the blanks in front of it and goes on behind it. -/
theorem scanFrom_symbol {done : Array Token} {pos : Nat} {blanks cs rest : List Char} {symbol : Symbol}
    {c : Char} (blank : isGap blanks = true) (chars : symbol.text.toList = c :: cs)
    (ends : endsGap c = true)
    (cut : extent (regexAllowedAfter done.back?) (pos + blanks.length) c (cs ++ rest) =
      .ok ⟨symbol.kind, cs.length, []⟩) :
    scanFrom done pos (blanks ++ (symbol.text.toList ++ rest)) =
      scanFrom (done.push ⟨symbol.kind, pos + blanks.length, symbol.text, blanks.any isLineEnd, []⟩)
        (pos + blanks.length + symbol.text.length) rest := by
  have between := gap_append blank pos ⟨0, false⟩ (c :: (cs ++ rest))
  rw [gap_of_endsGap ends, Nat.zero_add, Bool.false_or] at between
  have length : symbol.text.length = 1 + cs.length := by
    rw [← String.length_toList, chars, List.length_cons, Nat.add_comm]
  have text : String.ofList (c :: cs) = symbol.text := by
    rw [← chars, String.ofList_toList]
  rw [chars, List.cons_append, scanFrom_cons between List.drop_left cut]
  dsimp only
  rw [List.take_left, List.drop_left, text, length, Nat.add_assoc (pos + blanks.length)]

theorem scanFrom_piece {done : Array Token} {pos : Nat} {blanks cs rest : List Char} {symbol : Symbol}
    {c : Char} (blank : isGap blanks = true) (chars : symbol.text.toList = c :: cs)
    (solid : isSolid c = true)
    (cut : extent (regexAllowedAfter done.back?) (pos + blanks.length) c (cs ++ rest) =
      .ok ⟨symbol.kind, cs.length, []⟩) :
    scanFrom done pos (blanks ++ (symbol.text.toList ++ rest)) =
      scanFrom (done.push ⟨symbol.kind, pos + blanks.length, symbol.text, blanks.any isLineEnd, []⟩)
        (pos + blanks.length + symbol.text.length) rest :=
  scanFrom_symbol blank chars (endsGap_of_isSolid solid) cut

/-- Scanning a spelled text gives its symbols and goes on behind them. -/
theorem scanFrom_spell {pieces : List Spaced} {rest : List Char}
    (legible : isLegible pieces rest = true) (done : Array Token) (pos : Nat) :
    scanFrom done pos (spell pieces rest) =
      scanFrom (done ++ (tokensOf pos pieces).toArray) (pos + (spell pieces []).length) rest := by
  induction pieces generalizing done pos with
  | nil => simp [spell, tokensOf]
  | cons piece pieces ih =>
    obtain ⟨blanks, symbol⟩ := piece
    rw [isLegible, Bool.and_eq_true, Bool.and_eq_true] at legible
    obtain ⟨⟨blank, stands⟩, legible⟩ := legible
    obtain ⟨c, cs, chars, solid⟩ := Symbol.exists_cons_of_standsBefore stands
    rw [spell, scanFrom_piece blank chars solid (Symbol.extent_append stands chars ..), ih legible]
    simp [tokensOf, spell, String.length_toList, Nat.add_assoc]

/-- Blanks have no tokens. -/
theorem scanFrom_of_isGap {blanks : List Char} (blank : isGap blanks = true) (done : Array Token)
    (pos : Nat) : scanFrom done pos blanks = .ok done := by
  have between := gap_append blank pos ⟨0, false⟩ []
  rw [List.append_nil, gap_nil, Nat.zero_add] at between
  rw [scanFrom, between]
  simp only [bind, Except.bind]
  split
  case h_1 => rfl
  case h_2 c more same =>
    rw [List.drop_length] at same
    cases same

/-- The tokens of a spelled text. -/
theorem scan_spell {pieces : List Spaced} {last : List Char} (legible : isLegible pieces last = true)
    (blank : isGap last = true) : scan (spell pieces last) = .ok (tokensOf 0 pieces).toArray := by
  have plain : interpreterLineLength (spell pieces last) = 0 := by
    have blankHead {cs : List Char} (blank : isGap cs = true) : ∀ cs', cs ≠ '#' :: cs' := by
      rintro cs' rfl
      cases blank
    unfold interpreterLineLength
    split
    case h_2 => rfl
    case h_1 cs spelled =>
      cases pieces with
      | nil => exact absurd spelled (blankHead blank _)
      | cons piece pieces =>
        rw [isLegible, Bool.and_eq_true, Bool.and_eq_true] at legible
        obtain ⟨c, cs', chars, solid⟩ := Symbol.exists_cons_of_standsBefore legible.1.2
        rw [spell, chars] at spelled
        cases gap : piece.gap with
        | nil =>
          rw [gap, List.nil_append, List.cons_append] at spelled
          rw [(List.cons.inj spelled).1] at solid
          cases solid
        | cons b blanks =>
          rw [gap, List.cons_append] at spelled
          rw [(List.cons.inj spelled).1] at gap
          exact absurd gap (blankHead legible.1.1 _)
  rw [scan, plain, List.drop_zero, scanFrom_spell legible, scanFrom_of_isGap blank, Array.empty_append]

end ModuleLinker
