import ModuleLinker.Proofs.Erase.Script
import ModuleLinker.Proofs.Source.Literal

/-!
# Reading literals and private names back

Besides names, digits and punctuators a text may hold any numbers, strings with escapes and private
names. Where no symbol runs into what follows it (`Symbol.isReadBefore`), scanning the text gives its
symbols back, each at its place (`scan_readable`).
-/

set_option autoImplicit false

namespace ModuleLinker

open Lexeme Text

namespace Symbol

/-- Whether characters go on up to the quote that closes a string and end there; a backslash takes the
character behind it along. -/
def closesString (quote : Char) : List Char → Bool
  | [] => false
  | [c] => c == quote
  | c :: d :: cs =>
    if c = '\\' then closesString quote cs
    else c != quote && c != '\n' && closesString quote (d :: cs)

/-- Whether characters make up a string. -/
def isString : List Char → Bool
  | [] => false
  | quote :: cs => (quote == '"' || quote == '\x27') && closesString quote cs

/-- Whether characters make up a private name. -/
def isPrivate : List Char → Bool
  | [] => false
  | hash :: cs => hash == '#' && cs.head?.any isNameStart && cs.all fun c => isNamePart c || c == '\\'

/-- Whether a symbol that is followed directly by a text is read back as it is. -/
def isReadBefore (s : Symbol) (rest : List Char) : Bool :=
  match s.kind with
  | .string => isString s.text.toList
  | .number => Script.isNumeral s.text.toList &&
    !rest.head?.any fun c => c.isAlphanum || c == '_' || c == '.' || c == '+' || c == '-'
  | .privateName => isPrivate s.text.toList && !rest.head?.any fun c => isNamePart c || c == '\\'
  | _ => s.standsBefore rest

example : ["\"a\\\"b\"", "'\\\\'", "''", "'\"'"].all (isString ·.toList) = true := by decide

/-! ## Single symbols -/

/-- A string is closed where its characters end. -/
theorem quotedLength?_of_closesString {quote : Char} (isQuote : quote = '"' ∨ quote = '\x27')
    {cs : List Char} (closes : closesString quote cs = true) (n : Nat) :
    quotedLength? quote n cs = some (n + cs.length) := by
  have other : quote ≠ '\n' ∧ quote ≠ '\\' := by rcases isQuote with rfl | rfl <;> decide
  fun_induction closesString quote cs generalizing n with
  | case1 => cases closes
  | case2 c =>
    obtain rfl := beq_iff_eq.mp closes
    rw [quotedLength?.eq_def]
    dsimp only
    rw [if_neg other.1, if_pos rfl, List.length_singleton]
  | case3 d cs ih =>
    rw [quotedLength?.eq_def]
    dsimp only
    rw [if_neg (by decide), if_neg (Ne.symm other.2), if_pos rfl, ih closes, List.length_cons,
      List.length_cons, Nat.add_assoc, Nat.add_comm 2]
  | case4 c d cs noEscape ih =>
    rw [Bool.and_eq_true, Bool.and_eq_true, bne_iff_ne, bne_iff_ne] at closes
    rw [quotedLength?.eq_def]
    dsimp only
    rw [if_neg closes.1.2, if_neg closes.1.1, if_neg noEscape, ih closes.2, Nat.add_assoc,
      Nat.add_comm 1]
    rfl

theorem extent_string {c : Char} {cs : List Char} (isString : isString (c :: cs) = true)
    (rest : List Char) (allowed : Bool) (pos : Nat) :
    extent allowed pos c (cs ++ rest) = .ok ⟨.string, cs.length, []⟩ := by
  rw [Symbol.isString, Bool.and_eq_true, Bool.or_eq_true, beq_iff_eq, beq_iff_eq] at isString
  have length := quotedLength?_of_closed (quotedLength?_of_closesString isString.1 isString.2 0) rest
  have isQuote : (decide (c = '"') || decide (c = '\x27')) = true := by
    rw [Bool.or_eq_true, decide_eq_true_eq, decide_eq_true_eq]
    exact isString.1
  unfold extent
  rw [if_pos isQuote, length, Nat.zero_add]

/-- A number that takes all characters ends where a text follows that does not go on with it. -/
theorem numberLength_of_whole {hex : Bool} {last : Char} {n : Nat} {cs rest : List Char}
    (whole : numberLength hex last n cs = n + cs.length)
    (ends : (rest.head?.any fun c => c.isAlphanum || c == '_' || c == '.' || c == '+' || c == '-') = false) :
    numberLength hex last n (cs ++ rest) = n + cs.length := by
  induction cs generalizing last n with
  | nil =>
    cases rest with
    | nil => rfl
    | cons c rest =>
      rw [List.head?_cons, Option.any_some, Bool.or_eq_false_iff, Bool.or_eq_false_iff] at ends
      obtain ⟨⟨stops, noPlus⟩, noMinus⟩ := ends
      rw [List.nil_append, numberLength, stops, noPlus, noMinus]
      rfl
  | cons c cs ih =>
    rw [numberLength] at whole
    split at whole
    case isTrue goesOn =>
      have place : n + (c :: cs).length = n + 1 + cs.length := by
        rw [List.length_cons]
        omega
      rw [place] at whole ⊢
      rw [List.cons_append, numberLength, if_pos goesOn, ih whole]
    case isFalse =>
      rw [List.length_cons] at whole
      omega

theorem extent_numeral {c : Char} {cs rest : List Char} (numeral : Script.isNumeral (c :: cs) = true)
    (ends : (rest.head?.any fun c => c.isAlphanum || c == '_' || c == '.' || c == '+' || c == '-') = false)
    (allowed : Bool) (pos : Nat) :
    extent allowed pos c (cs ++ rest) = .ok ⟨.number, cs.length, []⟩ := by
  obtain ⟨c', cs', same, solid, alone⟩ :=
    @standsAlone_of_isNumeral (String.ofList (c :: cs)) (by rwa [String.toList_ofList])
  rw [String.toList_ofList, List.cons.injEq] at same
  obtain ⟨rfl, rfl⟩ := same
  rw [Script.isNumeral, Bool.and_eq_true, beq_iff_eq] at numeral
  obtain ⟨starts, whole⟩ := numeral
  have notX : rest.head? ≠ some 'x' ∧ rest.head? ≠ some 'X' := by
    constructor <;> intro same <;> rw [same] at ends <;> exact absurd ends (by decide)
  have hex : ((cs ++ rest).head? == some 'x' || (cs ++ rest).head? == some 'X') =
      (cs.head? == some 'x' || cs.head? == some 'X') := by
    cases cs with
    | nil => simp [notX]
    | cons d cs => rfl
  have starts' : (c.isDigit || (decide (c = '.') && (cs ++ rest).head?.any Char.isDigit)) = true := by
    rw [Bool.or_eq_true, Bool.and_eq_true, beq_iff_eq] at starts
    rw [Bool.or_eq_true, Bool.and_eq_true, decide_eq_true_eq]
    refine starts.imp_right (And.imp_right fun digit => ?_)
    cases cs with
    | nil => cases digit
    | cons d cs => exact digit
  have other : c ≠ '"' ∧ c ≠ '\x27' ∧ c ≠ templateMark := by
    refine ⟨?_, ?_, ?_⟩ <;> rintro rfl <;> exact absurd starts (by simp [templateMark, Char.isDigit])
  have length := numberLength_of_whole (whole.trans (Nat.zero_add _).symm) ends
  unfold extent
  dsimp only
  rw [if_neg (by simp [other]), if_neg other.2.2, if_pos starts', hex, length, Nat.zero_add]

theorem extent_private {c : Char} {cs rest : List Char} (isPrivate : isPrivate (c :: cs) = true)
    (ends : (rest.head?.any fun c => isNamePart c || c == '\\') = false) (allowed : Bool) (pos : Nat) :
    c = '#' ∧ extent allowed pos c (cs ++ rest) = .ok ⟨.privateName, cs.length, []⟩ := by
  rw [Symbol.isPrivate, Bool.and_eq_true, Bool.and_eq_true, beq_iff_eq, List.all_eq_true] at isPrivate
  obtain ⟨⟨rfl, starts⟩, parts⟩ := isPrivate
  refine ⟨rfl, ?_⟩
  have starts' : (cs ++ rest).head?.any isNameStart = true := by
    cases cs with
    | nil => cases starts
    | cons d cs => exact starts
  have length : nameLength (cs ++ rest) = cs.length := by
    rw [nameLength, List.takeWhile_append_of_pos parts]
    cases rest with
    | nil => simp
    | cons d rest =>
      have stops : (isNamePart d || d == '\\') = false := ends
      rw [List.takeWhile_cons_of_neg (by rw [stops]; exact Bool.false_ne_true), List.append_nil]
  unfold extent
  rw [if_neg (by decide), if_neg (by decide), if_neg (by simp [Char.isDigit]), if_pos rfl,
    if_pos starts', length]

/-- A symbol has characters, the first of which ends the blanks before it, and is cut off as it is. -/
theorem exists_cut_of_isReadBefore {s : Symbol} {rest : List Char} (reads : s.isReadBefore rest = true) :
    ∃ c cs, s.text.toList = c :: cs ∧ endsGap c = true ∧ (c = '#' → ∃ d ds, cs = d :: ds ∧ d ≠ '!') ∧
      ∀ allowed pos, extent allowed pos c (cs ++ rest) = .ok ⟨s.kind, cs.length, []⟩ := by
  have noHash {c : Char} {cs : List Char} (solid : isSolid c = true) :
      c = '#' → ∃ d ds, cs = d :: ds ∧ d ≠ '!' := by
    rintro rfl
    cases solid
  have known (stands : s.standsBefore rest = true) : ∃ c cs, s.text.toList = c :: cs ∧
      endsGap c = true ∧ (c = '#' → ∃ d ds, cs = d :: ds ∧ d ≠ '!') ∧
      ∀ allowed pos, extent allowed pos c (cs ++ rest) = .ok ⟨s.kind, cs.length, []⟩ := by
    obtain ⟨c, cs, chars, solid⟩ := exists_cons_of_standsBefore stands
    exact ⟨c, cs, chars, endsGap_of_isSolid solid, noHash solid, extent_append stands chars⟩
  obtain ⟨kind, text⟩ := s
  unfold isReadBefore at reads
  cases kind with
  | string =>
    dsimp only at reads ⊢
    cases chars : text.toList with
    | nil =>
      rw [chars] at reads
      cases reads
    | cons c cs =>
      rw [chars] at reads
      have solid : isSolid c = true := by
        rw [isString, Bool.and_eq_true, Bool.or_eq_true, beq_iff_eq, beq_iff_eq] at reads
        rcases reads.1 with rfl | rfl <;> decide
      exact ⟨c, cs, rfl, endsGap_of_isSolid solid, noHash solid, extent_string reads rest⟩
  | number =>
    rw [Bool.and_eq_true, Bool.not_eq_true'] at reads
    obtain ⟨c, cs, chars, solid, -⟩ := standsAlone_of_isNumeral reads.1
    dsimp only at chars ⊢
    rw [chars] at reads
    exact ⟨c, cs, chars, endsGap_of_isSolid solid, noHash solid, extent_numeral reads.1 reads.2⟩
  | privateName =>
    rw [Bool.and_eq_true, Bool.not_eq_true'] at reads
    dsimp only at reads ⊢
    cases chars : text.toList with
    | nil =>
      rw [chars] at reads
      cases reads.1
    | cons c cs =>
      rw [chars] at reads
      have cut := extent_private reads.1 reads.2
      obtain rfl := (cut true 0).1
      refine ⟨'#', cs, rfl, rfl, fun _ => ?_, fun allowed pos => (cut allowed pos).2⟩
      have starts := reads.1
      rw [isPrivate, Bool.and_eq_true, Bool.and_eq_true] at starts
      cases cs with
      | nil => cases starts.1.2
      | cons d cs =>
        refine ⟨d, cs, rfl, ?_⟩
        rintro rfl
        have noStart : isNameStart '!' = false := by decide +kernel
        exact Bool.false_ne_true (noStart.symm.trans starts.1.2)
  | _ => exact known reads

end Symbol

/-! ## Whole texts -/

/-- Whether no symbol runs into what follows it. -/
def isReadable : List Spaced → List Char → Bool
  | [], _ => true
  | piece :: pieces, rest =>
    isGap piece.gap && piece.symbol.isReadBefore (spell pieces rest) && isReadable pieces rest

/-- A symbol that is read back has a text. -/
theorem length_pos_of_isReadable {pieces : List Spaced} {rest : List Char}
    (readable : isReadable pieces rest = true) : ∀ piece ∈ pieces, 0 < piece.symbol.text.length := by
  induction pieces with
  | nil => exact fun piece mem => absurd mem List.not_mem_nil
  | cons piece pieces ih =>
    rw [isReadable, Bool.and_eq_true, Bool.and_eq_true] at readable
    obtain ⟨c, cs, chars, -⟩ := Symbol.exists_cut_of_isReadBefore readable.1.2
    rw [List.forall_mem_cons, ← String.length_toList, chars]
    exact ⟨Nat.succ_pos _, ih readable.2⟩

/-- Scanning a readable text gives its symbols and goes on behind them. -/
theorem scanFrom_readable {pieces : List Spaced} {rest : List Char}
    (readable : isReadable pieces rest = true) (done : Array Token) (pos : Nat) :
    scanFrom done pos (spell pieces rest) =
      scanFrom (done ++ (tokensOf pos pieces).toArray) (pos + (spell pieces []).length) rest := by
  induction pieces generalizing done pos with
  | nil => simp [spell, tokensOf]
  | cons piece pieces ih =>
    obtain ⟨blanks, symbol⟩ := piece
    rw [isReadable, Bool.and_eq_true, Bool.and_eq_true] at readable
    obtain ⟨⟨blank, reads⟩, readable⟩ := readable
    obtain ⟨c, cs, chars, ends, -, cut⟩ := Symbol.exists_cut_of_isReadBefore reads
    rw [spell, scanFrom_symbol blank chars ends (cut ..), ih readable]
    simp [tokensOf, spell, String.length_toList, Nat.add_assoc]

/-- The tokens of a readable text. -/
theorem scan_readable {pieces : List Spaced} {last : List Char} (readable : isReadable pieces last = true)
    (blank : isGap last = true) : scan (spell pieces last) = .ok (tokensOf 0 pieces).toArray := by
  have plain : ¬ ['#', '!'] <+: spell pieces last := by
    have noHash {cs more : List Char} (blank : isGap cs = true) (same : '#' :: more = cs) : False := by
      rw [← same] at blank
      cases blank
    rintro ⟨more, same⟩
    cases pieces with
    | nil => exact noHash blank same
    | cons piece pieces =>
      rw [isReadable, Bool.and_eq_true, Bool.and_eq_true] at readable
      obtain ⟨c, cs, chars, -, noBang, -⟩ := Symbol.exists_cut_of_isReadBefore readable.1.2
      have blank := readable.1.1
      rw [spell, chars] at same
      cases gap : piece.gap with
      | nil =>
        rw [gap] at same
        obtain ⟨rfl, rest⟩ := List.cons.inj same
        obtain ⟨d, ds, rfl, other⟩ := noBang rfl
        exact other (List.cons.inj rest).1.symm
      | cons b blanks =>
        rw [gap] at same blank
        obtain ⟨rfl, -⟩ := List.cons.inj same
        cases blank
  rw [scan, interpreterLineLength_eq_zero plain, List.drop_zero, scanFrom_readable readable,
    scanFrom_of_isGap blank, Array.empty_append]

end ModuleLinker
