import Mathlib
import ModuleLinker.Erase
import ModuleLinker.Proofs.Erase.Program
import ModuleLinker.Proofs.Erase.TypeEnd
import ModuleLinker.Proofs.Source.Pairing

/-!
# Stretches that close their brackets

A stretch of a program closes its brackets if it goes on over single tokens that are no brackets and over
brackets with all that is in them (`Balanced`). So does every type, whatever stands behind it
(`balanced_of_typeStop?`), and every list of type arguments or parameters (`balanced_of_angleStop?`).
-/

set_option autoImplicit false

namespace ModuleLinker

open Erase

namespace Token

variable {t : Token}

theorem isPlain_symbol (other : t.kind ≠ .punct) : t.symbol.isPlain = true := by
  simp [symbol, Symbol.isPlain, other]

theorem isPlain_of_kind {kind : TokenKind} (same : (t.kind == kind) = true) (other : kind ≠ .punct) :
    t.symbol.isPlain = true := by
  rw [beq_iff_eq] at same
  exact isPlain_symbol (same ▸ other)

theorem isPlain_of_isWord {word : String} (same : t.isWord word = true) : t.symbol.isPlain = true := by
  rw [isWord, Bool.and_eq_true] at same
  exact isPlain_of_kind same.1 (by decide)

theorem isPlain_of_isPunct {text : String} (same : t.isPunct text = true)
    (other : text ∉ ["(", ")", "[", "]", openBrace, closeBrace]) : t.symbol.isPlain = true := by
  simp only [isPunct, Bool.and_eq_true, beq_iff_eq] at same
  simpa [symbol, Symbol.isPlain, same.1, same.2] using other

theorem isOpener_of_isPunct {opener : String} (same : t.isPunct opener = true) (among : opener ∈ openers) :
    t.isOpener = true := by
  simp only [isPunct, Bool.and_eq_true, beq_iff_eq] at same
  exact (isOpener_of_mark among (by simp [symbol, Symbol.mark, same.1, same.2])).1

end Token

namespace Erase.Program

variable {p : Program}

/-- Whether a stretch of tokens, from one position up to another, closes the brackets that it opens and
no others. -/
inductive Balanced (p : Program) : Nat → Nat → Prop
  /-- No tokens. -/
  | refl (i : Nat) : Balanced p i i
  /-- A token that is no bracket, and such a stretch. -/
  | plain {i j : Nat} {t : Token} : p.tokens[i]? = some t → t.symbol.isPlain = true →
      Balanced p (i + 1) j → Balanced p i j
  /-- A bracket up to its partner, and such a stretch. -/
  | bracket {i j : Nat} {t : Token} : p.tokens[i]? = some t → t.isOpener = true →
      Balanced p (p.close i + 1) j → Balanced p i j

namespace Balanced

variable {i j k : Nat}

theorem le (balanced : p.Balanced i j) : i ≤ j := by
  induction balanced with
  | refl => exact Nat.le_refl _
  | plain _ _ _ ih => omega
  | @bracket i j t _ _ _ ih =>
    have later := p.lt_close i
    omega

theorem trans (first : p.Balanced i j) (second : p.Balanced j k) : p.Balanced i k := by
  induction first with
  | refl => exact second
  | plain found plain _ ih => exact .plain found plain (ih second)
  | bracket found opener _ ih => exact .bracket found opener (ih second)

/-- The brackets of such a stretch have their partners in it. -/
theorem partner (matched : matchBrackets p.tokens = .ok p.partners) {first last : Nat}
    (balanced : p.Balanced first last) (low : first ≤ i) (high : i < last)
    (pair : p.partners[i]? = some (some j)) : first ≤ j ∧ j < last := by
  have pairing := isPairing_of_matched matched
  induction balanced with
  | refl => omega
  | @plain first last t found plain rest ih =>
    rcases Nat.eq_or_lt_of_le low with rfl | low
    · obtain ⟨noOpener, noCloser⟩ := Token.isOpener_of_isPlain plain
      cases pair.symm.trans (pairing.plain first t (by simpa using found) noOpener noCloser)
    · have inside := ih low high
      omega
  | @bracket first last t found opener rest ih =>
    obtain ⟨m, c, pair', less, -⟩ := pairing.opener first t (by simpa using found) opener
    have close : p.close first = m := by
      rw [Program.close, pair']
      exact Nat.max_eq_left less
    rw [close] at rest ih
    have le := rest.le
    rcases Nat.lt_trichotomy i m with before | rfl | behind
    · rcases Nat.eq_or_lt_of_le low with rfl | low
      · cases pair.symm.trans pair'
        omega
      · have inside := pairing.inside pair' pair low before
        omega
    · cases pair.symm.trans (pairing.symm first i pair')
      omega
    · have inside := ih behind high
      omega

/-- Such a stretch is well-nested. -/
theorem nested (matched : matchBrackets p.tokens = .ok p.partners) (balanced : p.Balanced i j)
    (within : j ≤ p.tokens.size) : Nested ((tokensBetween p.tokens.toList i j).map Token.symbol) := by
  have le := balanced.le
  exact (isPairing_of_matched matched).nested (j - i) i j (by omega) (by simpa using within)
    fun k l low high pair => balanced.partner matched low high pair

end Balanced

section Steps

variable {i : Nat}

/-- A token with a property that brackets do not have. -/
theorem balanced_of_is {property : Token → Bool} (here : p.is i property = true)
    (plain : ∀ t, property t = true → t.symbol.isPlain = true) : p.Balanced i (i + 1) := by
  obtain ⟨t, found, holds⟩ := (Option.any_eq_true ..).mp here
  exact .plain found (plain t holds) (.refl _)

theorem balanced_of_isName (here : p.isName i = true) : p.Balanced i (i + 1) :=
  balanced_of_is here fun _ same => Token.isPlain_of_kind same (by decide)

theorem balanced_of_isWord {word : String} (here : p.isWord i word = true) : p.Balanced i (i + 1) :=
  balanced_of_is here fun _ => Token.isPlain_of_isWord

theorem balanced_of_isOneOf {words : List String} (here : p.isOneOf i words = true) :
    p.Balanced i (i + 1) :=
  balanced_of_is here fun _ same => Token.isPlain_of_kind (Bool.and_eq_true .. |>.mp same).1 (by decide)

theorem balanced_of_isPunct {text : String} (here : p.isPunct i text = true)
    (other : text ∉ ["(", ")", "[", "]", openBrace, closeBrace]) : p.Balanced i (i + 1) :=
  balanced_of_is here fun _ same => Token.isPlain_of_isPunct same other

theorem balanced_of_kind? {kind : TokenKind} (here : (p.kind? i == some kind) = true)
    (other : kind ≠ .punct) : p.Balanced i (i + 1) := by
  rw [beq_iff_eq, kind?] at here
  obtain ⟨t, found, same⟩ := Option.map_eq_some_iff.mp here
  exact .plain found (Token.isPlain_symbol (same ▸ other)) (.refl _)

/-- A bracket up to its partner. -/
theorem balanced_of_opener {opener : String} (here : p.isPunct i opener = true) (among : opener ∈ openers) :
    p.Balanced i (p.close i + 1) := by
  obtain ⟨t, found, same⟩ := (Option.any_eq_true ..).mp here
  exact .bracket found (Token.isOpener_of_isPunct same among) (.refl _)

end Steps

/-! ## Types -/

/-- The tokens that may stand in type arguments are no closing brackets. -/
theorem isPlain_of_typeArgument {t : Token}
    (known : ¬ (t.kind == .regex || (t.kind == .punct && !typeArgumentPuncts.contains t.text)) = true) :
    t.symbol.isPlain = true := by
  by_cases punct : t.kind = .punct
  · simp only [punct, Bool.or_eq_true, Bool.and_eq_true, not_or, beq_self_eq_true, true_and,
      Bool.not_eq_true, Bool.not_eq_false'] at known
    have among := List.contains_iff_mem.mp known.2
    refine @Token.isPlain_of_isPunct t t.text (by simp [Token.isPunct, punct]) fun bracket => ?_
    have apart : ∀ text ∈ typeArgumentPuncts,
        text ∉ ["(", ")", "[", "]", openBrace, closeBrace] := by decide
    exact apart _ among bracket
  · exact Token.isPlain_symbol punct

theorem balanced_of_angleStop? {depth k j : Nat} (found : p.angleStop? depth k = some j) :
    p.Balanced k j := by
  induction size : p.tokens.size - k using Nat.strong_induction_on generalizing depth k with
  | _ size ih =>
    rw [angleStop?_eq] at found
    obtain ⟨t, here, found⟩ := Option.bind_eq_some_iff.mp found
    have inside : k < p.tokens.size := (Array.getElem?_eq_some_iff.mp here).1
    have next {depth : Nat} (plain : t.symbol.isPlain = true)
        (found : p.angleStop? depth (k + 1) = some j) : p.Balanced k j :=
      .plain here plain (ih (p.tokens.size - (k + 1)) (by omega) found rfl)
    split at found
    case isTrue less => exact next (Token.isPlain_of_isPunct less (by decide)) found
    split at found
    case isTrue greater =>
      have plain := Token.isPlain_of_isPunct greater (by decide)
      split at found
      · cases found
        exact .plain here plain (.refl _)
      · exact next plain found
    split at found
    case isTrue opener =>
      have later := p.lt_close k
      exact .bracket here opener (ih (p.tokens.size - (p.close k + 1)) (by omega) found rfl)
    case isFalse =>
      split at found
      · cases found
      case isFalse known => exact next (isPlain_of_typeArgument known) found

theorem balanced_qualifiersStop (k : Nat) : p.Balanced k (p.qualifiersStop k) := by
  induction size : p.tokens.size - k using Nat.strong_induction_on generalizing k with
  | _ size ih =>
    rw [qualifiersStop_eq]
    split
    case isTrue segment =>
      have inside := p.lt_size_of_is segment.1
      have rest := ih (p.tokens.size - (k + 2)) (by omega) (k + 2) rfl
      exact (balanced_of_isPunct segment.1 (by decide)).trans ((balanced_of_isName segment.2).trans rest)
    case isFalse => exact .refl k

theorem balanced_indexesStop (k : Nat) : p.Balanced k (p.indexesStop k) := by
  induction size : p.tokens.size - k using Nat.strong_induction_on generalizing k with
  | _ size ih =>
    rw [indexesStop_eq]
    split
    case isTrue index =>
      have inside := p.lt_size_of_is index.1
      have later := p.lt_close k
      have rest := ih (p.tokens.size - (p.close k + 1)) (by omega) (p.close k + 1) rfl
      exact (balanced_of_opener index.1 (by decide)).trans rest
    case isFalse => exact .refl k

theorem balanced_of_entityStop? {i j : Nat} (found : p.entityStop? i = some j) : p.Balanced i j := by
  unfold entityStop? at found
  split at found
  case isTrue name =>
    cases found
    exact (balanced_of_isName name).trans (balanced_qualifiersStop _)
  case isFalse => cases found

theorem balanced_of_argumentsStop? {sameLine : Bool} {k j : Nat}
    (found : p.argumentsStop? sameLine k = some j) : p.Balanced k j := by
  unfold argumentsStop? at found
  split at found
  case isTrue opens =>
    rw [Bool.and_eq_true] at opens
    exact (balanced_of_isPunct opens.1 (by decide)).trans (balanced_of_angleStop? found)
  case isFalse =>
    cases found
    exact .refl k

/-- A sign in front of an operand of a union or intersection. -/
theorem balanced_of_sign {i : Nat} (sign : (p.isPunct i "|" || p.isPunct i "&") = true) :
    p.Balanced i (i + 1) := by
  rcases (Bool.or_eq_true ..).mp sign with bar | and
  · exact balanced_of_isPunct bar (by decide)
  · exact balanced_of_isPunct and (by decide)

mutual

/-- A type closes its brackets. -/
theorem balanced_of_typeStop? {i j : Nat} (found : p.typeStop? i = some j) : p.Balanced i j := by
  rw [typeStop?_eq] at found
  obtain ⟨k, first, found⟩ := Option.bind_eq_some_iff.mp found
  have union := balanced_of_unionStop? first
  have later := lt_unionStop? first
  split at found
  case isFalse =>
    cases found
    exact union
  case isTrue extends' =>
  have inside := p.lt_size_of_is extends'.1
  cases second : p.unionStop? (k + 1) with
  | none =>
    rw [second] at found
    cases found
    exact union
  | some check =>
    rw [second, Option.elim_some] at found
    have bound := balanced_of_unionStop? second
    have later' := lt_unionStop? second
    split at found
    case isFalse =>
      cases found
      exact union
    case isTrue asks =>
    have inside' := p.lt_size_of_is asks
    obtain ⟨positive, third, found⟩ := Option.bind_eq_some_iff.mp found
    have yes := balanced_of_typeStop? third
    have later'' := lt_typeStop? third
    split at found
    case isFalse =>
      cases found
      exact union
    case isTrue colon =>
      have no := balanced_of_typeStop? found
      exact union.trans ((balanced_of_isWord extends'.1).trans (bound.trans
        ((balanced_of_isPunct asks (by decide)).trans (yes.trans
          ((balanced_of_isPunct colon (by decide)).trans no)))))
termination_by 6 * (p.tokens.size - i) + 5
decreasing_by all_goals omega

theorem balanced_of_unionStop? {i j : Nat} (found : p.unionStop? i = some j) : p.Balanced i j := by
  rw [unionStop?_eq] at found
  split at found
  case isTrue sign =>
    have inside : i < p.tokens.size := by
      rcases (Bool.or_eq_true ..).mp sign with sign | sign <;> exact p.lt_size_of_is sign
    obtain ⟨k, first, found⟩ := Option.bind_eq_some_iff.mp found
    have later := lt_operandStop? first
    exact (balanced_of_sign sign).trans
      ((balanced_of_operandStop? first).trans (balanced_of_operandsStop? found))
  case isFalse =>
    obtain ⟨k, first, found⟩ := Option.bind_eq_some_iff.mp found
    have later := lt_operandStop? first
    exact (balanced_of_operandStop? first).trans (balanced_of_operandsStop? found)
termination_by 6 * (p.tokens.size - i) + 4
decreasing_by all_goals omega

theorem balanced_of_operandsStop? {k j : Nat} (found : p.operandsStop? k = some j) : p.Balanced k j := by
  rw [operandsStop?_eq] at found
  split at found
  case isFalse =>
    cases found
    exact .refl k
  case isTrue sign =>
    have inside : k < p.tokens.size := by
      rcases (Bool.or_eq_true ..).mp sign with sign | sign <;> exact p.lt_size_of_is sign
    obtain ⟨next, first, found⟩ := Option.bind_eq_some_iff.mp found
    have later := lt_operandStop? first
    exact (balanced_of_sign sign).trans
      ((balanced_of_operandStop? first).trans (balanced_of_operandsStop? found))
termination_by 6 * (p.tokens.size - k) + 3
decreasing_by all_goals omega

theorem balanced_of_operandStop? {i j : Nat} (found : p.operandStop? i = some j) : p.Balanced i j := by
  rw [operandStop?_eq] at found
  rcases ite_eq_iff.mp found with ⟨modifier, found⟩ | ⟨-, found⟩
  · have inside := p.lt_size_of_is modifier.1
    exact (balanced_of_isOneOf modifier.1).trans (balanced_of_operandStop? found)
  rcases ite_eq_iff.mp found with ⟨infers, found⟩ | ⟨-, found⟩
  · rw [Bool.and_eq_true] at infers
    cases found
    exact (balanced_of_isWord infers.1).trans
      ((balanced_of_isName infers.2).trans (balanced_indexesStop _))
  rcases ite_eq_iff.mp found with ⟨abstract, found⟩ | ⟨-, found⟩
  · rw [Bool.and_eq_true] at abstract
    have inside := p.lt_size_of_is abstract.2
    have word := balanced_of_isWord abstract.1
    rcases ite_eq_iff.mp found with ⟨-, found⟩ | ⟨-, found⟩
    · exact word.trans ((balanced_of_isWord abstract.2).trans (balanced_of_functionTypeStop? found))
    · exact word.trans (balanced_of_namedTypeStop? found)
  rcases ite_eq_iff.mp found with ⟨new, found⟩ | ⟨-, found⟩
  · have inside := p.lt_size_of_is new.1
    exact (balanced_of_isWord new.1).trans (balanced_of_functionTypeStop? found)
  rcases ite_eq_iff.mp found with ⟨asserts, found⟩ | ⟨-, found⟩
  · have inside := p.lt_size_of_is asserts.1
    have both := (balanced_of_isWord asserts.1).trans (balanced_of_isName asserts.2.1)
    rcases ite_eq_iff.mp found with ⟨is, found⟩ | ⟨-, found⟩
    · exact both.trans ((balanced_of_isWord is).trans (balanced_of_typeStop? found))
    · cases found
      exact both
  rcases ite_eq_iff.mp found with ⟨opens, found⟩ | ⟨-, found⟩
  · have inside := p.lt_size_of_is opens
    have later := p.lt_close i
    have bracket := balanced_of_opener opens (by decide)
    rcases ite_eq_iff.mp found with ⟨arrow, found⟩ | ⟨-, found⟩
    · exact bracket.trans ((balanced_of_isPunct arrow (by decide)).trans (balanced_of_typeStop? found))
    · cases found
      exact bracket.trans (balanced_indexesStop _)
  rcases ite_eq_iff.mp found with ⟨-, found⟩ | ⟨-, found⟩
  · exact balanced_of_functionTypeStop? found
  rcases ite_eq_iff.mp found with ⟨opens, found⟩ | ⟨-, found⟩
  · cases found
    rcases (Bool.or_eq_true ..).mp opens with opens | opens <;>
      exact (balanced_of_opener opens (by decide)).trans (balanced_indexesStop _)
  rcases ite_eq_iff.mp found with ⟨negative, found⟩ | ⟨-, found⟩
  · rw [Bool.and_eq_true] at negative
    cases found
    exact (balanced_of_isPunct negative.1 (by decide)).trans
      ((balanced_of_kind? negative.2 (by decide)).trans (balanced_indexesStop _))
  rcases ite_eq_iff.mp found with ⟨-, found⟩ | ⟨-, found⟩
  · exact balanced_of_namedTypeStop? found
  rcases ite_eq_iff.mp found with ⟨literal, found⟩ | ⟨-, found⟩
  · cases found
    refine (balanced_of_is literal fun t same => Token.isPlain_symbol fun punct => ?_).trans
      (balanced_indexesStop _)
    rw [punct] at same
    cases same
  · cases found
termination_by 6 * (p.tokens.size - i) + 2
decreasing_by all_goals omega

theorem balanced_of_namedTypeStop? {i j : Nat} (found : p.namedTypeStop? i = some j) : p.Balanced i j := by
  rw [namedTypeStop?_eq] at found
  split at found
  case isTrue query =>
    obtain ⟨k, entity, found⟩ := Option.bind_eq_some_iff.mp found
    obtain ⟨m, arguments, rfl⟩ := Option.map_eq_some_iff.mp found
    exact (balanced_of_isWord query).trans ((balanced_of_entityStop? entity).trans
      ((balanced_of_argumentsStop? arguments).trans (balanced_indexesStop m)))
  split at found
  case isTrue imported =>
    rw [Bool.and_eq_true] at imported
    obtain ⟨m, arguments, rfl⟩ := Option.map_eq_some_iff.mp found
    exact (balanced_of_isWord imported.1).trans ((balanced_of_opener imported.2 (by decide)).trans
      ((balanced_qualifiersStop _).trans
        ((balanced_of_argumentsStop? arguments).trans (balanced_indexesStop m))))
  case isFalse =>
    obtain ⟨k, entity, found⟩ := Option.bind_eq_some_iff.mp found
    obtain ⟨m, arguments, found⟩ := Option.bind_eq_some_iff.mp found
    have later := lt_entityStop? entity
    have later' := le_argumentsStop? arguments
    have named := (balanced_of_entityStop? entity).trans (balanced_of_argumentsStop? arguments)
    split at found
    case isTrue is =>
      have inside := p.lt_size_of_is is.1
      exact named.trans ((balanced_of_isWord is.1).trans (balanced_of_typeStop? found))
    case isFalse =>
      cases found
      exact named.trans (balanced_indexesStop m)
termination_by 6 * (p.tokens.size - i)
decreasing_by all_goals omega

theorem balanced_of_functionTypeStop? {i j : Nat} (found : p.functionTypeStop? i = some j) :
    p.Balanced i j := by
  rw [functionTypeStop?_eq] at found
  split at found
  case isTrue opens =>
    have inside := p.lt_size_of_is opens
    obtain ⟨k, arguments, found⟩ := Option.bind_eq_some_iff.mp found
    have later := lt_angleStop? arguments
    have angle := (balanced_of_isPunct opens (by decide)).trans (balanced_of_angleStop? arguments)
    exact angle.trans (balanced_of_signatureStop? found)
  case isFalse => exact balanced_of_signatureStop? found
termination_by 6 * (p.tokens.size - i) + 1
decreasing_by all_goals omega

theorem balanced_of_signatureStop? {i j : Nat} (found : p.signatureStop? i = some j) : p.Balanced i j := by
  rw [signatureStop?_eq] at found
  split at found
  case isTrue opens =>
    have inside := p.lt_size_of_is opens
    have later := p.lt_close i
    split at found
    case isTrue arrow =>
      exact (balanced_of_opener opens (by decide)).trans
        ((balanced_of_isPunct arrow (by decide)).trans (balanced_of_typeStop? found))
    case isFalse => cases found
  case isFalse => cases found
termination_by 6 * (p.tokens.size - i)
decreasing_by all_goals omega

end

/-! ## Constructs -/

theorem balanced_of_expectType {i j : Nat} (found : p.expectType i = .ok j) : p.Balanced i j := by
  unfold expectType at found
  split at found
  case h_1 k _ type =>
    cases found
    exact balanced_of_typeStop? (by rw [typeStop?, type]; rfl)
  case h_2 => cases found

/-- Type arguments, from their `<` on. -/
theorem balanced_of_angleEnd? {i : Nat} {k : After i} (opens : p.isPunct i "<" = true)
    (found : p.angleEnd? i = some k) : p.Balanced i k.1 := by
  obtain ⟨j, angle, rfl⟩ := Option.map_eq_some_iff.mp found
  exact (balanced_of_isPunct opens (by decide)).trans
    (@balanced_of_angleStop? p 0 _ _ (by rw [angleStop?, angle]; rfl))

theorem balanced_of_expectAngle {i j : Nat} (opens : p.isPunct i "<" = true)
    (found : p.expectAngle i = .ok j) : p.Balanced i j := by
  unfold expectAngle at found
  split at found
  case h_1 angle =>
    cases found
    exact balanced_of_angleEnd? opens angle
  case h_2 => cases found

/-- A token is told by its text, unless this is a bracket. -/
theorem balanced_of_text {i : Nat} {word : String} (same : p.text i = word)
    (other : word ∉ ["", "(", ")", "[", "]", openBrace, closeBrace]) : p.Balanced i (i + 1) := by
  rw [List.mem_cons, not_or] at other
  unfold text at same
  cases found : p.tokens[i]? with
  | none =>
    rw [found] at same
    exact absurd same.symm other.1
  | some t =>
    rw [found] at same
    refine .plain found ?_ (.refl _)
    have text : t.text = word := same
    simpa [Token.symbol, Symbol.isPlain, text] using Or.inr other.2

section Constructs

variable {w : Walker} {s s' : State}

theorem balanced_skipPunct (s : State) (text : String)
    (other : text ∉ ["(", ")", "[", "]", openBrace, closeBrace]) :
    p.Balanced s.pos (p.skipPunct s text).pos := by
  unfold skipPunct
  split
  case isTrue here => exact balanced_of_isPunct here other
  case isFalse => exact .refl _

theorem balanced_blankMarker (s : State) {text : String}
    (other : text ∉ ["(", ")", "[", "]", openBrace, closeBrace]) :
    p.Balanced s.pos (p.blankMarker s text).pos := by
  unfold blankMarker
  split
  case isTrue here => exact balanced_of_isPunct here other
  case isFalse => exact .refl _

theorem balanced_annotated (done : p.blankAnnotation s = .ok s') : p.Balanced s.pos s'.pos := by
  unfold blankAnnotation at done
  split at done
  case isTrue colon =>
    obtain ⟨j, type, done⟩ := bind_eq_ok.mp done
    cases done
    exact (balanced_of_isPunct colon (by decide)).trans (balanced_of_expectType type)
  case isFalse =>
    cases done
    exact .refl _

theorem balanced_blankTypeParameters (done : p.blankTypeParameters s = .ok s') :
    p.Balanced s.pos s'.pos := by
  unfold blankTypeParameters at done
  split at done
  case isTrue opens =>
    obtain ⟨j, angle, done⟩ := bind_eq_ok.mp done
    cases done
    exact balanced_of_expectAngle opens angle
  case isFalse =>
    cases done
    exact .refl _

/-- A walk through a bracket goes on behind it, wherever the walk within it has come. -/
theorem balanced_walkBracket {opener : String} (here : p.isPunct s.pos opener = true)
    (among : opener ∈ openers) (done : p.walkBracket w s = .ok s') : p.Balanced s.pos s'.pos := by
  obtain ⟨inside, -, done⟩ := bind_eq_ok.mp done
  cases done
  exact balanced_of_opener here among

theorem balanced_blankParameterModifiers (p : Program) (s : State) :
    p.Balanced s.pos (p.blankParameterModifiers s).pos := by
  fun_induction blankParameterModifiers p s with
  | case1 s here inside ih => exact (balanced_of_isOneOf here.1).trans ih
  | case2 s here => exact .refl _

theorem balanced_parameters {properties : List String} (opens : p.isPunct s.pos "(" = true)
    (done : p.parameters w s = .ok (s', properties)) : p.Balanced s.pos s'.pos := by
  obtain ⟨⟨inside, properties'⟩, -, done⟩ := bind_eq_ok.mp done
  cases done
  exact balanced_of_opener opens (by decide)

theorem balanced_signature (opens : p.isPunct s.pos "(" = true) (done : p.signature w s = .ok s') :
    p.Balanced s.pos s'.pos := by
  obtain ⟨⟨next, properties⟩, walked, done⟩ := bind_eq_ok.mp done
  have list := balanced_parameters opens walked
  dsimp only at done
  split at done
  · exact list.trans (balanced_annotated done)
  · cases done

theorem balanced_blankMemberModifiers (found : MemberModifiers) (s : State) :
    p.Balanced s.pos (p.blankMemberModifiers found s).1.pos := by
  fun_induction blankMemberModifiers p found s with
  | case1 found s modifies inside word next ih =>
    simp only [modifiesMember, Bool.and_eq_true] at modifies
    exact (balanced_of_isOneOf modifies.1.1).trans ih
  | case2 found s plain => exact .refl _

/-- Decorators, each with its name and its arguments. -/
theorem balanced_walkDecorators (done : p.walkDecorators w s = .ok s') : p.Balanced s.pos s'.pos := by
  fun_induction walkDecorators p w s with
  | case1 s decorator inside named called next e failed => cases done
  | case2 s decorator inside named called next after same ih =>
    have name : p.Balanced (s.pos + 1) named := by
      unfold named
      split
      case isTrue name => exact balanced_of_isName name
      case isFalse => exact .refl _
    have whole : p.Balanced (s.pos + 1) called.pos := name.trans (balanced_qualifiersStop named)
    have walked : p.Balanced (s.pos + 1) after.pos := by
      unfold next at same
      split at same
      case isTrue opens => exact whole.trans (balanced_walkBracket opens (by decide) same)
      case isFalse =>
        cases same
        exact whole
    have stays : (after.past s.pos).pos = after.pos := Nat.max_eq_left walked.le
    rw [stays] at ih
    exact (balanced_of_isPunct decorator (by decide)).trans (walked.trans (ih done))
  | case3 s plain =>
    cases done
    exact .refl _

theorem balanced_walkMemberName (done : p.walkMemberName w s = .ok s') : p.Balanced s.pos s'.pos := by
  have single {kind : TokenKind} (here : p.kind? s.pos = some kind) (other : kind ≠ .punct) :
      p.Balanced s.pos (s.pos + 1) := balanced_of_kind? (beq_iff_eq.mpr here) other
  unfold walkMemberName at done
  split at done
  case h_5 =>
    split at done
    case isTrue opens => exact balanced_walkBracket opens (by decide) done
    case isFalse => cases done
  all_goals
    cases done
    exact single ‹_› (by decide)

end Constructs

end Erase.Program

end ModuleLinker
