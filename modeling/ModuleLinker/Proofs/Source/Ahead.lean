import ModuleLinker.Proofs.Source.Appended
import ModuleLinker.Proofs.Source.Behind

/-!
# Scanning a text ahead of a blank

A text that ends with a token gives the same tokens where a space or a line feed and any other text
follow it, and scanning goes on there (`scanFrom_ahead`): no token runs into a blank, and neither does
what stands between two of them. A blank in front of a text does not matter either (`scanFrom_blank`).
-/

set_option autoImplicit false

namespace ModuleLinker

open Text

namespace Lexeme

/-! ## Tokens ahead of a blank -/

/-- Whether a character is a space or a line feed. -/
def Separates (b : Char) : Prop := b = ' ' ∨ b = '\n'

section Tokens

variable {b : Char} (separates : Separates b)
include separates

theorem nameLength_ahead (cs rest : List Char) : nameLength (cs ++ b :: rest) = nameLength cs := by
  have stops : (b :: rest).takeWhile (fun c => isNamePart c || c == '\\') = [] := by
    refine List.takeWhile_cons_of_neg ?_
    rcases separates with rfl | rfl <;> decide +kernel
  unfold nameLength
  rw [List.takeWhile_append]
  split
  case isTrue whole => rw [stops, List.append_nil, whole]
  case isFalse => rfl

theorem numberLength_ahead (hex : Bool) (last : Char) (n : Nat) (cs rest : List Char) :
    numberLength hex last n (cs ++ b :: rest) = numberLength hex last n cs := by
  fun_induction numberLength hex last n cs with
  | case1 last n =>
    have stops : (b.isAlphanum || b == '_' || b == '.') = false ∧ (b == '+' || b == '-') = false := by
      rcases separates with rfl | rfl <;> decide
    rw [List.nil_append, numberLength]
    exact if_neg (by rw [stops.1, stops.2]; simp)
  | case2 last n c cs goesOn ih => rw [List.cons_append, numberLength, if_pos goesOn, ih]
  | case3 last n c cs stops => rw [List.cons_append, numberLength, if_neg stops]

omit separates in
/-- Characters without a blank start a text whether a blank follows it or not. -/
theorem isPrefixOf_ahead {op cs : List Char} (noBlank : b ∉ op) (rest : List Char) :
    op.isPrefixOf (cs ++ b :: rest) = op.isPrefixOf cs := by
  induction op generalizing cs with
  | nil => rfl
  | cons o op ih =>
    rw [List.mem_cons, not_or] at noBlank
    cases cs with
    | nil =>
      have other : (o == b) = false := beq_eq_false_iff_ne.mpr (Ne.symm noBlank.1)
      simp [List.isPrefixOf, other]
    | cons c cs => rw [List.cons_append, List.isPrefixOf, List.isPrefixOf, ih noBlank.2]

omit separates in
theorem noBlank_of_mem_operators : ∀ op ∈ operators, op.toList.contains ' ' = false := by
  decide +kernel

omit separates in
theorem noLineFeed_of_mem_operators : ∀ op ∈ operators, op.toList.contains '\n' = false := by
  decide +kernel

omit separates in
theorem head?_ahead {cs rest : List Char} {test : Char → Bool} (other : test b = false) :
    (cs ++ b :: rest).head?.any test = cs.head?.any test := by
  cases cs with
  | nil => exact other
  | cons => rfl

theorem head?_beq_ahead {c : Char} (other : c ≠ ' ' ∧ c ≠ '\n') (cs rest : List Char) :
    ((cs ++ b :: rest).head? == some c) = (cs.head? == some c) := by
  have other : b ≠ c := by
    rcases separates with rfl | rfl
    · exact other.1.symm
    · exact other.2.symm
  cases cs with
  | nil => simpa using other
  | cons => rfl

theorem operator?_ahead (cs rest : List Char) : operator? (cs ++ b :: rest) = operator? cs := by
  have same : (operators.find? fun op => op.toList.isPrefixOf (cs ++ b :: rest)) =
      operators.find? fun op => op.toList.isPrefixOf cs := by
    refine List.find?_congr fun op mem => isPrefixOf_ahead ?_ rest
    rcases separates with rfl | rfl
    · simpa using noBlank_of_mem_operators op mem
    · simpa using noLineFeed_of_mem_operators op mem
  unfold operator?
  rw [same]
  cases found : operators.find? fun op => op.toList.isPrefixOf cs with
  | none => rfl
  | some op =>
    by_cases access : op = "?."
    · subst access
      obtain ⟨isPrefix, -⟩ := List.find?_eq_some_iff_append.mp found
      obtain ⟨more, rfl⟩ := List.isPrefixOf_iff_prefix.mp isPrefix
      have digit : (more ++ b :: rest).head?.any Char.isDigit = more.head?.any Char.isDigit :=
        head?_ahead (by rcases separates with rfl | rfl <;> decide)
      change (if (decide ("?." = "?.") && (more ++ b :: rest).head?.any Char.isDigit) = true then _
        else _) = (if (decide ("?." = "?.") && more.head?.any Char.isDigit) = true then _ else _)
      rw [digit]
    · simp only [access, decide_false, Bool.false_and]

/-- A token is cut off in the same way ahead of a blank. -/
theorem extent_ahead {allowed : Bool} {pos : Nat} {c : Char} {cs : List Char} {found : Extent}
    (cut : extent allowed pos c cs = .ok found) (rest : List Char) :
    extent allowed pos c (cs ++ b :: rest) = .ok found := by
  have digit : b.isDigit = false := by rcases separates with rfl | rfl <;> decide
  have start : isNameStart b = false := by rcases separates with rfl | rfl <;> decide +kernel
  unfold extent at cut ⊢
  dsimp only at cut ⊢
  rw [head?_ahead digit, head?_beq_ahead separates (by decide), head?_beq_ahead separates (by decide),
    head?_ahead start, numberLength_ahead separates, nameLength_ahead separates, ← List.cons_append,
    operator?_ahead separates]
  split at cut
  case isTrue quote =>
    rw [if_pos quote]
    split at cut
    case h_1 => cases cut
    case h_2 n closes => rw [quotedLength?_of_closed closes, ← cut]
  case isFalse noQuote =>
  rw [if_neg noQuote]
  split at cut
  case isTrue mark =>
    obtain ⟨⟨stop, holes⟩, ends, cut⟩ := bind_eq_ok.mp cut
    rw [if_pos mark]
    exact bind_eq_ok.mpr ⟨_, template_append ends _, cut⟩
  case isFalse noMark =>
  rw [if_neg noMark]
  split at cut
  case isTrue number => rw [if_pos number, ← cut]
  case isFalse noNumber =>
  rw [if_neg noNumber]
  split at cut
  case isTrue hash => rw [if_pos hash, ← cut]
  case isFalse noHash =>
  rw [if_neg noHash]
  split at cut
  case isTrue slash =>
    rw [if_pos slash]
    split at cut
    case h_1 => cases cut
    case h_2 n closes =>
      have le := regexLength?_le closes
      rw [Nat.zero_add] at le
      rw [regexLength?_of_closed closes]
      dsimp only
      rw [List.drop_append_of_le_length le, nameLength_ahead separates, ← cut]
  case isFalse noSlash => rw [if_neg noSlash, ← cut]

/-! ## Gaps ahead of a blank -/

/-- A gap in front of a token is the same ahead of a blank. -/
theorem gap_ahead {pos : Nat} {before space : Gap} {cs : List Char} (passed : gap pos before cs = .ok space)
    (token : cs.drop (space.length - before.length) ≠ []) (rest : List Char) :
    gap pos before (cs ++ b :: rest) = .ok space := by
  fun_induction gap pos before cs with
  | case1 => exact absurd List.drop_nil token
  | case2 pos before c cs lineEnd ih =>
    have le := le_length_gap passed
    have place : space.length - before.length = space.length - (before.length + 1) + 1 := by
      dsimp only at le
      omega
    rw [place, List.drop_succ_cons] at token
    rw [List.cons_append, gap, if_pos lineEnd]
    exact ih passed token
  | case3 pos before c cs noEnd blank ih =>
    have le := le_length_gap passed
    have place : space.length - before.length = space.length - (before.length + 1) + 1 := by
      dsimp only at le
      omega
    rw [place, List.drop_succ_cons] at token
    rw [List.cons_append, gap, if_neg noEnd, if_pos blank]
    exact ih passed token
  | case4 pos before c cs noEnd noBlank slashes n ih =>
    have le := le_length_gap passed
    have place : space.length - before.length = n + (space.length - (before.length + 1 + n)) + 1 := by
      dsimp only at le
      omega
    rw [place, List.drop_succ_cons, ← List.drop_drop] at token
    have less : lineLength cs < cs.length := by
      have some : cs.drop n ≠ [] := fun none => token (by rw [none, List.drop_nil])
      rwa [ne_eq, List.drop_eq_nil_iff, Nat.not_le] at some
    rw [List.cons_append, gap, if_neg noEnd, if_neg noBlank, head?_beq_ahead separates (by decide), if_pos slashes,
      lineLength_append less]
    dsimp only
    rw [List.drop_append_of_le_length (Nat.le_of_lt less)]
    exact ih passed token
  | case5 => cases passed
  | case6 pos before c cs noEnd noBlank noLine opens n closes newline ih =>
    have le := le_length_gap passed
    have place : space.length - before.length = n + (space.length - (before.length + 1 + n)) + 1 := by
      dsimp only at le
      omega
    rw [place, List.drop_succ_cons, ← List.drop_drop] at token
    have less : n < cs.length := by
      have some : cs.drop n ≠ [] := fun none => token (by rw [none, List.drop_nil])
      rwa [ne_eq, List.drop_eq_nil_iff, Nat.not_le] at some
    have closes' : blockLength? 1 ((cs ++ b :: rest).drop 1) = some n := by
      rw [List.drop_append_of_le_length (Nat.lt_of_le_of_lt (Nat.zero_le n) less)]
      exact blockLength?_of_closed closes _
    rw [List.cons_append, gap, if_neg noEnd, if_neg noBlank, head?_beq_ahead separates (by decide),
      if_neg noLine, head?_beq_ahead separates (by decide), if_pos opens, closes']
    dsimp only
    rw [List.take_append_of_le_length (Nat.le_of_lt less), List.drop_append_of_le_length (Nat.le_of_lt less)]
    exact ih passed token
  | case7 pos before c cs noEnd noBlank noLine noBlock =>
    rw [List.cons_append, gap, if_neg noEnd, if_neg noBlank, head?_beq_ahead separates (by decide),
      if_neg noLine, head?_beq_ahead separates (by decide), if_neg noBlock, passed]

end Tokens

/-- A gap that comes behind another one. -/
theorem gap_further (n : Nat) {pos : Nat} {before space : Gap} {cs : List Char}
    (passed : gap pos before cs = .ok space) :
    gap pos ⟨before.length + n, before.newline⟩ cs = .ok ⟨space.length + n, space.newline⟩ := by
  fun_induction gap pos before cs with
  | case1 =>
    cases passed
    rw [gap]
  | case2 pos before c cs lineEnd ih =>
    rw [gap, if_pos lineEnd, ← ih passed]
    dsimp only
    rw [Nat.add_right_comm]
  | case3 pos before c cs noEnd blank ih =>
    rw [gap, if_neg noEnd, if_pos blank, ← ih passed]
    dsimp only
    rw [Nat.add_right_comm]
  | case4 pos before c cs noEnd noBlank slashes k ih =>
    have place : before.length + n + 1 + k = before.length + 1 + k + n := by omega
    rw [gap, if_neg noEnd, if_neg noBlank, if_pos slashes, ← ih passed]
    dsimp only
    rw [place]
  | case5 => cases passed
  | case6 pos before c cs noEnd noBlank noLine opens k closes newline ih =>
    have place : before.length + n + 1 + k = before.length + 1 + k + n := by omega
    rw [gap, if_neg noEnd, if_neg noBlank, if_neg noLine, if_pos opens, closes, ← ih passed]
    dsimp only
    rw [place]
  | case7 pos before c cs noEnd noBlank noLine noBlock =>
    cases passed
    rw [gap, if_neg noEnd, if_neg noBlank, if_neg noLine, if_neg noBlock]

/-- Where no line ends, none ends in a gap. -/
theorem gap_newline {pos : Nat} {before space : Gap} {cs : List Char}
    (passed : gap pos before cs = .ok space) (oneLine : ∀ c ∈ cs, isLineEnd c = false) :
    space.newline = before.newline := by
  fun_induction gap pos before cs with
  | case1 =>
    cases passed
    rfl
  | case2 pos before c cs lineEnd ih =>
    rw [oneLine c List.mem_cons_self] at lineEnd
    cases lineEnd
  | case3 pos before c cs noEnd blank ih => exact ih passed fun d mem => oneLine d (List.mem_cons_of_mem _ mem)
  | case4 pos before c cs noEnd noBlank slashes n ih =>
    exact ih passed fun d mem => oneLine d (List.mem_cons_of_mem _ (List.mem_of_mem_drop mem))
  | case5 => cases passed
  | case6 pos before c cs noEnd noBlank noLine opens n closes newline ih =>
    have none : newline = false := by
      rw [Bool.eq_false_iff]
      intro ends
      obtain ⟨d, mem, ends⟩ := List.any_eq_true.mp ends
      have inside := oneLine d (List.mem_cons_of_mem _ (List.mem_of_mem_take mem))
      simp only [isLineEnd, Bool.or_eq_false_iff] at inside
      simp_all
    rw [ih passed fun d mem => oneLine d (List.mem_cons_of_mem _ (List.mem_of_mem_drop mem)), none,
      Bool.or_false]
  | case7 =>
    cases passed
    rfl

end Lexeme

open Lexeme

/-! ## Texts ahead of a blank -/

/-- A blank in front of a text belongs to the gap that the text starts with. -/
theorem scanFrom_blank {done tokens : Array Token} {pos : Nat} {cs : List Char}
    (scanned : scanFrom done (pos + 1) cs = .ok tokens) : scanFrom done pos (' ' :: cs) = .ok tokens := by
  rw [scanFrom] at scanned
  obtain ⟨space, passed, scanned⟩ := bind_eq_ok.mp scanned
  have between : gap pos ⟨0, false⟩ (' ' :: cs) = .ok ⟨space.length + 1, space.newline⟩ := by
    rw [gap, if_neg (by decide +kernel), if_pos (by decide +kernel)]
    exact gap_further 1 passed
  split at scanned
  case h_1 none =>
    rw [scanFrom, between]
    simp only [bind, Except.bind]
    split
    case h_1 => exact scanned
    case h_2 c more some =>
      rw [List.drop_succ_cons, none] at some
      cases some
  case h_2 c more some =>
    obtain ⟨found, cut, scanned⟩ := bind_eq_ok.mp scanned
    have place : pos + 1 + space.length = pos + (space.length + 1) := by omega
    rw [place] at cut scanned
    rw [scanFrom_cons between (List.drop_succ_cons.trans some) cut]
    exact scanned

/-- Scanning goes on at the blank behind a text that ends with a token. -/
theorem scanFrom_ahead {b : Char} (separates : Separates b) {done tokens : Array Token} {pos : Nat}
    {cs : List Char} (scanned : scanFrom done pos cs = .ok tokens) (before : ∀ t ∈ done.back?, t.stop ≤ pos)
    (ends : ∃ t ∈ tokens.back?, t.stop = pos + cs.length) (rest : List Char) :
    scanFrom done pos (cs ++ b :: rest) = scanFrom tokens (pos + cs.length) (b :: rest) := by
  rw [scanFrom] at scanned
  obtain ⟨space, passed, scanned⟩ := bind_eq_ok.mp scanned
  split at scanned
  case h_1 none =>
    cases scanned
    obtain ⟨t, last, stop⟩ := ends
    have le := before t last
    obtain rfl : cs = [] := List.eq_nil_of_length_eq_zero (by omega)
    rfl
  case h_2 c more some =>
    obtain ⟨found, cut, scanned⟩ := bind_eq_ok.mp scanned
    have le := extent_more_le cut
    have size : cs.length = space.length + 1 + more.length := by
      have := congrArg List.length some
      rw [List.length_drop, List.length_cons] at this
      omega
    have between : gap pos ⟨0, false⟩ (cs ++ b :: rest) = .ok space :=
      gap_ahead separates passed (by rw [Nat.sub_zero, some]; exact List.cons_ne_nil _ _) rest
    have place : (cs ++ b :: rest).drop space.length = c :: (more ++ b :: rest) := by
      rw [List.drop_append_of_le_length (by omega), some, List.cons_append]
    have shorter : (more.drop found.more).length < cs.length := by
      rw [List.length_drop]
      omega
    have last : pos + space.length + 1 + found.more + (more.drop found.more).length = pos + cs.length := by
      rw [List.length_drop]
      omega
    rw [scanFrom_cons between place (extent_ahead separates cut rest), List.take_append_of_le_length le,
      List.drop_append_of_le_length le, ← last]
    refine scanFrom_ahead separates scanned (fun t mem => ?_) (last ▸ ends) rest
    rw [Array.back?_push, Option.mem_some_iff] at mem
    subst mem
    rw [Token.stop, String.length_ofList, List.length_cons, List.length_take, Nat.min_eq_left le]
    dsimp only
    omega
termination_by cs.length
decreasing_by exact shorter

/-- Where no line ends, no token starts a line. -/
theorem scanFrom_oneLine {done tokens : Array Token} {pos : Nat} {cs : List Char}
    (scanned : scanFrom done pos cs = .ok tokens) (oneLine : ∀ c ∈ cs, isLineEnd c = false)
    (before : ∀ t ∈ done, t.newlineBefore = false) : ∀ t ∈ tokens, t.newlineBefore = false := by
  rw [scanFrom] at scanned
  obtain ⟨space, passed, scanned⟩ := bind_eq_ok.mp scanned
  split at scanned
  case h_1 none =>
    cases scanned
    exact before
  case h_2 c more some =>
    obtain ⟨found, cut, scanned⟩ := bind_eq_ok.mp scanned
    have shorter : (more.drop found.more).length < cs.length := by
      have := congrArg List.length some
      rw [List.length_drop, List.length_cons] at this
      rw [List.length_drop]
      omega
    refine scanFrom_oneLine scanned (fun d mem => oneLine d ?_) fun t mem => ?_
    · refine List.mem_of_mem_drop (i := space.length) ?_
      rw [some]
      exact List.mem_cons_of_mem _ (List.mem_of_mem_drop mem)
    · rcases Array.mem_push.mp mem with mem | rfl
      · exact before t mem
      · exact gap_newline passed oneLine
termination_by cs.length
decreasing_by exact shorter

end ModuleLinker
