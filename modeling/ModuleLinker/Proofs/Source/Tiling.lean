import Mathlib
import ModuleLinker.Source.Location
import ModuleLinker.Proofs.Source.Filler
import ModuleLinker.Proofs.Source.Holes
import ModuleLinker.Proofs.Source.Spelling
import ModuleLinker.Proofs.Source.Tokens

/-!
# Tokens and gaps tile a text

A text that can be scanned is its tokens with gaps before, between and behind them. The tokens follow
each other, each as long as it can be where it is a punctuator; what lies in the gaps is blank or a
comment, and a token knows whether a line ends in the gap before it. The substitutions lie in the
template literals, one after another, each between its marks. Main statement: `scan_tiles`.

The induction is on the scan (`scanFrom_tiled`): it takes a gap and a token off the text at a time,
and `Tiled` keeps what each of them is.
-/

set_option autoImplicit false

namespace ModuleLinker

open Lexeme Text

/-! ## Places in bytes -/

theorem byteLength_cons (c : Char) (cs : List Char) :
    byteLength (c :: cs) = c.utf8Size + byteLength cs := by
  have shifted (n : Nat) (cs : List Char) :
      cs.foldl (fun n c => n + c.utf8Size) n = n + cs.foldl (fun n c => n + c.utf8Size) 0 := by
    induction cs generalizing n with
    | nil => rfl
    | cons c cs ih =>
      rw [List.foldl_cons, List.foldl_cons, ih, ih (0 + c.utf8Size)]
      omega
  rw [byteLength, List.foldl_cons, shifted, Nat.zero_add, byteLength]

/-- The place of a character in bytes is the start of a character. -/
theorem charOffset?_byteOffset {cs : List Char} {n : Nat} (le : n ≤ cs.length) :
    charOffset? cs (byteOffset cs n) = some n := by
  induction cs generalizing n with
  | nil =>
    obtain rfl : n = 0 := Nat.le_zero.mp le
    rfl
  | cons c cs ih =>
    cases n with
    | zero => rfl
    | succ n =>
      have size := c.utf8Size_pos
      have bytes : byteOffset (c :: cs) (n + 1) = c.utf8Size + byteOffset cs n := by
        rw [byteOffset, List.take_succ_cons, byteLength_cons, byteOffset]
      obtain ⟨m, eq⟩ : ∃ m, c.utf8Size + byteOffset cs n = m + 1 :=
        Nat.exists_eq_add_one.mpr (by omega)
      rw [bytes, eq, charOffset?, ← eq, if_pos (by omega), Nat.add_sub_cancel_left,
        ih (Nat.le_of_succ_le_succ le), Option.map_some]

/-! ## Punctuators -/

/-- Whether a text starts with the mark of an optional access before a digit. -/
def startsConditional : List Char → Bool
  | '?' :: '.' :: cs => cs.head?.any Char.isDigit
  | _ => false

/-- Whether a punctuator is the one that a text starts with: the longest of all that it starts with,
except that a question mark stands alone before a number that starts with a point. -/
def IsOperatorAt (op : String) (cs : List Char) : Prop :=
  if startsConditional cs then op = "?"
  else op ∈ operators ∧ op.toList <+: cs ∧
    ∀ other ∈ operators, other.toList <+: cs → other.toList.length ≤ op.toList.length

theorem operator?_spec {cs : List Char} {op : String} (found : operator? cs = some op) :
    IsOperatorAt op cs := by
  unfold operator? at found
  split at found
  case h_1 => cases found
  case h_2 first here =>
    obtain ⟨isPrefix, front, back, table, shorter⟩ := List.find?_eq_some_iff_append.mp here
    rw [List.isPrefixOf_iff_prefix] at isPrefix
    have conditional : startsConditional cs =
        (decide (first = "?.") && ((cs.drop 2).head?.any Char.isDigit)) := by
      by_cases access : "?.".toList <+: cs
      · obtain ⟨rest, rfl⟩ := access
        have only : operators.find? (fun op => op.toList.isPrefixOf ('?' :: '.' :: rest)) =
            some "?." := rfl
        obtain rfl : "?." = first := Option.some.inj (only.symm.trans here)
        rfl
      · have other : first ≠ "?." := by
          rintro rfl
          exact access isPrefix
        rw [decide_eq_false other, Bool.false_and]
        unfold startsConditional
        split
        case h_1 rest => exact absurd (List.prefix_append "?.".toList rest) access
        case h_2 => rfl
    unfold IsOperatorAt
    rw [conditional]
    split at found
    case isTrue special =>
      cases found
      rw [if_pos special]
    case isFalse plain =>
      cases found
      rw [if_neg plain]
      refine ⟨table ▸ List.mem_append_right _ List.mem_cons_self, isPrefix, fun other mem fits => ?_⟩
      rw [table, List.mem_append, List.mem_cons] at mem
      rcases mem with mem | rfl | mem
      · have := shorter other mem
        rw [Bool.not_eq_true', Bool.eq_false_iff] at this
        exact absurd (List.isPrefixOf_iff_prefix.mpr fits) this
      · exact Nat.le_refl _
      · have ordered := Symbol.operators_pairwise
        rw [table, List.pairwise_append, List.pairwise_cons] at ordered
        exact (ordered.2.1.1 other mem).1

/-- A text starts with its punctuator, which has at least one character. -/
theorem IsOperatorAt.isPrefix {op : String} {cs : List Char} (here : IsOperatorAt op cs) :
    op.toList <+: cs ∧ op.toList ≠ [] := by
  unfold IsOperatorAt at here
  split at here
  case isTrue conditional =>
    unfold startsConditional at conditional
    split at conditional
    case h_1 =>
      rw [here]
      exact ⟨List.prefix_append ['?'] _, by decide⟩
    case h_2 => cases conditional
  case isFalse =>
    have some : ∀ op ∈ operators, op.toList ≠ [] := by decide +kernel
    exact ⟨here.2.1, some op here.1⟩

/-- What is cut off as a punctuator is the one that the text starts with. -/
theorem isOperatorAt_of_extent {regexAllowed : Bool} {pos : Nat} {c : Char} {cs : List Char}
    {found : Extent} (done : extent regexAllowed pos c cs = .ok found) (punct : found.kind = .punct) :
    IsOperatorAt (String.ofList (c :: cs.take found.more)) (c :: cs) := by
  unfold extent at done
  dsimp only at done
  split at done
  · split at done <;> cases done
    cases punct
  split at done
  · obtain ⟨⟨stop, holes⟩, -, done⟩ := bind_eq_ok.mp done
    cases done
    cases punct
  split at done
  · cases done
    cases punct
  split at done
  · split at done <;> cases done
    cases punct
  split at done
  · split at done <;> cases done
    cases punct
  split at done
  · cases done
    cases punct
  split at done
  · cases done
  case h_2 op here =>
    cases done
    have isOperator := operator?_spec here
    have same : c :: cs.take (op.length - 1) = op.toList := by
      obtain ⟨isPrefix, some⟩ := isOperator.isPrefix
      obtain ⟨d, more, chars⟩ := List.exists_cons_of_ne_nil some
      rw [chars] at isPrefix ⊢
      obtain ⟨rfl, tail⟩ := List.cons_prefix_cons.mp isPrefix
      have size : op.length - 1 = more.length := by
        rw [← String.length_toList, chars, List.length_cons, Nat.add_sub_cancel]
      rw [size, ← List.prefix_iff_eq_take.mp tail]
    rw [same, String.ofList_toList]
    exact isOperator

/-! ## Tokens and gaps -/

/-- Whether a token is what scanning takes off a text, and what it leaves of the text. -/
def Token.IsHeadOf (t : Token) (cs rest : List Char) : Prop :=
  ∃ regexAllowed c more found, cs = c :: more ∧ extent regexAllowed t.start c more = .ok found ∧
    t.kind = found.kind ∧ t.text = String.ofList (c :: more.take found.more) ∧
    t.holes = found.holes ∧ rest = more.drop found.more

/-- Whether a text that lies at an offset consists of these tokens with gaps before, between and
behind them. -/
inductive Tiled : Nat → List Char → List Token → Prop
  /-- Behind the last token there is a gap. -/
  | nil {pos : Nat} {fillers : List Filler} : Fills pos fillers [] → Tiled pos (gapText fillers) []
  /-- In front of each token there is one. -/
  | cons {pos : Nat} {fillers : List Filler} {t : Token} {cs rest : List Char} {ts : List Token} :
    Fills pos fillers cs → t.start = pos + (gapText fillers).length →
      t.newlineBefore = fillers.any Filler.endsLine → t.IsHeadOf cs rest → Tiled t.stop rest ts →
        Tiled pos (gapText fillers ++ cs) (t :: ts)

/-- A token is as long as what is taken off the text. -/
theorem Token.IsHeadOf.append {t : Token} {cs rest : List Char} (head : t.IsHeadOf cs rest) :
    cs = t.text.toList ++ rest := by
  obtain ⟨_, c, more, found, rfl, -, -, text, -, rfl⟩ := head
  rw [text, String.toList_ofList, List.cons_append, List.take_append_drop]

theorem Token.IsHeadOf.length_pos {t : Token} {cs rest : List Char} (head : t.IsHeadOf cs rest) :
    0 < t.text.length := by
  obtain ⟨_, c, more, found, -, -, -, text, -, -⟩ := head
  rw [text, String.length_ofList, List.length_cons]
  exact Nat.succ_pos _

theorem scanFrom_nil (done : Array Token) (pos : Nat) : scanFrom done pos [] = .ok done := by
  rw [scanFrom, gap]
  rfl

/-- Scanning a text cuts it into tokens and gaps. -/
theorem scanFrom_tiled {cs : List Char} {pos : Nat} {done tokens : Array Token}
    (scanned : scanFrom done pos cs = .ok tokens) :
    ∃ new, tokens.toList = done.toList ++ new ∧ Tiled pos cs new := by
  rw [scanFrom] at scanned
  obtain ⟨space, passed, scanned⟩ := bind_eq_ok.mp scanned
  obtain ⟨fillers, rest, text, fills, size, newline⟩ := gap_spec passed pos
  rw [Nat.zero_add] at size
  rw [Bool.false_or] at newline
  have behind : cs.drop space.length = rest := by rw [text, List.drop_left' size.symm]
  split at scanned
  case h_1 none =>
    obtain rfl : rest = [] := behind.symm.trans none
    cases scanned
    rw [text, List.append_nil]
    exact ⟨[], (List.append_nil _).symm, .nil fills⟩
  case h_2 c more place =>
    obtain rfl : rest = c :: more := behind.symm.trans place
    obtain ⟨found, cut, scanned⟩ := bind_eq_ok.mp scanned
    have head : Token.IsHeadOf ⟨found.kind, pos + space.length,
        String.ofList (c :: more.take found.more), space.newline, found.holes⟩ (c :: more)
        (more.drop found.more) := ⟨_, c, more, found, rfl, cut, rfl, rfl, rfl, rfl⟩
    have shorter : (more.drop found.more).length < cs.length := by
      rw [text, List.length_append, List.length_cons, List.length_drop]
      omega
    rw [text]
    by_cases le : found.more ≤ more.length
    · have stop : pos + space.length + 1 + found.more = Token.stop ⟨found.kind, pos + space.length,
          String.ofList (c :: more.take found.more), space.newline, found.holes⟩ := by
        rw [Token.stop, String.length_ofList, List.length_cons, List.length_take, Nat.min_eq_left le]
        dsimp only
        omega
      rw [stop] at scanned
      obtain ⟨new, same, tiled⟩ := scanFrom_tiled scanned
      refine ⟨_ :: new, ?_, .cons fills ?_ newline head tiled⟩
      · rw [same, Array.toList_push, List.append_assoc, List.singleton_append]
      · rw [size]
    · have none : more.drop found.more = [] := List.drop_eq_nil_of_le (by omega)
      rw [none] at scanned head
      rw [scanFrom_nil] at scanned
      cases scanned
      refine ⟨[_], Array.toList_push .., .cons fills ?_ newline head (.nil (.nil ..))⟩
      rw [size]
termination_by cs.length
decreasing_by exact shorter

/-! ## Places in the text -/

/-- A line ends in some fillers where one of them has a line feed or a carriage return, or is another
line end outside comments. -/
theorem any_endsLine_iff (fillers : List Filler) :
    fillers.any Filler.endsLine = true ↔ (∃ c ∈ gapText fillers, c = '\n' ∨ c = '\r') ∨
      ∃ c, Filler.blank c ∈ fillers ∧ (c = '\u2028' ∨ c = '\u2029') := by
  have single (filler : Filler) : filler.endsLine = true ↔ (∃ c ∈ filler.text, c = '\n' ∨ c = '\r') ∨
      ∃ c, Filler.blank c = filler ∧ (c = '\u2028' ∨ c = '\u2029') := by
    cases filler <;> simp [Filler.endsLine, Filler.text, isLineEnd, or_assoc, or_and_right, exists_or]
  simp only [List.any_eq_true, single, gapText, List.mem_flatMap]
  constructor
  · rintro ⟨filler, mem, ⟨c, inside, ends⟩ | ⟨c, rfl, ends⟩⟩
    · exact .inl ⟨c, ⟨filler, mem, inside⟩, ends⟩
    · exact .inr ⟨c, mem, ends⟩
  · rintro (⟨c, ⟨filler, mem, inside⟩, ends⟩ | ⟨c, mem, ends⟩)
    · exact ⟨filler, mem, .inl ⟨c, inside, ends⟩⟩
    · exact ⟨_, mem, .inr ⟨c, rfl, ends⟩⟩

/-- Whether what stands in a text between some tokens, the first of which can start at `pos`, and the
ones after them is a gap, and the next token knows whether a line ends in it. -/
def IsGapBetween (source : List Char) (pos : Nat) (before after : List Token) : Prop :=
  let start := (before.getLast?.map Token.stop).getD pos
  let stop := (after.head?.map Token.start).getD source.length
  start ≤ stop ∧ ∃ fillers, (source.drop start).take (stop - start) = gapText fillers ∧
    Fills start fillers (source.drop stop) ∧
    ∀ t ∈ after.head?, t.newlineBefore = true ↔
      (∃ c ∈ gapText fillers, c = '\n' ∨ c = '\r') ∨
        ∃ c, Filler.blank c ∈ fillers ∧ (c = '\u2028' ∨ c = '\u2029')

/-- Whether a substitution stands between its marks in a template literal among some tokens, and in no
other token. -/
def Hole.LiesInOne (h : Hole) (source : List Char) (tokens : List Token) : Prop :=
  '$' :: '\x7b' :: (h.text ++ ['\x7d']) <+: source.drop (h.start - 2) ∧
    ∃ t ∈ tokens, t.kind = .template ∧ t.start + 2 < h.start ∧ h.stop + 1 < t.stop ∧
      ∀ t' ∈ tokens, t'.start < h.start → h.stop < t'.stop → t' = t

/-- Whether tokens and the gaps around them make up a text. -/
structure Tiles (tokens : List Token) (source : List Char) : Prop where
  /-- A token has characters, and they stand where it says. -/
  spans : ∀ t ∈ tokens, t.start < t.stop ∧ t.stop ≤ source.length ∧
    (source.drop t.start).take (t.stop - t.start) = t.text.toList
  /-- In bytes, too, a token starts and stops between two characters. -/
  boundaries : ∀ t ∈ tokens, charOffset? source (byteOffset source t.start) = some t.start ∧
    charOffset? source (byteOffset source t.stop) = some t.stop
  /-- A token starts where the ones before it have stopped, or later. -/
  inOrder : tokens.Pairwise fun t t' => t.stop ≤ t'.start
  /-- Before, between and behind the tokens there are gaps. -/
  gaps : ∀ before after, before ++ after = tokens → IsGapBetween source 0 before after
  /-- A punctuator is the one that the text starts with there. -/
  punctuators : ∀ t ∈ tokens, t.kind = .punct → IsOperatorAt t.text (source.drop t.start)
  /-- A substitution stands between its marks in one template literal. -/
  holes : ∀ h ∈ tokens.flatMap Token.holes, h.LiesInOne source tokens
  /-- A substitution starts after the ones before it have stopped. -/
  holesInOrder : (tokens.flatMap Token.holes).Pairwise fun h h' => h.stop < h'.start

/-- What stands in the rest of a text and what remains behind it stand so in the text. -/
theorem rest_of_drop_eq {source front rest : List Char} {pos : Nat}
    (place : source.drop pos = front ++ rest) : source.drop (pos + front.length) = rest := by
  rw [← List.drop_drop, place, List.drop_left]

/-- Each token is what scanning takes off the text at its place. -/
theorem Tiled.exists_head {source cs : List Char} {pos : Nat} {tokens : List Token}
    (tiled : Tiled pos cs tokens) (place : source.drop pos = cs) :
    ∀ t ∈ tokens, ∃ rest, t.IsHeadOf (source.drop t.start) rest := by
  induction tiled with
  | nil => exact fun _ mem => by cases mem
  | @cons pos fillers t cs rest ts fills start newline head tiled ih =>
    have there : source.drop t.start = cs := by
      rw [start]
      exact rest_of_drop_eq place
    rw [List.forall_mem_cons]
    refine ⟨⟨rest, by rwa [there]⟩, ih ?_⟩
    rw [Token.stop, ← String.length_toList]
    exact rest_of_drop_eq (there.trans head.append)

/-- Between its tokens a text has gaps. -/
theorem Tiled.gap {source cs : List Char} {pos : Nat} {tokens : List Token}
    (tiled : Tiled pos cs tokens) (place : source.drop pos = cs) (le : pos ≤ source.length)
    {before after : List Token} (split : before ++ after = tokens) :
    IsGapBetween source pos before after := by
  induction tiled generalizing before with
  | @nil pos fillers fills =>
    obtain ⟨rfl, rfl⟩ := List.append_eq_nil_iff.mp split
    refine ⟨le, fillers, ?_, ?_, fun t mem => by cases mem⟩
    · change (source.drop pos).take (source.length - pos) = _
      rw [← List.length_drop, List.take_length, place]
    · change Fills pos fillers (source.drop source.length)
      rwa [List.drop_length]
  | @cons pos fillers t cs rest ts fills start newline head tiled ih =>
    have there : source.drop t.start = cs := by
      rw [start]
      exact rest_of_drop_eq place
    cases before with
    | nil =>
      obtain rfl : after = t :: ts := split
      refine ⟨?_, fillers, ?_, ?_, fun t' mem => ?_⟩
      · change pos ≤ t.start
        omega
      · change (source.drop pos).take (t.start - pos) = _
        rw [place, start, Nat.add_sub_cancel_left, List.take_left]
      · change Fills pos fillers (source.drop t.start)
        rwa [there]
      · obtain rfl : t = t' := by simpa using mem
        rw [newline, any_endsLine_iff]
    | cons t' before =>
      obtain ⟨rfl, others⟩ := List.cons.inj split
      have behind : source.drop t'.stop = rest := by
        rw [Token.stop, ← String.length_toList]
        exact rest_of_drop_eq (there.trans head.append)
      have last : ((t' :: before).getLast?.map Token.stop).getD pos =
          (before.getLast?.map Token.stop).getD t'.stop := by
        rw [List.getLast?_cons]
        cases before.getLast? <;> rfl
      have inside : t'.stop ≤ source.length := by
        have size := congrArg List.length (there.trans head.append)
        have some := head.length_pos
        rw [List.length_drop, List.length_append, String.length_toList] at size
        rw [Token.stop]
        omega
      have gap := ih behind inside others
      unfold IsGapBetween at gap ⊢
      rwa [last]

/-- The line that names an interpreter is part of the first gap. -/
theorem Tiled.prepend {body cs : List Char} {tokens : List Token} (line : Filler.IsLine body cs)
    (tiled : Tiled (body.length + 2) cs tokens) : Tiled 0 ('#' :: '!' :: (body ++ cs)) tokens := by
  have whole (front rest : List Char) : '#' :: '!' :: (body ++ (front ++ rest)) =
      (Filler.interpreterLine body).text ++ front ++ rest := by simp [Filler.text]
  have noEnd : (Filler.interpreterLine body).endsLine = false := line.not_any
  have length : 0 + (Filler.interpreterLine body).text.length = body.length + 2 := by
    simp [Filler.text]
  cases tiled with
  | @nil _ fillers fills =>
    have split := whole (gapText fillers) []
    rw [List.append_nil, List.append_nil] at split
    rw [split, ← gapText_cons]
    exact .nil (.cons ⟨rfl, by rwa [List.append_nil]⟩ (by rwa [length]))
  | cons fills start newline head tiled =>
    rw [whole, ← gapText_cons]
    refine .cons (.cons ⟨rfl, line⟩ (by rwa [length])) ?_ ?_ head tiled
    · rw [start, gapText_cons, List.length_append, ← length, Nat.add_assoc]
    · rw [newline, List.any_cons, noEnd, Bool.false_or]

theorem scan_tiled {source : List Char} {tokens : Array Token} (scanned : scan source = .ok tokens) :
    Tiled 0 source tokens.toList := by
  obtain ⟨new, same, tiled⟩ := scanFrom_tiled scanned
  rw [List.nil_append] at same
  rw [same]
  unfold interpreterLineLength at tiled
  split at tiled
  case h_1 cs =>
    have line := isLine_take cs
    have size : 2 + lineLength cs = (cs.take (lineLength cs)).length + 2 := by
      rw [length_take_lineLength, Nat.add_comm]
    have rest : ('#' :: '!' :: cs).drop ((cs.take (lineLength cs)).length + 2) =
        cs.drop (lineLength cs) := by
      rw [length_take_lineLength, List.drop_succ_cons, List.drop_succ_cons]
    rw [size, rest] at tiled
    have whole := tiled.prepend line
    rwa [List.take_append_drop] at whole
  case h_2 => exact tiled

/-- A substitution of a token that is taken off a text stands between its marks. -/
theorem Token.IsHeadOf.holes {t : Token} {cs rest : List Char} (head : t.IsHeadOf cs rest) :
    t.holes.Pairwise (fun h h' => h.stop < h'.start) ∧
      ∀ h ∈ t.holes, t.kind = .template ∧ h.IsMarked (t.start + 1) t.stop (cs.drop 1) := by
  obtain ⟨_, c, more, found, rfl, done, kind, text, holes, -⟩ := head
  rw [holes, kind]
  obtain ⟨-, none⟩ | ⟨isTemplate, stop, ends, size⟩ := extent_holes done
  · rw [none]
    exact ⟨.nil, fun _ mem => by cases mem⟩
  · obtain ⟨new, same, marked, inOrder⟩ := template_marks ends
    have ⟨less, le, _⟩ := template_spec ends
    have stops : t.stop = stop := by
      rw [Token.stop, text, String.length_ofList, List.length_cons, List.length_take, size]
      omega
    rw [List.reverse_nil, List.nil_append] at same
    rw [same, stops]
    exact ⟨inOrder, fun h mem => ⟨isTemplate, marked h mem⟩⟩

/-- A text that can be scanned is its tokens with gaps around them. -/
theorem scan_tiles {source : List Char} {tokens : Array Token} (scanned : scan source = .ok tokens) :
    Tiles tokens.toList source := by
  have ⟨pieces, inOrder⟩ := scan_pieces scanned
  have tiled := scan_tiled scanned
  have heads := tiled.exists_head List.drop_zero
  have spans (t : Token) (mem : t ∈ tokens.toList) : t.start < t.stop ∧ t.stop ≤ source.length ∧
      (source.drop t.start).take (t.stop - t.start) = t.text.toList := by
    have ⟨piece, less⟩ := And.intro (pieces t mem).piece (pieces t mem).less
    have size := piece.length_le
    rw [List.length_drop, String.length_toList] at size
    have length : t.stop - t.start = t.text.toList.length := by
      rw [Token.stop, String.length_toList, Nat.add_sub_cancel_left]
    refine ⟨less, ?_, ?_⟩
    · rw [Token.stop] at less ⊢
      omega
    · rw [length, ← List.prefix_iff_eq_take.mp piece]
  have holes (t : Token) (mem : t ∈ tokens.toList) (h : Hole) (inside : h ∈ t.holes) :
      t.kind = .template ∧ h.IsMarked (t.start + 1) t.stop (source.drop (t.start + 1)) := by
    obtain ⟨rest, head⟩ := heads t mem
    rw [← List.drop_drop]
    exact head.holes.2 h inside
  constructor
  case spans => exact spans
  case boundaries =>
    intro t mem
    obtain ⟨less, le, -⟩ := spans t mem
    exact ⟨charOffset?_byteOffset (by omega), charOffset?_byteOffset le⟩
  case inOrder => exact inOrder
  case gaps => exact fun before after split => tiled.gap List.drop_zero (Nat.zero_le _) split
  case punctuators =>
    intro t mem punct
    obtain ⟨rest, _, c, more, found, place, done, kind, text, -, -⟩ := heads t mem
    rw [place, text]
    exact isOperatorAt_of_extent done (kind.symm.trans punct)
  case holes =>
    intro h mem
    obtain ⟨t, mem, inside⟩ := List.mem_flatMap.mp mem
    obtain ⟨isTemplate, after, before, piece⟩ := holes t mem h inside
    have place : t.start + 1 + (h.start - 2 - (t.start + 1)) = h.start - 2 := by omega
    rw [List.drop_drop, place] at piece
    refine ⟨piece, t, mem, isTemplate, by omega, by omega, fun t' mem' starts stops => ?_⟩
    -- Another token would stop before this one starts, or start after it has stopped.
    by_contra other
    have symm : Std.Symm fun t t' : Token => t.stop ≤ t'.start ∨ t'.stop ≤ t.start :=
      ⟨fun _ _ => Or.symm⟩
    have ordered : tokens.toList.Pairwise fun t t' => t.stop ≤ t'.start ∨ t'.stop ≤ t.start :=
      inOrder.imp .inl
    have apart := ordered.forall mem' mem other
    rw [Hole.stop] at before stops
    omega
  case holesInOrder =>
    rw [List.pairwise_flatMap]
    constructor
    · intro t mem
      obtain ⟨rest, head⟩ := heads t mem
      exact head.holes.1
    · refine inOrder.imp_of_mem fun {t t'} mem mem' le h inside h' inside' => ?_
      have before := (holes t mem h inside).2.before
      have after := (holes t' mem' h' inside').2.after
      omega

theorem scan_tiles_conditional :
    let source := "#!x\n\x60a$\x7bb\x7d\x60/**/?.5".toList
    let tokens : Array Token := #[
      ⟨.template, 4, "\x60a$\x7bb\x7d\x60", true, [⟨8, ['b']⟩]⟩, ⟨.punct, 15, "?", false, []⟩,
      ⟨.number, 16, ".5", false, []⟩]
    scan source = .ok tokens ∧ Tiles tokens.toList source := by
  intro source tokens
  have scanned : scan source = .ok tokens := by
    unfold source tokens
    cbv
  exact ⟨scanned, scan_tiles scanned⟩

end ModuleLinker
