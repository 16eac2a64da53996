import ModuleLinker.Proofs.Erase.Annotated
import ModuleLinker.Proofs.Erase.Remains
import ModuleLinker.Proofs.Erase.Untyped

/-!
# Assertions

Assertions behind a value that holds no types are overwritten, all of them, from the keyword of the first
to the end of the type of the last (`erase_assertions`); without any, the value stays as it is
(`erase_untyped`). An assertion only applies where the symbol in front of it can end a value. A brace
cannot, and neither can a closing angle bracket, so that assertions behind an object, an object type or
type arguments stay (`erase_keeps_assertions`).
-/

set_option autoImplicit false

namespace ModuleLinker

open Erase Text ModuleLinker.Symbol

/-! ## Edits that lie apart -/

namespace Erase.Edits

/-- Edits that follow each other are all carried out. -/
theorem carriedOut_of_apart {offset : Nat} {es : List Edit}
    (apart : es.Pairwise fun d e => d.stop ≤ e.start) (later : ∀ e ∈ es, offset ≤ e.start) :
    carriedOut offset es = es := by
  induction es generalizing offset with
  | nil => rfl
  | cons e es ih =>
    rw [List.pairwise_cons] at apart
    rw [List.forall_mem_cons] at later
    rw [carriedOut, if_neg (Nat.not_lt.mpr later.1), ih apart.2 apart.1]

/-- Carrying out edits that lie apart, newest last in the text, overwrites what they cover. -/
theorem applyTo_of_apart {edits : Edits} {source : List Char}
    (overwrite : ∀ e ∈ edits, e.Overwrites source.length)
    (apart : edits.Pairwise fun e d => d.stop ≤ e.start) : edits.applyTo source = overlay edits 0 source := by
  have apart' : edits.reverse.Pairwise fun d e => d.stop ≤ e.start := List.pairwise_reverse.mpr apart
  have sorted : edits.reverse.Pairwise fun d e => d.start ≤ e.start :=
    apart'.imp_of_mem fun mem _ le => (overwrite _ (List.mem_reverse.mp mem)).le.trans le
  have inOrder_eq : inOrder edits = edits.reverse := by
    have same := inOrder_reverse sorted
    rwa [List.reverse_reverse] at same
  have covered_eq (i : Nat) : covered edits.reverse i = covered edits i := List.any_reverse
  rw [applyTo_eq_overlay overwrite, inOrder_eq, carriedOut_of_apart apart' fun _ _ => Nat.zero_le _]
  simp only [overlay, covered_eq]

/-- Where edits cover everything but spaces, spaces are left. -/
theorem overlay_eq_replicate {es : List Edit} {offset : Nat} {cs : List Char}
    (oneLine : ∀ c ∈ cs, isLineEnd c = false)
    (full : ∀ i < cs.length, cs[i]? = some ' ' ∨ covered es (offset + i) = true) :
    overlay es offset cs = List.replicate cs.length ' ' := by
  apply List.ext_getElem?
  intro i
  rw [getElem?_overlay]
  rcases Nat.lt_or_ge i cs.length with less | ge
  · obtain ⟨c, found⟩ : ∃ c, cs[i]? = some c := ⟨_, List.getElem?_eq_getElem less⟩
    have inside := oneLine c (List.mem_of_getElem? found)
    simp only [isLineEnd, Bool.or_eq_false_iff, beq_eq_false_iff_ne] at inside
    rw [found, List.getElem?_replicate_of_lt less, Option.map_some]
    rcases full i less with space | covers
    · obtain rfl : c = ' ' := Option.some.inj (found.symm.trans space)
      simp [Edit.blankOut]
    · simp [covers, Edit.blankOut, inside]
  · rw [List.getElem?_eq_none ge, List.getElem?_eq_none (by rwa [List.length_replicate])]
    rfl

end Erase.Edits

/-! ## Assertions one after the other -/

/-- A type assertion. -/
structure Assertion where
  /-- Its keyword. -/
  keyword : String
  /-- The symbols of its type. -/
  type : List Symbol
  deriving DecidableEq

namespace Assertion

/-- The symbols of an assertion. -/
def symbols (a : Assertion) : List Symbol := word a.keyword :: a.type

/-- Whether an assertion is written as it should be. -/
structure IsProper (a : Assertion) : Prop where
  /-- It starts with the word of an assertion. -/
  keyword : a.keyword ∈ assertionWords
  /-- Its type is one of the grammar. -/
  type : IsTypeAt .whole a.type

/-- Whether assertions behind a symbol all have a symbol in front of them that can end a value. -/
def Apply : Symbol → List Assertion → Prop
  | _, [] => True
  | before, a :: chain => before.endsValue = true ∧ Apply (a.type.getLastD (word a.keyword)) chain

theorem nested_symbols {chain : List Assertion} (proper : ∀ a ∈ chain, a.IsProper) :
    Nested (chain.flatMap symbols) := by
  induction chain with
  | nil => exact .nil
  | cons a chain ih =>
    rw [List.forall_mem_cons] at proper
    exact (Nested.cons (s := word a.keyword) rfl proper.1.type.nested).append (ih proper.2)

end Assertion

namespace Erase.Program

variable {p : Program} {hole : Hole → Except Failure Edits}

/-! ## Ranges that edits clear -/

/-- Whether edits that lie apart overwrite all tokens from one position up to another, and no others. -/
structure Clears (p : Program) (first last : Nat) (edits : Edits) : Prop where
  /-- The newer edit lies behind the older one. -/
  apart : edits.Pairwise fun e d => d.stop ≤ e.start
  /-- Every edit overwrites tokens of the range. -/
  laid : ∀ e ∈ edits, ∃ i j, first ≤ i ∧ j ≤ last ∧ p.Overwrites e i j
  /-- Every token of the range is overwritten. -/
  full : ∀ i t, first ≤ i → i < last → p.tokens[i]? = some t → ∃ e ∈ edits, e.start ≤ t.start ∧ t.stop ≤ e.stop

namespace Clears

variable {first i k : Nat} {edits : Edits}

theorem refl (i : Nat) : p.Clears i i [] :=
  ⟨.nil, nofun, fun _ _ low high => absurd high (Nat.not_lt.mpr low)⟩

/-- Overwriting what stands behind a range clears a longer one. -/
theorem blank (read : p.IsRead) (clears : p.Clears first i edits) (le : first ≤ i) (less : i < k)
    (within : k ≤ p.tokens.size) (pos : Nat) : p.Clears first k (p.blank ⟨pos, edits⟩ i k).edits := by
  obtain ⟨a, opens⟩ : ∃ a, p.tokens[i]? = some a := ⟨_, Array.getElem?_eq_getElem (by omega)⟩
  obtain ⟨z, ends⟩ : ∃ z, p.tokens[k - 1]? = some z := ⟨_, Array.getElem?_eq_getElem (by omega)⟩
  have before : ∀ d ∈ edits, d.stop ≤ a.start ∧ d.start < d.stop := by
    intro d mem
    obtain ⟨j, m, -, high, less', b, y, opens', ends', rfl⟩ := clears.laid d mem
    have filled := (read.piece (Array.mem_of_getElem? opens')).less
    have ordered := read.stop_le_stop (Nat.le_sub_one_of_lt less') opens' ends'
    exact ⟨read.stop_le_start (by omega) ends' opens, Nat.lt_of_lt_of_le filled ordered.2⟩
  have kept : edits.filter (fun d => !d.within ⟨a.start, z.stop, none⟩) = edits := by
    refine List.filter_eq_self.mpr fun d mem => ?_
    obtain ⟨stops, filled⟩ := before d mem
    simp only [Edit.within, Bool.not_eq_true', Bool.and_eq_false_iff, decide_eq_false_iff_not]
    exact .inl (by omega)
  have added : (p.blank ⟨pos, edits⟩ i k).edits = ⟨a.start, z.stop, none⟩ :: edits := by
    rw [Program.blank, if_pos less, opens, ends]
    exact congrArg (List.cons _) kept
  rw [added]
  refine ⟨.cons (fun d mem => (before d mem).1) clears.apart, List.forall_mem_cons.mpr ⟨?_, ?_⟩, ?_⟩
  · exact ⟨i, k, le, le_rfl, less, a, z, opens, ends, rfl⟩
  · intro d mem
    obtain ⟨j, m, low, high, laid⟩ := clears.laid d mem
    exact ⟨j, m, low, by omega, laid⟩
  · intro j t low high found
    rcases Nat.lt_or_ge j i with old | new
    · obtain ⟨d, mem, covers⟩ := clears.full j t low old found
      exact ⟨d, List.mem_cons_of_mem _ mem, covers⟩
    · have starts := (read.stop_le_stop new opens found).1
      have stops := (read.stop_le_stop (Nat.le_sub_one_of_lt high) found ends).2
      exact ⟨_, List.mem_cons_self, starts, stops⟩

/-- Carrying out edits that clear a range leaves spaces in its place, if the text is on one line and
nothing but spaces stands between the tokens of the range. -/
theorem applyTo_eq (read : p.IsRead) (clears : p.Clears first k edits) (less : first < k) {a z : Token}
    (opens : p.tokens[first]? = some a) (ends : p.tokens[k - 1]? = some z)
    (oneLine : ∀ c ∈ p.source, isLineEnd c = false)
    (spaces : ∀ i < z.stop, a.start ≤ i →
      p.source[i]? = some ' ' ∨ ∃ t ∈ p.tokens, t.start ≤ i ∧ i < t.stop) :
    edits.applyTo p.source =
      p.source.take a.start ++ (List.replicate (z.stop - a.start) ' ' ++ p.source.drop z.stop) := by
  have inside : ∀ e ∈ edits, a.start ≤ e.start ∧ e.stop ≤ z.stop := by
    intro e mem
    obtain ⟨i, j, low, high, less', b, y, opens', ends', rfl⟩ := clears.laid e mem
    exact ⟨(read.stop_le_stop low opens opens').1, (read.stop_le_stop (by omega) ends' ends).2⟩
  have overwrite : ∀ e ∈ edits, e.Overwrites p.source.length := by
    intro e mem
    obtain ⟨i, j, -, -, less', b, y, opens', ends', rfl⟩ := clears.laid e mem
    exact (read.spares_tokens less' opens' ends').blanks.toOverwrites
  have starts := (read.piece (Array.mem_of_getElem? opens)).less
  have ordered := read.stop_le_stop (Nat.le_sub_one_of_lt less) opens ends
  have bound := read.stop_le_length (Array.mem_of_getElem? ends)
  obtain ⟨front, middle, back, whole, length, length'⟩ : ∃ front middle back : List Char,
      p.source = front ++ (middle ++ back) ∧ front.length = a.start ∧
        middle.length = z.stop - a.start := by
    refine ⟨p.source.take a.start, (p.source.drop a.start).take (z.stop - a.start),
      (p.source.drop a.start).drop (z.stop - a.start), ?_, ?_, ?_⟩
    · rw [List.take_append_drop, List.take_append_drop]
    · rw [List.length_take]
      omega
    · rw [List.length_take, List.length_drop]
      omega
  have stop : a.start + middle.length = z.stop := by omega
  have clear (n : Nat) (cs : List Char) (out : n + cs.length ≤ a.start ∨ z.stop ≤ n) :
      Edits.overlay edits n cs = cs := by
    refine Edits.overlay_eq_self fun i less => ?_
    simp only [Edits.covered, List.any_eq_false, Edit.covers, Bool.and_eq_true, decide_eq_true_eq]
    intro e mem covers
    have range := inside e mem
    omega
  have full : Edits.overlay edits a.start middle = List.replicate middle.length ' ' := by
    refine Edits.overlay_eq_replicate (fun c mem => oneLine c (by simp [whole, mem])) fun i less => ?_
    have same : p.source[a.start + i]? = middle[i]? := by
      rw [whole, List.getElem?_append_right (by omega), length, Nat.add_sub_cancel_left,
        List.getElem?_append_left less]
    rw [← same]
    refine (spaces (a.start + i) (by omega) (Nat.le_add_right ..)).imp id ?_
    rintro ⟨t, token, low, high⟩
    obtain ⟨j, found⟩ := Array.mem_iff_getElem?.mp token
    -- A token that holds an offset of the range is one of its tokens.
    have after : first ≤ j := by
      by_contra before
      have apart := read.stop_le_start (Nat.lt_of_not_le before) found opens
      omega
    have before : j < k := by
      by_contra after
      have apart := read.stop_le_start (show k - 1 < j by omega) ends found
      omega
    obtain ⟨e, mem, starts, stops⟩ := clears.full j t after before found
    refine List.any_eq_true.mpr ⟨e, mem, ?_⟩
    simp only [Edit.covers, Bool.and_eq_true, decide_eq_true_eq]
    omega
  have ahead : (front ++ middle).length = z.stop := by rw [List.length_append, length, stop]
  have behind : p.source.drop z.stop = back := by rw [whole, ← List.append_assoc, List.drop_left' ahead]
  rw [Edits.applyTo_of_apart overwrite clears.apart, behind, whole, Edits.overlay_append,
    Edits.overlay_append, Nat.zero_add, length, stop, clear 0 front (.inl (by omega)),
    clear z.stop back (.inr le_rfl), full, List.take_left' length, length']

end Clears

/-! ## The walk through assertions -/

/-- The last of some symbols stands in front of what follows them. -/
theorem Has.last {i : Nat} {before : Symbol} {ss : List Symbol} (has : p.Has i before)
    (more : p.HasAll (i + 1) ss) : p.Has (i + ss.length) (ss.getLastD before) := by
  cases last : ss.getLast? with
  | none =>
    obtain rfl : ss = [] := List.getLast?_eq_none_iff.mp last
    exact has
  | some s =>
    have place : i + 1 + ss.length - 1 = i + ss.length := by omega
    rw [List.getLastD_eq_getLast?, last]
    exact place ▸ more.last last

/-- A type ends where an assertion or a semicolon comes next. -/
theorem endsWhole_of_assertions {k : Nat} {chain : List Assertion} (proper : ∀ a ∈ chain, a.IsProper)
    (reads : p.Reads k (chain.flatMap Assertion.symbols ++ [mark ";"])) : p.endsWhole k = true := by
  cases chain with
  | nil => exact reads.1.endsWhole_of_mark (by decide)
  | cons a chain =>
    have known := (proper a List.mem_cons_self).keyword
    simp only [assertionWords, List.mem_cons, List.not_mem_nil, or_false] at known
    refine Shows.endsWhole_of_word (x := a.keyword) reads.1 ?_
    rcases known with known | known <;> rw [known] <;> decide

/-- An assertion behind a value is overwritten. -/
theorem step_of_assertion (matched : matchBrackets p.tokens = .ok p.partners) {i k : Nat}
    {before : Symbol} {a : Assertion} (has : p.Has i before) (value : before.endsValue = true)
    (proper : a.IsProper) (reads : p.Reads (i + 1) a.symbols) (place : i + 1 + a.symbols.length = k)
    (ends : p.endsWhole k = true) (w : Walker) (limit : Nat) (edits : Edits) :
    p.step w limit ⟨i + 1, edits⟩ = .ok ⟨k, (p.blank ⟨i + 1, edits⟩ (i + 1) k).edits⟩ := by
  obtain ⟨shows, type⟩ := reads
  have place : i + 2 + a.type.length = k := by
    rw [← place, Assertion.symbols, List.length_cons]
    omega
  have stop : p.typeStop? (i + 2) = some k :=
    place ▸ typeStop?_of_isTypeAt matched proper.type type (place ▸ ends)
  have noDot : before.token.isDot = false := by
    obtain ⟨kind, text⟩ := before
    cases kind
    case punct =>
      obtain rfl | rfl : text = ")" ∨ text = "]" := by simpa [Symbol.endsValue] using value
      all_goals rfl
    all_goals rfl
  have overwritten : p.stepAssertion ⟨i + 1, edits⟩ =
      .ok ⟨k, (p.blank ⟨i + 1, edits⟩ (i + 1) k).edits⟩ := by
    unfold stepAssertion
    dsimp only
    rw [Nat.add_sub_cancel, has.endsValue_eq, value, shows.newlineBefore_eq, expectType_eq, stop]
    rfl
  rw [step_eq_stepWord shows.has, stepWord]
  dsimp only
  rw [has.afterDot_eq, noDot, shows.text_eq]
  have known := proper.keyword
  simp only [assertionWords, List.mem_cons, List.not_mem_nil, or_false] at known
  rcases known with known | known <;> rw [known] <;> exact overwritten

/-- A walk goes through assertions behind a value, and its edits clear them. -/
theorem walk_assertions (matched : matchBrackets p.tokens = .ok p.partners) (read : p.IsRead)
    {chain : List Assertion} (proper : ∀ a ∈ chain, a.IsProper) {before : Symbol}
    (applies : Assertion.Apply before chain) {first i k limit : Nat} {stop : Nat → Bool} {edits : Edits}
    (has : p.Has i before) (reads : p.Reads (i + 1) (chain.flatMap Assertion.symbols ++ [mark ";"]))
    (place : i + 1 + (chain.flatMap Assertion.symbols).length = k) (within : k < p.tokens.size)
    (inside : k ≤ limit) (stays : p.Stays stop) (le : first ≤ i + 1) (clears : p.Clears first (i + 1) edits) :
    ∃ edits', p.Clears first k edits' ∧
      p.walk hole limit stop ⟨i + 1, edits⟩ = p.walk hole limit stop ⟨k, edits'⟩ := by
  induction chain generalizing before i edits with
  | nil =>
    obtain rfl : i + 1 = k := place
    exact ⟨edits, clears, rfl⟩
  | cons a chain ih =>
    obtain ⟨value, applies⟩ := applies
    rw [List.flatMap_cons, List.append_assoc] at reads
    rw [List.flatMap_cons, List.length_append, ← Nat.add_assoc] at place
    obtain ⟨own, rest⟩ := reads_append.mp reads
    obtain ⟨m, next⟩ : ∃ m, i + 1 + a.type.length = m := ⟨_, rfl⟩
    have next' : i + 1 + a.symbols.length = m + 1 := by
      rw [← next, Assertion.symbols, List.length_cons]
      rfl
    rw [next'] at rest place
    have last : p.Has m (a.type.getLastD (word a.keyword)) := next ▸ own.1.has.last own.2.hasAll
    have stepped := step_of_assertion matched has value (proper a List.mem_cons_self) own next'
      (endsWhole_of_assertions (fun b mem => proper b (List.mem_cons_of_mem a mem)) rest)
      (p.walkerAt hole (i + 1)) limit edits
    have other : word a.keyword ≠ mark "," ∧ word a.keyword ≠ mark ";" := by simp [word, mark]
    have cleared := clears.blank read le (show i + 1 < m + 1 by omega) (by omega) (i + 1)
    obtain ⟨edits', clears', walked⟩ := ih (fun b mem => proper b (List.mem_cons_of_mem a mem)) applies last
      rest place (by omega) cleared
    exact ⟨edits', clears', (walk_of_step own.1.has other (by omega) stays stepped (by omega)).trans walked⟩

/-- A walk through the declaration of a constant with assertions behind its value clears them. -/
theorem walk_assertedConstant (matched : matchBrackets p.tokens = .ok p.partners) (read : p.IsRead)
    (quiet : ∀ t ∈ p.tokens, ∀ h ∈ t.holes, hole h = .ok []) {x : String} {value : List Symbol}
    {chain : List Assertion} (free : x ≠ "enum") (untyped : IsUntyped false (mark "=") value)
    (proper : ∀ a ∈ chain, a.IsProper) (applies : Assertion.Apply (value.getLastD (mark "=")) chain)
    (reads : p.Reads 0 (word "const" :: word x :: mark "=" ::
      (value ++ (chain.flatMap Assertion.symbols ++ [mark ";"])))) {k : Nat}
    (place : value.length + 3 + (chain.flatMap Assertion.symbols).length = k) (size : k + 1 = p.tokens.size) :
    ∃ edits, p.Clears (value.length + 3) k edits ∧
      p.walk hole p.tokens.size nowhere ⟨0, []⟩ = .ok ⟨p.tokens.size, edits⟩ := by
  obtain ⟨keyword, name, equals, rest⟩ := reads
  obtain ⟨own, rest⟩ := reads_append.mp rest
  have behind : 2 + 1 + value.length = value.length + 2 + 1 := by omega
  rw [show 0 + 1 + 1 + 1 = 2 + 1 from rfl] at own rest
  rw [behind] at rest
  have semicolon : p.Has k (mark ";") := by
    obtain ⟨-, semicolon, -⟩ := reads_append.mp rest
    exact place ▸ semicolon.has
  let stop : Nat → Bool := fun j => [",", ";"].any fun text => p.isPunct j text
  have stays : p.Stays stop := fun j stops => by simpa [stop] using stops
  have calm : ∀ text ∈ ["=>", ":", openBrace], p.isPunct (value.length + 2 + 1) text = false := by
    cases chain with
    | nil => exact rest.1.has.isPunct_of_not_mem (by decide)
    | cons a chain => exact Has.isPunct_of_not_mem (s := word a.keyword) rest.1.has (by simp [word, mark])
  have spans : p.Spans false (2 + 1) (value.length + 2 + 1) p.tokens.size stop :=
    ⟨by omega, stays, by simp, by simp, calm⟩
  have through : p.walk hole p.tokens.size stop ⟨2 + 1, []⟩ =
      p.walk hole p.tokens.size stop ⟨value.length + 2 + 1, []⟩ :=
    walk_untyped matched quiet untyped equals.has own behind spans
  have last : p.Has (value.length + 2) (value.getLastD (mark "=")) := by
    rw [Nat.add_comm]
    exact Has.last equals.has own.hasAll
  obtain ⟨edits, clears, walked⟩ : ∃ edits, p.Clears (value.length + 3) k edits ∧
      p.walk hole p.tokens.size stop ⟨value.length + 2 + 1, []⟩ = p.walk hole p.tokens.size stop ⟨k, edits⟩ :=
    walk_assertions matched read proper applies last rest place (by omega) (by omega) stays le_rfl (.refl _)
  have stopped : p.walk hole p.tokens.size stop ⟨k, edits⟩ = .ok ⟨k, edits⟩ :=
    walk_of_stop (by simp [stop, semicolon.isPunct_eq])
  exact ⟨edits, clears, walk_constant free keyword.has name.has equals.has
    (through.trans (walked.trans stopped)) semicolon (by omega) size⟩

end Erase.Program

section Constants

variable {source : List Char} {tokens : Array Token} (scanned : scan source = .ok tokens)
  (oneLine : ∀ c ∈ source, isLineEnd c = false) {x : String} (free : x ≠ "enum") {value : List Symbol}
  (untyped : IsUntyped false (mark "=") value)
  (quiet : ∀ t ∈ tokens, ∀ h ∈ t.holes, editsOf h.text = .ok [])
include scanned oneLine free untyped quiet

/-- The edits of the declaration of a constant clear the assertions behind its value. -/
theorem erase_constant {chain : List Assertion} (symbols : tokens.toList.map Token.symbol =
      word "const" :: word x :: mark "=" :: (value ++ (chain.flatMap Assertion.symbols ++ [mark ";"])))
    (proper : ∀ a ∈ chain, a.IsProper) (applies : Assertion.Apply (value.getLastD (mark "=")) chain) :
    ∃ p edits k, Program.ofSource source = .ok p ∧ erase source = .ok (edits.applyTo source) ∧
      p.Clears (value.length + 3) k edits ∧ value.length + 3 + (chain.flatMap Assertion.symbols).length = k ∧
        k + 1 = tokens.size := by
  have nested : Nested (tokens.toList.map Token.symbol) := by
    rw [symbols]
    exact .cons rfl (.cons rfl (.cons (by decide) (untyped.nested.append
      ((Assertion.nested_symbols proper).append (.plain (by decide))))))
  obtain ⟨p, read, rfl, matched⟩ := Program.exists_ofSource scanned nested
  have filled : p.tokens ≠ #[] := by
    intro none
    rw [none] at symbols
    cases symbols
  have line := scanFrom_oneLine (scanFrom_of_oneLine scanned oneLine filled) oneLine (by simp)
  have reads := @Program.reads_all p fun t mem => line t (Array.mem_toList_iff.mp mem)
  rw [symbols] at reads
  have size : value.length + 3 + (chain.flatMap Assertion.symbols).length + 1 = p.tokens.size := by
    have same := congrArg List.length symbols
    simp only [List.length_map, Array.length_toList, List.length_cons, List.length_append,
      List.length_nil] at same
    omega
  obtain ⟨hole, same, editsOf_eq⟩ := Program.editsOf_eq_walk read
  have quiet' : ∀ t ∈ p.tokens, ∀ h ∈ t.holes, hole h = .ok [] :=
    fun t token h inside => (same t token h inside).trans (quiet t token h inside)
  obtain ⟨edits, clears, walked⟩ := Program.walk_assertedConstant matched
    (Program.isRead_of_ofSource read) quiet' free untyped proper applies reads rfl size
  refine ⟨p, edits, _, read, ?_, clears, rfl, size⟩
  rw [erase, editsOf_eq, walked]
  rfl

/-- The declaration of a constant with a value that holds no types stays as it is. -/
theorem erase_untyped (symbols : tokens.toList.map Token.symbol =
    word "const" :: word x :: mark "=" :: (value ++ [mark ";"])) : erase source = .ok source := by
  obtain ⟨p, edits, k, -, done, clears, rfl, -⟩ :=
    @erase_constant source tokens scanned oneLine x free value untyped quiet [] symbols (by simp) trivial
  have none : edits = [] := by
    refine List.eq_nil_iff_forall_not_mem.mpr fun e mem => ?_
    obtain ⟨i, j, low, high, laid⟩ := clears.laid e mem
    exact absurd laid.less (Nat.not_lt.mpr (high.trans low))
  rw [done, none, Edits.applyTo_nil]

/-- Assertions behind the value of a constant are overwritten, from the keyword of the first one to the end
of the type of the last one, and nothing else is, if the value holds no types, every assertion has a symbol
in front of it that can end a value, and the text is on one line. -/
theorem erase_assertions {chain : List Assertion} (symbols : tokens.toList.map Token.symbol =
      word "const" :: word x :: mark "=" :: (value ++ (chain.flatMap Assertion.symbols ++ [mark ";"])))
    (asserted : chain ≠ []) (proper : ∀ a ∈ chain, a.IsProper)
    (applies : Assertion.Apply (value.getLastD (mark "=")) chain) {a z : Token}
    (first : tokens[value.length + 3]? = some a) (last : tokens[tokens.size - 2]? = some z)
    (spaces : ∀ i < z.stop, a.start ≤ i →
      source[i]? = some ' ' ∨ ∃ t ∈ tokens, t.start ≤ i ∧ i < t.stop) :
    erase source =
      .ok (source.take a.start ++ (List.replicate (z.stop - a.start) ' ' ++ source.drop z.stop)) := by
  obtain ⟨p, edits, k, read, done, clears, place, size⟩ :=
    erase_constant scanned oneLine free untyped quiet symbols proper applies
  have isRead := Program.isRead_of_ofSource read
  obtain ⟨rfl, same⟩ := Program.ofSource_eq_ok read
  cases scanned.symm.trans same
  have longer : 0 < (chain.flatMap Assertion.symbols).length := by
    cases chain with
    | nil => exact absurd rfl asserted
    | cons a chain => simp [Assertion.symbols]
  have before : p.tokens.size - 2 = k - 1 := by omega
  rw [before] at last
  rw [done, clears.applyTo_eq isRead (by omega) first last oneLine spaces]

end Constants

/-- The two assertions behind a call with a function and an array go. -/
theorem erase_assertions_call :
    erase "const v = f((x) => !x, [1]) as A[] satisfies B<C> | D;".toList =
      .ok "const v = f((x) => !x, [1])                          ;".toList := by
  let tokens : Array Token := #[
    ⟨.ident, 0, "const", false, []⟩, ⟨.ident, 6, "v", false, []⟩, ⟨.punct, 8, "=", false, []⟩,
    ⟨.ident, 10, "f", false, []⟩, ⟨.punct, 11, "(", false, []⟩, ⟨.punct, 12, "(", false, []⟩,
    ⟨.ident, 13, "x", false, []⟩, ⟨.punct, 14, ")", false, []⟩, ⟨.punct, 16, "=>", false, []⟩,
    ⟨.punct, 19, "!", false, []⟩, ⟨.ident, 20, "x", false, []⟩, ⟨.punct, 21, ",", false, []⟩,
    ⟨.punct, 23, "[", false, []⟩, ⟨.number, 24, "1", false, []⟩, ⟨.punct, 25, "]", false, []⟩,
    ⟨.punct, 26, ")", false, []⟩, ⟨.ident, 28, "as", false, []⟩, ⟨.ident, 31, "A", false, []⟩,
    ⟨.punct, 32, "[", false, []⟩, ⟨.punct, 33, "]", false, []⟩, ⟨.ident, 35, "satisfies", false, []⟩,
    ⟨.ident, 45, "B", false, []⟩, ⟨.punct, 46, "<", false, []⟩, ⟨.ident, 47, "C", false, []⟩,
    ⟨.punct, 48, ">", false, []⟩, ⟨.punct, 50, "|", false, []⟩, ⟨.ident, 52, "D", false, []⟩,
    ⟨.punct, 53, ";", false, []⟩]
  have scanned : scan "const v = f((x) => !x, [1]) as A[] satisfies B<C> | D;".toList = .ok tokens := by
    unfold tokens
    cbv
  let g : Signature := ⟨[.binds ⟨[], .name "x", false, none, none⟩], false, none⟩
  have bare : g.IsUntyped := by
    refine ⟨⟨?_, by simp [g]⟩, by decide⟩
    exact List.forall_mem_singleton.mpr ⟨by simp, by simp, by decide, by simp, by simp⟩
  have array : IsUntyped true (mark ",") [mark "[", ⟨.number, "1"⟩, mark "]"] :=
    @IsUntyped.bracket true _ "[" [⟨.number, "1"⟩] [] (.inl rfl) (.cons (.inl rfl) (by decide) .nil) .nil
  have body : IsUntyped true (mark ")")
      [mark "=>", mark "!", word "x", mark ",", mark "[", ⟨.number, "1"⟩, mark "]"] :=
    .cons (.inl rfl) (by decide) (.cons (.inl rfl) (by decide) (.cons (.inl rfl) (by decide)
      (.cons (.inl rfl) (by decide) array)))
  have inner : IsUntyped true (mark "(") (mark "(" :: (allSymbols g.parts ++
      [mark "=>", mark "!", word "x", mark ",", mark "[", ⟨.number, "1"⟩, mark "]"])) := .arrow bare body
  have call : IsGroup false (word "f") [] := ⟨by simp, by simp, by simp⟩
  have untyped := @IsUntyped.cons false (mark "=") (word "f") _ (.inr (by decide)) (by decide)
    (.group call inner .nil)
  have name (x : String) (other : x ∉ typeKeywords) : IsTypeAt .union [word x] := @IsTypeAt.name x [] other
  have generic : IsTypeAt .union [word "B", mark "<", word "C", mark ">"] :=
    @IsTypeAt.generic "B" [] [[word "C"]] (by decide)
      (List.forall_mem_singleton.mpr (.whole (name "C" (by decide))))
  let chain : List Assertion := [⟨"as", [word "A", mark "[", mark "]"]⟩,
    ⟨"satisfies", [word "B", mark "<", word "C", mark ">", mark "|", word "D"]⟩]
  have proper : ∀ a ∈ chain, a.IsProper := by
    simp only [chain, List.forall_mem_cons]
    exact ⟨⟨by decide, .whole (.indexed (name "A" (by decide)) .nil)⟩,
      ⟨by decide, .whole (.union (by decide) generic (name "D" (by decide)) rfl)⟩, by simp⟩
  have symbols : tokens.toList.map Token.symbol = word "const" :: word "v" :: mark "=" ::
      ((word "f" :: mark "(" :: (mark "(" :: (allSymbols g.parts ++ [mark "=>", mark "!", word "x", mark ",",
        mark "[", ⟨.number, "1"⟩, mark "]"]) ++ [mark ")"])) ++ (chain.flatMap Assertion.symbols ++ [mark ";"])) :=
    rfl
  have first : tokens[16]? = some ⟨.ident, 28, "as", false, []⟩ := rfl
  have last : tokens[26]? = some ⟨.ident, 52, "D", false, []⟩ := rfl
  exact erase_assertions scanned (by simp [isLineEnd]) (by decide) untyped (by decide) symbols (by decide)
    proper ⟨by decide, by decide, trivial⟩ first last (by decide +kernel)

/-- Behind an object and behind type arguments assertions stay, and behind a name that can also stand in
front of an operand. -/
theorem erase_keeps_assertions :
    erase "const v = \x7b\x7d as A;".toList = .ok "const v = \x7b\x7d as A;".toList ∧
    erase "const v = x as Array<A> as B;".toList = .ok "const v = x             as B;".toList ∧
    erase "const v = of as A;".toList = .ok "const v = of as A;".toList := by
  refine ⟨?_, ?_, ?_⟩ <;> cbv

end ModuleLinker
