import ModuleLinker.Proofs.Source.Brackets

/-!
# Which bracket lists have partners

A bracket closes another one of its kind if every bracket between them has its partner there (`Closes`).
Reading a token list finds these pairs one by one: the brackets that are open are those whose closing
bracket has not come yet (`BracketState.Pairs`), and a closing bracket that is refused closes none. So
brackets are matched exactly in the well-nested lists, the partners that are found are the only pairing in
which no two pairs cross (`matchBrackets_eq_ok_iff`), and a complaint is about the first bracket that
closes none or, where there is no such bracket, about the last one that is not closed
(`matchBrackets_eq_error_iff`).
-/

set_option autoImplicit false

namespace ModuleLinker

/-! ## Parts of a token list -/

/-- The tokens from position `i` up to position `j`. -/
def tokensBetween (ts : List Token) (i j : Nat) : List Token := (ts.take j).drop i

section

variable {ts : List Token} {i j k : Nat} {t : Token}

theorem tokensBetween_of_le (le : j ≤ i) : tokensBetween ts i j = [] :=
  List.drop_eq_nil_of_le (Nat.le_trans (List.length_take_le j ts) le)

theorem tokensBetween_append (le : i ≤ j) (le' : j ≤ k) :
    tokensBetween ts i j ++ tokensBetween ts j k = tokensBetween ts i k := by
  have first : ts.take j = (ts.take k).take j := by rw [List.take_take, Nat.min_eq_left le']
  rw [tokensBetween, first, List.drop_take, tokensBetween, ← Nat.add_sub_cancel' le, ← List.drop_drop,
    Nat.add_sub_cancel_left, List.take_append_drop, tokensBetween]

theorem tokensBetween_succ (here : ts[i]? = some t) : tokensBetween ts i (i + 1) = [t] := by
  obtain ⟨less, rfl⟩ := List.getElem?_eq_some_iff.mp here
  rw [tokensBetween, List.take_succ_eq_append_getElem less, List.drop_left' (by simp; omega)]

theorem tokensBetween_eq_cons (here : ts[i]? = some t) (less : i < j) :
    tokensBetween ts i j = t :: tokensBetween ts (i + 1) j := by
  rw [← tokensBetween_append (Nat.le_succ i) less, tokensBetween_succ here, List.singleton_append]

theorem take_eq_append (le : i ≤ j) : ts.take j = ts.take i ++ tokensBetween ts i j :=
  (tokensBetween_append (Nat.zero_le i) le).symm

end

/-! ## Pairs of brackets -/

/-- The two ends of a pair of brackets are an opening mark and its closing mark. -/
theorem Token.mark_of_closerOf {o c : Token} (opener : o.isOpener = true) (closer : c.isCloser = true)
    (kind : closerOf o.text = c.text) :
    ∃ text ∈ openers, o.symbol = .mark text ∧ c.symbol = .mark (closerOf text) := by
  simp only [isOpener, isCloser, Bool.and_eq_true, Bool.or_eq_true, beq_iff_eq] at opener closer
  refine ⟨o.text, ?_, ?_, ?_⟩
  · simpa [openers, or_assoc] using opener.2
  · rw [symbol, opener.1, Symbol.mark]
  · rw [symbol, closer.1, kind, Symbol.mark]

/-- No bracket both opens and closes. -/
theorem Token.not_isCloser {t : Token} (opener : t.isOpener = true) : ¬ t.isCloser = true := by
  simp only [isOpener, Bool.and_eq_true, Bool.or_eq_true, beq_iff_eq] at opener
  rw [isCloser]
  rcases opener.2 with (text | text) | text <;> simp [text, openBrace, closeBrace]

/-- A token is an opening bracket, a closing bracket or none. -/
theorem Token.bracket_cases (t : Token) :
    t.isOpener = true ∨ t.isCloser = true ∨ t.symbol.isPlain = true := by
  simp only [isOpener, isCloser, symbol, Symbol.isPlain, List.contains_cons, List.contains_nil]
  grind

/-- The bracket at `j` closes the one at `i`: it is of the same kind, and all brackets between them have
their partners there. -/
structure Closes (ts : List Token) (i j : Nat) : Prop where
  /-- An opening bracket stands at `i` and its closing bracket at `j`. -/
  kinds : ∃ o c, ts[i]? = some o ∧ ts[j]? = some c ∧ o.isOpener = true ∧ c.isCloser = true ∧
    closerOf o.text = c.text
  /-- The closing bracket is behind the opening one. -/
  before : i < j
  /-- What stands between them is well-nested. -/
  between : Nested ((tokensBetween ts (i + 1) j).map Token.symbol)

section

variable {ts : List Token} {i j k : Nat} {t : Token}

theorem Nested.append_between (nested : Nested ((tokensBetween ts i j).map Token.symbol))
    (nested' : Nested ((tokensBetween ts j k).map Token.symbol)) (le : i ≤ j) (le' : j ≤ k) :
    Nested ((tokensBetween ts i k).map Token.symbol) := by
  rw [← tokensBetween_append le le', List.map_append]
  exact nested.append nested'

theorem Nested.between_plain (here : ts[i]? = some t) (plain : t.symbol.isPlain = true) :
    Nested ((tokensBetween ts i (i + 1)).map Token.symbol) := by
  rw [tokensBetween_succ here, List.map_singleton]
  exact Nested.plain plain

theorem Closes.isOpener (closes : Closes ts i j) (here : ts[i]? = some t) : t.isOpener = true := by
  obtain ⟨o, c, opens, -, opener, -⟩ := closes.kinds
  cases here.symm.trans opens
  exact opener

theorem Closes.isCloser (closes : Closes ts i j) (here : ts[j]? = some t) : t.isCloser = true := by
  obtain ⟨o, c, -, ends, -, closer, -⟩ := closes.kinds
  cases here.symm.trans ends
  exact closer

/-- A pair of brackets and what is between them is well-nested. -/
theorem Closes.nested (closes : Closes ts i j) :
    Nested ((tokensBetween ts i (j + 1)).map Token.symbol) := by
  obtain ⟨o, c, opens, ends, opener, closer, kind⟩ := closes.kinds
  obtain ⟨text, among, first, last⟩ := Token.mark_of_closerOf opener closer kind
  have before := closes.before
  rw [tokensBetween_eq_cons opens (by omega), ← tokensBetween_append before (Nat.le_succ j),
    tokensBetween_succ ends, List.map_cons, List.map_append, List.map_singleton, first, last]
  exact Nested.bracket among closes.between

end

/-! ## Brackets that are open -/

/-- The brackets that are open at `i`, innermost first: between one and the next, as before the first and
behind the last, everything has its partner. -/
def AreOpen (ts : List Token) (i : Nat) : List (Nat × Token) → Prop
  | [] => Nested ((tokensBetween ts 0 i).map Token.symbol)
  | (j, o) :: outer => j < i ∧ ts[j]? = some o ∧ o.isOpener = true ∧
    Nested ((tokensBetween ts (j + 1) i).map Token.symbol) ∧ AreOpen ts j outer

section

variable {ts : List Token} {i j : Nat} {opened : List (Nat × Token)}

/-- The same brackets are open behind a well-nested piece. -/
theorem AreOpen.append (areOpen : AreOpen ts i opened) (le : i ≤ j)
    (nested : Nested ((tokensBetween ts i j).map Token.symbol)) : AreOpen ts j opened := by
  cases opened with
  | nil => exact Nested.append_between areOpen nested (Nat.zero_le i) le
  | cons e outer =>
    obtain ⟨less, here, opener, inner, rest⟩ := areOpen
    exact ⟨Nat.lt_of_lt_of_le less le, here, opener, inner.append_between nested less le, rest⟩

/-- Only earlier brackets are open. -/
theorem AreOpen.lt (areOpen : AreOpen ts i opened) : ∀ e ∈ opened, e.1 < i := by
  induction opened generalizing i with
  | nil => exact fun e mem => absurd mem List.not_mem_nil
  | cons e outer ih =>
    obtain ⟨less, -, -, -, rest⟩ := areOpen
    exact List.forall_mem_cons.mpr ⟨less, fun e' mem => Nat.lt_trans (ih rest e' mem) less⟩

end

/-- What is known of the state that the first `i` tokens are read to. -/
structure BracketState.Pairs (ts : List Token) (i : Nat) (s : BracketState) : Prop where
  /-- There is room for the partner of every token. -/
  size : s.partners.size = ts.length
  /-- The brackets that are open. -/
  opened : AreOpen ts i s.opened
  /-- An open bracket has no partner yet. -/
  free : ∀ e ∈ s.opened, s.partners[e.1]? = some none
  /-- Partners know each other, are among the tokens read, and one closes the other. -/
  partners : ∀ k l, s.partners[k]? = some (some l) →
    l < i ∧ s.partners[l]? = some (some k) ∧ (Closes ts k l ∨ Closes ts l k)
  /-- An opening bracket is open or has its partner. -/
  openers : ∀ k t, k < i → ts[k]? = some t → t.isOpener = true →
    (k, t) ∈ s.opened ∨ ∃ l, s.partners[k]? = some (some l)
  /-- A closing bracket has its partner. -/
  closers : ∀ k t, k < i → ts[k]? = some t → t.isCloser = true → ∃ l, s.partners[k]? = some (some l)

namespace BracketState

section

variable {ts : List Token} {i : Nat} {s next : BracketState} {t : Token}

/-- The earlier one of two partners is closed by the later one. -/
theorem Pairs.closes {k l : Nat} (pairs : Pairs ts i s) (pair : s.partners[k]? = some (some l))
    (less : k < l) : Closes ts k l := by
  obtain ⟨-, -, closes | closes⟩ := pairs.partners k l pair
  · exact closes
  · exact absurd closes.before (Nat.not_lt_of_gt less)

/-- What is so of all tokens before a token and of this one is so of all tokens before the next. -/
theorem forall_lt_succ {holds : Nat → Token → Prop} (here : ts[i]? = some t)
    (before : ∀ k u, k < i → ts[k]? = some u → holds k u) (last : holds i t) :
    ∀ k u, k < i + 1 → ts[k]? = some u → holds k u := by
  intro k u less found
  rcases Nat.lt_succ_iff_lt_or_eq.mp less with less | rfl
  · exact before k u less found
  · cases here.symm.trans found
    exact last

/-- Where two brackets are made partners, all others keep theirs. -/
theorem getElem?_pair {partners : Partners} {j : Nat} (less : j < i) (room : i < partners.size) (k : Nat) :
    ((partners.setIfInBounds j (some i)).setIfInBounds i (some j))[k]? =
      if k = i then some (some j) else if k = j then some (some i) else partners[k]? := by
  rw [Array.getElem?_setIfInBounds, Array.getElem?_setIfInBounds, Array.size_setIfInBounds]
  simp only [eq_comm (a := i), eq_comm (a := j), if_pos room, if_pos (Nat.lt_trans less room)]

/-- Before the first token nothing is open and nothing has a partner. -/
theorem Pairs.start (ts : List Token) : Pairs ts 0 ⟨[], Array.replicate ts.length none⟩ := by
  refine ⟨Array.size_replicate, Nested.nil, fun e mem => absurd mem List.not_mem_nil, fun k l same => ?_,
    fun k t less => absurd less (Nat.not_lt_zero k), fun k t less => absurd less (Nat.not_lt_zero k)⟩
  rw [Array.getElem?_replicate] at same
  split at same <;> cases same

/-- An opening bracket is open. -/
theorem Pairs.opener (pairs : Pairs ts i s) (here : ts[i]? = some t) (opener : t.isOpener = true) :
    Pairs ts (i + 1) ⟨(i, t) :: s.opened, s.partners⟩ := by
  have room : i < s.partners.size := pairs.size ▸ (List.getElem?_eq_some_iff.mp here).1
  refine ⟨pairs.size, ⟨Nat.lt_succ_self i, here, opener, ?_, pairs.opened⟩, ?_, ?_, ?_, ?_⟩
  · rw [tokensBetween_of_le (Nat.le_refl _)]
    exact Nested.nil
  · -- A partner of the bracket that is read would have been read before, and the bracket with it.
    refine List.forall_mem_cons.mpr ⟨?_, pairs.free⟩
    cases found : s.partners[i] with
    | none => rw [Array.getElem?_eq_getElem room, found]
    | some l =>
      have partner : s.partners[i]? = some (some l) := by rw [Array.getElem?_eq_getElem room, found]
      obtain ⟨-, back, -⟩ := pairs.partners i l partner
      exact absurd (pairs.partners l i back).1 (Nat.lt_irrefl i)
  · exact fun k l partner => (pairs.partners k l partner).imp_left Nat.lt_succ_of_lt
  · refine forall_lt_succ here (fun k u less found isOpener => ?_) fun _ => .inl List.mem_cons_self
    exact (pairs.openers k u less found isOpener).imp_left (List.mem_cons_of_mem _)
  · exact forall_lt_succ here pairs.closers fun isCloser => absurd isCloser (Token.not_isCloser opener)

/-- A closing bracket gets the innermost open one as its partner. -/
theorem Pairs.closer {j : Nat} {o : Token} {outer : List (Nat × Token)} (pairs : Pairs ts i s)
    (here : ts[i]? = some t) (closer : t.isCloser = true) (noOpener : t.isOpener = false)
    (opened : s.opened = (j, o) :: outer) (kind : closerOf o.text = t.text) :
    Pairs ts (i + 1) ⟨outer, (s.partners.setIfInBounds j (some i)).setIfInBounds i (some j)⟩ := by
  have room : i < s.partners.size := pairs.size ▸ (List.getElem?_eq_some_iff.mp here).1
  have areOpen := pairs.opened
  have free := pairs.free
  rw [opened] at areOpen free
  obtain ⟨less, opens, opener, inner, rest⟩ := areOpen
  obtain ⟨freeHere, freeOuter⟩ := List.forall_mem_cons.mp free
  have closes : Closes ts j i := ⟨⟨o, t, opens, here, opener, closer, kind⟩, less, inner⟩
  have table := getElem?_pair less room
  have read : ∀ k l, s.partners[k]? = some (some l) → k ≠ i ∧ k ≠ j := by
    intro k l partner
    obtain ⟨-, back, -⟩ := pairs.partners k l partner
    refine ⟨Nat.ne_of_lt (pairs.partners l k back).1, ?_⟩
    rintro rfl
    cases freeHere.symm.trans partner
  refine ⟨by simpa using pairs.size, rest.append (Nat.le_succ_of_le less.le) closes.nested, ?_, ?_, ?_, ?_⟩
  · intro e mem
    have less' : e.1 < j := rest.lt e mem
    rw [table, if_neg (by omega), if_neg (by omega)]
    exact freeOuter e mem
  · intro k l partner
    rw [table] at partner
    split at partner
    case isTrue atEnd =>
      cases partner
      exact ⟨by omega, by rw [table, if_neg (by omega), if_pos rfl, atEnd], .inr (atEnd ▸ closes)⟩
    split at partner
    case isTrue atStart =>
      cases partner
      exact ⟨by omega, by rw [table, if_pos rfl, atStart], .inl (atStart ▸ closes)⟩
    case isFalse =>
      obtain ⟨less', back, pair⟩ := pairs.partners k l partner
      obtain ⟨other, other'⟩ := read l k back
      exact ⟨by omega, by rw [table, if_neg other, if_neg other', back], pair⟩
  · refine forall_lt_succ here (fun k u less' found isOpener => ?_) fun isOpener => ?_
    · rw [table, if_neg (by omega)]
      split
      case isTrue => exact .inr ⟨i, rfl⟩
      case isFalse other =>
        refine (pairs.openers k u less' found isOpener).imp_left fun mem => ?_
        rw [opened] at mem
        exact (List.mem_cons.mp mem).resolve_left fun same => other (congrArg Prod.fst same)
    · cases noOpener.symm.trans isOpener
  · refine forall_lt_succ here (fun k u less' found isCloser => ?_) fun _ => ⟨j, by rw [table, if_pos rfl]⟩
    obtain ⟨l, partner⟩ := pairs.closers k u less' found isCloser
    obtain ⟨other, other'⟩ := read k l partner
    exact ⟨l, by rw [table, if_neg other, if_neg other', partner]⟩

/-- A token that is no bracket does not matter. -/
theorem Pairs.plain (pairs : Pairs ts i s) (here : ts[i]? = some t) (noOpener : t.isOpener = false)
    (noCloser : t.isCloser = false) : Pairs ts (i + 1) s := by
  have plain : t.symbol.isPlain = true := by
    rcases t.bracket_cases with opener | closer | plain
    · cases noOpener.symm.trans opener
    · cases noCloser.symm.trans closer
    · exact plain
  refine ⟨pairs.size, pairs.opened.append (Nat.le_succ i) (Nested.between_plain here plain), pairs.free,
    fun k l partner => (pairs.partners k l partner).imp_left Nat.lt_succ_of_lt, ?_, ?_⟩
  · exact forall_lt_succ here pairs.openers fun isOpener => by cases noOpener.symm.trans isOpener
  · exact forall_lt_succ here pairs.closers fun isCloser => by cases noCloser.symm.trans isCloser

/-- Reading one more token. -/
theorem Pairs.read (pairs : Pairs ts i s) (here : ts[i]? = some t) (done : s.read i t = .ok next) :
    Pairs ts (i + 1) next := by
  rcases read_cases done with ⟨opener, rfl⟩ | ⟨noOpener, closer, j, o, outer, opened, kind, rfl⟩ |
    ⟨noOpener, noCloser, rfl⟩
  · exact pairs.opener here opener
  · exact pairs.closer here closer noOpener opened kind
  · exact pairs.plain here noOpener noCloser

end

/-- Whether the first `i` tokens of a list are read to a state. -/
def Reached (ts : List Token) (i : Nat) (s : BracketState) : Prop :=
  BracketState.readAll ⟨[], Array.replicate ts.length none⟩ 0 (ts.take i) = .ok s

section

variable {ts : List Token} {i j n : Nat} {s next : BracketState} {t : Token}

/-- What is read passes through every earlier place. -/
theorem Reached.prior (reached : Reached ts n s) (le : i ≤ n) (within : i ≤ ts.length) :
    ∃ before, Reached ts i before ∧ before.readAll i (tokensBetween ts i n) = .ok s := by
  rw [Reached, take_eq_append le, readAll_append, List.length_take, Nat.min_eq_left within,
    Nat.zero_add] at reached
  exact bind_eq_ok.mp reached

/-- The state that a list is read to at some place is known by its pairs. -/
theorem Reached.pairs (reached : Reached ts i s) (within : i ≤ ts.length) : Pairs ts i s := by
  induction i generalizing s with
  | zero =>
    cases reached
    exact Pairs.start ts
  | succ i ih =>
    obtain ⟨t, here⟩ : ∃ t, ts[i]? = some t := ⟨_, List.getElem?_eq_getElem within⟩
    obtain ⟨before, reached, done⟩ := reached.prior (Nat.le_succ i) (Nat.le_of_succ_le within)
    rw [tokensBetween_succ here, readAll_singleton] at done
    exact (ih reached (Nat.le_of_succ_le within)).read here done

/-- The bracket that is closed at `j` is the innermost one that is open there. -/
theorem Reached.top (reached : Reached ts j s) (closes : Closes ts i j) :
    ∃ o outer, ts[i]? = some o ∧ s.opened = (i, o) :: outer := by
  obtain ⟨o, c, opens, -, opener, -, -⟩ := closes.kinds
  have within : i ≤ ts.length := (List.getElem?_eq_some_iff.mp opens).1.le
  obtain ⟨before, -, done⟩ := reached.prior closes.before.le within
  rw [tokensBetween_eq_cons opens closes.before, readAll, BracketState.read, if_pos opener] at done
  obtain ⟨after, inner, spares⟩ :=
    readAll_nested closes.between ⟨(i, o) :: before.opened, before.partners⟩ (i + 1)
  cases done.symm.trans inner
  exact ⟨o, before.opened, opens, spares.opened⟩

/-- A bracket that is open was open before or has been read since. -/
theorem mem_opened_readAll {us : List Token} (done : s.readAll i us = .ok next) :
    ∀ e ∈ next.opened, e ∈ s.opened ∨ i ≤ e.1 := by
  induction us generalizing s i with
  | nil =>
    cases done
    exact fun e mem => .inl mem
  | cons u us ih =>
    obtain ⟨mid, read, rest⟩ := bind_eq_ok.mp done
    intro e mem
    rcases ih rest e mem with mem | le
    · rcases read_cases read with ⟨-, rfl⟩ | ⟨-, -, j, o, outer, opened, -, rfl⟩ | ⟨-, -, rfl⟩
      · rcases List.mem_cons.mp mem with rfl | mem
        · exact .inr (Nat.le_refl i)
        · exact .inl mem
      · exact .inl (opened ▸ List.mem_cons_of_mem _ mem)
      · exact .inl mem
    · exact .inr (Nat.le_of_succ_le le)

/-- A bracket that has been closed, and all that was between the two, is not open any more. -/
theorem Reached.not_within (reached : Reached ts n s) (closes : Closes ts i j) (less : j < n) :
    ∀ e ∈ s.opened, e.1 < i ∨ j < e.1 := by
  obtain ⟨o, c, -, ends, -, closer, -⟩ := closes.kinds
  have within : j < ts.length := (List.getElem?_eq_some_iff.mp ends).1
  obtain ⟨before, reached, done⟩ := reached.prior less.le within.le
  obtain ⟨o', outer, -, opened⟩ := reached.top closes
  have areOpen := (reached.pairs within.le).opened
  rw [opened] at areOpen
  rw [tokensBetween_eq_cons ends less] at done
  obtain ⟨mid, read, rest⟩ := bind_eq_ok.mp done
  intro e mem
  rcases mem_opened_readAll rest e mem with mem | le
  · rcases read_cases read with ⟨opener, -⟩ | ⟨-, -, k, u, rest', opened', -, rfl⟩ | ⟨-, noCloser, -⟩
    · exact absurd closer (Token.not_isCloser opener)
    · rw [opened] at opened'
      cases opened'
      exact .inl (areOpen.2.2.2.2.lt e mem)
    · cases noCloser.symm.trans closer
  · exact .inr le

/-- A list is read, or reading stops at one of its tokens. -/
theorem readAll_error {us : List Token} {e : SourceError} (fails : s.readAll i us = .error e) :
    ∃ front u back mid, us = front ++ u :: back ∧ s.readAll i front = .ok mid ∧
      mid.read (i + front.length) u = .error e := by
  induction us generalizing s i with
  | nil => cases fails
  | cons u us ih =>
    cases read : s.read i u with
    | error e' =>
      rw [readAll, read] at fails
      cases fails
      exact ⟨[], u, us, s, rfl, rfl, read⟩
    | ok next =>
      rw [readAll, read] at fails
      obtain ⟨front, u', back, mid, rfl, reads, stops⟩ := ih fails
      refine ⟨u :: front, u', back, mid, rfl, bind_eq_ok.mpr ⟨next, read, reads⟩, ?_⟩
      rwa [List.length_cons, Nat.add_comm front.length, ← Nat.add_assoc]

/-- Reading stops at a closing bracket that does not go with the innermost open one. -/
theorem read_error {e : SourceError} (stops : s.read i t = .error e) :
    t.isOpener = false ∧ t.isCloser = true ∧ e = ⟨t.start, .unexpectedCloser t.text⟩ ∧
      ∀ j o outer, s.opened = (j, o) :: outer → closerOf o.text ≠ t.text := by
  unfold BracketState.read at stops
  split at stops
  case isTrue => cases stops
  case isFalse noOpener =>
  split at stops
  case isFalse => cases stops
  case isTrue closer =>
  refine ⟨Bool.eq_false_iff.mpr noOpener, closer, ?_⟩
  split at stops
  case h_1 j o outer opened =>
    split at stops
    case isTrue => cases stops
    case isFalse other =>
      cases stops
      refine ⟨rfl, fun j' o' outer' same => ?_⟩
      cases opened.symm.trans same
      exact other
  case h_2 empty =>
    cases stops
    refine ⟨rfl, fun j o outer same => ?_⟩
    cases empty.symm.trans same

end

end BracketState

/-! ## The only pairing without crossings -/

/-- A table that pairs all brackets of a token list in such a way that no two pairs cross. -/
structure IsPairing (ts : List Token) (partners : Partners) : Prop where
  /-- There is an entry for every token. -/
  size : partners.size = ts.length
  /-- Only brackets have partners. -/
  plain : ∀ (i : Nat) (t : Token), ts[i]? = some t → t.isOpener = false → t.isCloser = false →
    partners[i]? = some none
  /-- The partner of an opening bracket is a closing one of its kind further on. -/
  opener : ∀ (i : Nat) (o : Token), ts[i]? = some o → o.isOpener = true →
    ∃ (j : Nat) (c : Token), partners[i]? = some (some j) ∧ i < j ∧ ts[j]? = some c ∧
      c.isCloser = true ∧ closerOf o.text = c.text
  /-- The partner of a closing bracket is an earlier one. -/
  closer : ∀ (j : Nat) (c : Token), ts[j]? = some c → c.isCloser = true →
    ∃ i : Nat, partners[j]? = some (some i) ∧ i < j
  /-- A bracket is the partner of its partner. -/
  symm : ∀ i j : Nat, partners[i]? = some (some j) → partners[j]? = some (some i)
  /-- A pair that starts in another one does not end behind it. -/
  noCrossing : ∀ i j k l : Nat, partners[i]? = some (some j) → partners[k]? = some (some l) →
    i < k → k < j → ¬ j < l

section

variable {ts : List Token} {partners : Partners}

/-- A pair with one end in another pair has both ends there. -/
theorem IsPairing.inside (pairing : IsPairing ts partners) {i j k l : Nat}
    (pair : partners[i]? = some (some j)) (pair' : partners[k]? = some (some l)) (less : i < k)
    (less' : k < j) : i < l ∧ l < j := by
  have back := pairing.symm i j pair
  have back' := pairing.symm k l pair'
  have left : l ≠ i := by
    rintro rfl
    cases pair.symm.trans back'
    exact Nat.lt_irrefl j less'
  have right : l ≠ j := by
    rintro rfl
    cases back.symm.trans back'
    exact Nat.lt_irrefl i less
  have ends := pairing.noCrossing i j k l pair pair' less less'
  have starts : ¬ l < i := fun out => pairing.noCrossing l k i j back' pair out less less'
  omega

/-- A stretch of tokens is well-nested if the brackets in it have their partners there. -/
theorem IsPairing.nested (pairing : IsPairing ts partners) (n i j : Nat) (length : i + n = j)
    (le : j ≤ ts.length)
    (closed : ∀ k l, i ≤ k → k < j → partners[k]? = some (some l) → i ≤ l ∧ l < j) :
    Nested ((tokensBetween ts i j).map Token.symbol) := by
  -- The first token is taken off, with all that is up to its partner if it has one.
  induction n using Nat.strong_induction_on generalizing i j with
  | _ n ih =>
    rcases Nat.eq_zero_or_pos n with rfl | pos
    · rw [tokensBetween_of_le (by omega)]
      exact Nested.nil
    obtain ⟨t, here⟩ : ∃ t, ts[i]? = some t := ⟨_, List.getElem?_eq_getElem (by omega)⟩
    rcases t.bracket_cases with opener | closer | plain
    · obtain ⟨m, c, pair, less, ends, closer, kind⟩ := pairing.opener i t here opener
      obtain ⟨-, less'⟩ := closed i m (Nat.le_refl i) (by omega) pair
      have between : Nested ((tokensBetween ts (i + 1) m).map Token.symbol) := by
        refine ih (m - (i + 1)) (by omega) (i + 1) m (by omega) (by omega) fun k l low high pair' => ?_
        exact pairing.inside pair pair' low high
      have closes : Closes ts i m := ⟨⟨t, c, here, ends, opener, closer, kind⟩, less, between⟩
      refine closes.nested.append_between ?_ (by omega) less'
      refine ih (j - (m + 1)) (by omega) (m + 1) j (by omega) le fun k l low high pair' => ?_
      obtain ⟨low', high'⟩ := closed k l (by omega) high pair'
      refine ⟨?_, high'⟩
      -- A partner before `m + 1` would be one of the two ends or be between them, and so would `k`.
      by_contra before
      have back' := pairing.symm k l pair'
      rcases Nat.lt_trichotomy l i with out | rfl | inner
      · omega
      · cases pair.symm.trans back'
        omega
      rcases Nat.lt_or_eq_of_le (Nat.le_of_lt_succ (Nat.lt_of_not_le before)) with inner' | rfl
      · obtain ⟨-, high''⟩ := pairing.inside pair back' inner inner'
        omega
      · cases (pairing.symm i l pair).symm.trans back'
        omega
    · obtain ⟨l, pair, less⟩ := pairing.closer i t here closer
      obtain ⟨low, -⟩ := closed i l (Nat.le_refl i) (by omega) pair
      omega
    · obtain ⟨noOpener, noCloser⟩ := Token.isOpener_of_isPlain plain
      have free := pairing.plain i t here noOpener noCloser
      refine (Nested.between_plain here plain).append_between ?_ (Nat.le_succ i) (by omega)
      refine ih (n - 1) (by omega) (i + 1) j (by omega) le fun k l low high pair => ?_
      obtain ⟨low', high'⟩ := closed k l (by omega) high pair
      refine ⟨Nat.lt_of_le_of_ne low' ?_, high'⟩
      rintro rfl
      cases free.symm.trans (pairing.symm k i pair)

/-- All that is between two partners is well-nested. -/
theorem IsPairing.nested_between (pairing : IsPairing ts partners) {i j : Nat} (less : i < j)
    (pair : partners[i]? = some (some j)) : Nested ((tokensBetween ts (i + 1) j).map Token.symbol) := by
  have back := pairing.symm i j pair
  have within : j < ts.length := pairing.size ▸ (Array.getElem?_eq_some_iff.mp back).1
  refine pairing.nested (j - (i + 1)) (i + 1) j (by omega) within.le fun k l low high pair' => ?_
  exact pairing.inside pair pair' low high

/-- The later one of two partners closes the earlier one. -/
theorem IsPairing.closes (pairing : IsPairing ts partners) {i j : Nat} (pair : partners[i]? = some (some j))
    (less : i < j) : Closes ts i j := by
  have room : i < ts.length := pairing.size ▸ (Array.getElem?_eq_some_iff.mp pair).1
  obtain ⟨t, here⟩ : ∃ t, ts[i]? = some t := ⟨_, List.getElem?_eq_getElem room⟩
  rcases t.bracket_cases with opener | closer | plain
  · obtain ⟨m, c, pair', -, ends, closer, kind⟩ := pairing.opener i t here opener
    cases pair.symm.trans pair'
    exact ⟨⟨t, c, here, ends, opener, closer, kind⟩, less, pairing.nested_between less pair⟩
  · obtain ⟨m, pair', less'⟩ := pairing.closer i t here closer
    cases pair.symm.trans pair'
    exact absurd less (Nat.not_lt_of_gt less')
  · obtain ⟨noOpener, noCloser⟩ := Token.isOpener_of_isPlain plain
    cases pair.symm.trans (pairing.plain i t here noOpener noCloser)

/-- A token list whose brackets are paired is well-nested. -/
theorem IsPairing.nested_all (pairing : IsPairing ts partners) : Nested (ts.map Token.symbol) := by
  have whole := pairing.nested ts.length 0 ts.length (Nat.zero_add _) (Nat.le_refl _) ?_
  · rwa [tokensBetween, List.take_length, List.drop_zero] at whole
  · intro k l low high pair
    exact ⟨Nat.zero_le l, pairing.size ▸ (Array.getElem?_eq_some_iff.mp (pairing.symm k l pair)).1⟩

end

open BracketState

section

variable {tokens : Array Token} {partners : Partners}

/-- Where brackets are matched, the whole list is read and none is open behind it. -/
theorem exists_reached_of_matched (matched : matchBrackets tokens = .ok partners) :
    ∃ s, Reached tokens.toList tokens.size s ∧ s.opened = [] ∧ s.partners = partners := by
  obtain ⟨s, read, matched⟩ := bind_eq_ok.mp matched
  refine ⟨s, by rwa [Reached, Array.length_toList, ← Array.length_toList, List.take_length], ?_⟩
  split at matched
  case h_1 => cases matched
  case h_2 opened =>
    cases matched
    exact ⟨opened, rfl⟩

/-- The table that is found pairs all brackets, each with the one that closes it. -/
theorem isPairing_of_matched (matched : matchBrackets tokens = .ok partners) :
    IsPairing tokens.toList partners := by
  obtain ⟨s, reached, empty, rfl⟩ := exists_reached_of_matched matched
  have pairs := reached.pairs (Array.length_toList ▸ Nat.le_refl _)
  have read : ∀ {i t}, tokens.toList[i]? = some t → i < tokens.size := fun found =>
    Array.length_toList ▸ (List.getElem?_eq_some_iff.mp found).1
  refine ⟨pairs.size, ?_, ?_, ?_, fun k l pair => (pairs.partners k l pair).2.1, ?_⟩
  · intro i t found noOpener noCloser
    have room : i < s.partners.size := pairs.size ▸ (List.getElem?_eq_some_iff.mp found).1
    rw [Array.getElem?_eq_getElem room]
    cases pair : s.partners[i] with
    | none => rfl
    | some l =>
      rw [← Option.some_inj, ← Array.getElem?_eq_getElem room] at pair
      obtain ⟨-, -, closes | closes⟩ := pairs.partners i l pair
      · cases noOpener.symm.trans (closes.isOpener found)
      · cases noCloser.symm.trans (closes.isCloser found)
  · intro i o found opener
    obtain opened | ⟨j, pair⟩ := pairs.openers i o (read found) found opener
    · rw [empty] at opened
      cases opened
    · obtain ⟨-, -, closes | closes⟩ := pairs.partners i j pair
      · obtain ⟨o', c, found', ends, -, closer, kind⟩ := closes.kinds
        cases found.symm.trans found'
        exact ⟨j, c, pair, closes.before, ends, closer, kind⟩
      · exact absurd (closes.isCloser found) (Token.not_isCloser opener)
  · intro j c found closer
    obtain ⟨i, pair⟩ := pairs.closers j c (read found) found closer
    obtain ⟨-, -, closes | closes⟩ := pairs.partners j i pair
    · exact absurd closer (Token.not_isCloser (closes.isOpener found))
    · exact ⟨i, pair, closes.before⟩
  · -- The second pair would start inside the first one and still be open behind it.
    intro i j k l pair pair' less less' less''
    have closes := pairs.closes pair (Nat.lt_trans less less')
    have closes' := pairs.closes pair' (Nat.lt_trans less' less'')
    obtain ⟨-, c, -, ends, -⟩ := closes'.kinds
    obtain ⟨before, reached, -⟩ := reached.prior (read ends).le (List.getElem?_eq_some_iff.mp ends).1.le
    obtain ⟨o, outer, -, opened⟩ := reached.top closes'
    rcases reached.not_within closes less'' (k, o) (opened ▸ List.mem_cons_self) with out | out
    · exact Nat.lt_asymm less out
    · exact Nat.lt_asymm less' out

/-- A bracket and the one that closes it are partners. -/
theorem partner_of_closes (matched : matchBrackets tokens = .ok partners) {i j : Nat}
    (closes : Closes tokens.toList i j) : partners[i]? = some (some j) := by
  obtain ⟨o, c, here, ends, opener, closer, kind⟩ := closes.kinds
  obtain ⟨text, among, first, last⟩ := Token.mark_of_closerOf opener closer kind
  have less := closes.before
  obtain ⟨within, -⟩ := List.getElem?_eq_some_iff.mp ends
  have split : tokens.toList = tokens.toList.take i ++
      (o :: (tokensBetween tokens.toList (i + 1) j ++ [c]) ++ tokens.toList.drop (j + 1)) := by
    rw [← tokensBetween_succ ends, tokensBetween_append less (Nat.le_succ j),
      ← tokensBetween_eq_cons here (Nat.lt_succ_of_lt less), ← List.append_assoc,
      ← take_eq_append (by omega), List.take_append_drop]
  have place : (tokens.toList.take i).length = i := by
    rw [List.length_take]
    omega
  have length : i + 1 + (tokensBetween tokens.toList (i + 1) j).length = j := by
    rw [tokensBetween, List.length_drop, List.length_take]
    omega
  have partner := partner_of_nested matched among split first last closes.between
  rwa [place, length] at partner

/-- Brackets are matched exactly by the pairing without crossings, of which there is one at most. -/
theorem matchBrackets_eq_ok_iff : matchBrackets tokens = .ok partners ↔ IsPairing tokens.toList partners := by
  refine ⟨isPairing_of_matched, fun pairing => ?_⟩
  obtain ⟨found, matched⟩ := exists_partners_of_nested pairing.nested_all
  have pairing' := isPairing_of_matched matched
  rw [matched]
  refine congrArg _ (Array.ext_getElem? fun i => ?_)
  cases here : tokens.toList[i]? with
  | none =>
    have out := List.getElem?_eq_none_iff.mp here
    rw [Array.getElem?_eq_none (pairing'.size ▸ out), Array.getElem?_eq_none (pairing.size ▸ out)]
  | some t =>
    rcases t.bracket_cases with opener | closer | plain
    · obtain ⟨j, -, pair, less, -⟩ := pairing.opener i t here opener
      rw [pair, partner_of_closes matched (pairing.closes pair less)]
    · obtain ⟨j, pair, less⟩ := pairing.closer i t here closer
      have closes := pairing.closes (pairing.symm i j pair) less
      rw [pair, pairing'.symm j i (partner_of_closes matched closes)]
    · obtain ⟨noOpener, noCloser⟩ := Token.isOpener_of_isPlain plain
      rw [pairing'.plain i t here noOpener noCloser, pairing.plain i t here noOpener noCloser]

end

/-! ## The complaint about brackets -/

/-- What a bracket error of a token list has to say. -/
inductive IsFault (ts : List Token) : SourceError → Prop
  /-- The first closing bracket that does not close the innermost open one is not expected. -/
  | unexpected {i : Nat} {c : Token} (here : ts[i]? = some c) (closer : c.isCloser = true)
      (closesNone : ∀ j, ¬ Closes ts j i)
      (earlier : ∀ (k : Nat) (t : Token), k < i → ts[k]? = some t → t.isCloser = true → ∃ j, Closes ts j k) :
      IsFault ts ⟨c.start, .unexpectedCloser c.text⟩
  /-- Where every closing bracket closes one, the last bracket that none closes is never closed. -/
  | neverClosed {i : Nat} {o : Token} (here : ts[i]? = some o) (opener : o.isOpener = true)
      (notClosed : ∀ j, ¬ Closes ts i j)
      (closers : ∀ (k : Nat) (t : Token), ts[k]? = some t → t.isCloser = true → ∃ j, Closes ts j k)
      (later : ∀ (k : Nat) (t : Token), i < k → ts[k]? = some t → t.isOpener = true → ∃ j, Closes ts k j) :
      IsFault ts ⟨o.start, .neverClosed o.text⟩

section

variable {ts : List Token} {e e' : SourceError}

/-- A token list has one fault at most. -/
theorem IsFault.unique (fault : IsFault ts e) (fault' : IsFault ts e') : e = e' := by
  cases fault with
  | @unexpected i c here closer closesNone earlier =>
    cases fault' with
    | @unexpected i' c' here' closer' closesNone' earlier' =>
      rcases Nat.lt_trichotomy i i' with less | rfl | less
      · obtain ⟨j, closes⟩ := earlier' i c less here closer
        exact absurd closes (closesNone j)
      · cases here.symm.trans here'
        rfl
      · obtain ⟨j, closes⟩ := earlier i' c' less here' closer'
        exact absurd closes (closesNone' j)
    | neverClosed _ _ _ closers _ =>
      obtain ⟨j, closes⟩ := closers i c here closer
      exact absurd closes (closesNone j)
  | @neverClosed i o here opener notClosed closers later =>
    cases fault' with
    | @unexpected i' c' here' closer' closesNone' earlier' =>
      obtain ⟨j, closes⟩ := closers i' c' here' closer'
      exact absurd closes (closesNone' j)
    | @neverClosed i' o' here' opener' notClosed' closers' later' =>
      rcases Nat.lt_trichotomy i i' with less | rfl | less
      · obtain ⟨j, closes⟩ := later i' o' less here' opener'
        exact absurd closes (notClosed' j)
      · cases here.symm.trans here'
        rfl
      · obtain ⟨j, closes⟩ := later' i o less here opener
        exact absurd closes (notClosed j)

/-- Where brackets are paired nothing is at fault. -/
theorem IsPairing.not_isFault {partners : Partners} (pairing : IsPairing ts partners) :
    ¬ IsFault ts e := by
  intro fault
  cases fault with
  | @unexpected i c here closer closesNone earlier =>
    obtain ⟨j, pair, less⟩ := pairing.closer i c here closer
    exact closesNone j (pairing.closes (pairing.symm i j pair) less)
  | @neverClosed i o here opener notClosed closers later =>
    obtain ⟨j, -, pair, less, -⟩ := pairing.opener i o here opener
    exact notClosed j (pairing.closes pair less)

end

namespace BracketState

variable {ts : List Token} {i k : Nat} {s : BracketState} {t : Token} {e : SourceError}

/-- Every closing bracket that has been read closes one. -/
theorem Pairs.exists_closes (pairs : Pairs ts i s) (less : k < i) (here : ts[k]? = some t)
    (closer : t.isCloser = true) : ∃ j, Closes ts j k := by
  obtain ⟨j, pair⟩ := pairs.closers k t less here closer
  obtain ⟨-, -, closes | closes⟩ := pairs.partners k j pair
  · exact absurd closer (Token.not_isCloser (closes.isOpener here))
  · exact ⟨j, closes⟩

/-- The token that reading stops at is at fault. -/
theorem Reached.isFault_of_read (reached : Reached ts i s) (here : ts[i]? = some t)
    (stops : s.read i t = .error e) : IsFault ts e := by
  have within : i ≤ ts.length := (List.getElem?_eq_some_iff.mp here).1.le
  obtain ⟨-, closer, rfl, other⟩ := read_error stops
  refine .unexpected here closer (fun j closes => ?_) fun _ _ less found isCloser =>
    (reached.pairs within).exists_closes less found isCloser
  obtain ⟨o, outer, opens, opened⟩ := reached.top closes
  obtain ⟨o', c, opens', ends, -, -, kind⟩ := closes.kinds
  cases opens.symm.trans opens'
  cases here.symm.trans ends
  exact other j o outer opened kind

/-- The innermost bracket that is open behind the last token is at fault. -/
theorem Reached.isFault_of_opened (reached : Reached ts ts.length s) {j : Nat} {o : Token}
    {outer : List (Nat × Token)} (opened : s.opened = (j, o) :: outer) :
    IsFault ts ⟨o.start, .neverClosed o.text⟩ := by
  have pairs := reached.pairs (Nat.le_refl _)
  have areOpen := pairs.opened
  rw [opened] at areOpen
  obtain ⟨-, here, opener, -, rest⟩ := areOpen
  refine .neverClosed here opener (fun k closes => ?_) (fun k t found closer => ?_)
    fun k t less found isOpener => ?_
  · obtain ⟨-, c, -, ends, -⟩ := closes.kinds
    have within : k < ts.length := (List.getElem?_eq_some_iff.mp ends).1
    rcases reached.not_within closes within (j, o) (opened ▸ List.mem_cons_self) with out | out
    · exact Nat.lt_irrefl j out
    · exact Nat.lt_asymm closes.before out
  · exact pairs.exists_closes (List.getElem?_eq_some_iff.mp found).1 found closer
  · obtain mem | ⟨l, pair⟩ := pairs.openers k t (List.getElem?_eq_some_iff.mp found).1 found isOpener
    · rw [opened] at mem
      rcases List.mem_cons.mp mem with same | mem
      · cases same
        exact absurd less (Nat.lt_irrefl j)
      · exact absurd less (Nat.lt_asymm (rest.lt (k, t) mem))
    · obtain ⟨-, -, closes | closes⟩ := pairs.partners k l pair
      · exact ⟨l, closes⟩
      · exact absurd (closes.isCloser found) (Token.not_isCloser isOpener)

end BracketState

section

variable {tokens : Array Token} {e : SourceError}

/-- The complaint about the brackets of a list is its fault. -/
theorem isFault_of_matched (failed : matchBrackets tokens = .error e) : IsFault tokens.toList e := by
  unfold matchBrackets at failed
  cases read : readAll ⟨[], Array.replicate tokens.size none⟩ 0 tokens.toList with
  | error e' =>
    rw [read] at failed
    cases failed
    obtain ⟨front, t, back, mid, split, reads, stops⟩ := readAll_error read
    have reached : Reached tokens.toList front.length mid := by
      rw [Reached, Array.length_toList, split, List.take_left]
      exact reads
    rw [Nat.zero_add] at stops
    exact reached.isFault_of_read (by simp [split]) stops
  | ok s =>
    have reached : Reached tokens.toList tokens.toList.length s := by
      rwa [Reached, Array.length_toList, ← Array.length_toList, List.take_length]
    rw [read] at failed
    simp only [bind, Except.bind] at failed
    split at failed
    case h_1 j o outer opened =>
      cases failed
      exact reached.isFault_of_opened opened
    case h_2 => cases failed

/-- Brackets are complained about exactly by the fault of the list, of which there is one at most. -/
theorem matchBrackets_eq_error_iff : matchBrackets tokens = .error e ↔ IsFault tokens.toList e := by
  refine ⟨isFault_of_matched, fun fault => ?_⟩
  cases result : matchBrackets tokens with
  | ok partners => exact absurd fault (isPairing_of_matched result).not_isFault
  | error e' => rw [(isFault_of_matched result).unique fault]

end

/-! ## The brackets alone -/

/-- The symbols that are brackets. -/
def bracketsOf (ss : List Symbol) : List Symbol := ss.filter (!·.isPlain)

section

variable {ss : List Symbol}

theorem nested_of_plain (plain : ∀ s ∈ ss, s.isPlain = true) : Nested ss := by
  induction ss with
  | nil => exact Nested.nil
  | cons s ss ih =>
    obtain ⟨head, tail⟩ := List.forall_mem_cons.mp plain
    exact Nested.cons head (ih tail)

/-- A bracket is none of the plain symbols. -/
theorem Symbol.isPlain_mark {opener : String} (among : opener ∈ openers) :
    (mark opener).isPlain = false ∧ (mark (closerOf opener)).isPlain = false := by
  simp only [openers, List.mem_cons, List.not_mem_nil, or_false] at among
  rcases among with rfl | rfl | rfl <;> exact ⟨rfl, rfl⟩

/-- Of a well-nested list the brackets alone are well-nested. -/
theorem Nested.brackets (nested : Nested ss) : Nested (bracketsOf ss) := by
  induction nested with
  | nil => exact Nested.nil
  | plain plain =>
    rw [bracketsOf, List.filter_cons_of_neg (by simp [plain])]
    exact Nested.nil
  | append _ _ ih ih' =>
    rw [bracketsOf, List.filter_append]
    exact ih.append ih'
  | bracket among _ ih =>
    obtain ⟨opener, closer⟩ := Symbol.isPlain_mark among
    rw [bracketsOf, List.filter_cons_of_pos (by simp [opener]), List.filter_append,
      List.filter_cons_of_pos (by simp [closer])]
    exact Nested.bracket among ih

/-- A list is well-nested if its brackets alone are. -/
theorem nested_of_brackets (nested : Nested (bracketsOf ss)) : Nested ss := by
  generalize same : bracketsOf ss = bs at nested
  induction nested generalizing ss with
  | nil => exact nested_of_plain (by simpa [bracketsOf] using same)
  | @plain b plain =>
    have mem : b ∈ bracketsOf ss := same ▸ List.mem_singleton_self b
    rw [bracketsOf, List.mem_filter, plain] at mem
    cases mem.2
  | append _ _ ih ih' =>
    obtain ⟨front, back, rfl, same, same'⟩ := List.filter_eq_append_iff.mp same
    exact (ih same).append (ih' same')
  | bracket among _ ih =>
    obtain ⟨front, behind, rfl, before, -, same⟩ := List.filter_eq_cons_iff.mp same
    obtain ⟨inner, behind, rfl, inside, same⟩ := List.filter_eq_append_iff.mp same
    obtain ⟨gap, back, rfl, between, -, after⟩ := List.filter_eq_cons_iff.mp same
    -- What is not among the brackets before, between and behind them is plain.
    have front' : Nested front := nested_of_plain (by simpa using before)
    have gap' : Nested gap := nested_of_plain (by simpa using between)
    have back' : Nested back := nested_of_plain (by simpa using after)
    have whole := front'.append ((Nested.bracket among ((ih inside).append gap')).append back')
    simpa using whole

end

/-- Brackets are matched exactly where the brackets of the list alone are a well-nested word, by the only
pairing without crossings; and they are complained about exactly by the fault of the list. -/
theorem matchBrackets_exact (tokens : Array Token) :
    ((∃ partners, matchBrackets tokens = .ok partners) ↔
      Nested (bracketsOf (tokens.toList.map Token.symbol))) ∧
    (∀ partners, matchBrackets tokens = .ok partners ↔ IsPairing tokens.toList partners) ∧
    ∀ e, matchBrackets tokens = .error e ↔ IsFault tokens.toList e := by
  refine ⟨⟨?_, fun nested => ?_⟩, fun _ => matchBrackets_eq_ok_iff, fun _ => matchBrackets_eq_error_iff⟩
  · rintro ⟨partners, matched⟩
    exact (isPairing_of_matched matched).nested_all.brackets
  · exact exists_partners_of_nested (nested_of_brackets nested)

end ModuleLinker
