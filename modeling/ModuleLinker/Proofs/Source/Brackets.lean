import Mathlib
import ModuleLinker.Source.Brackets
import ModuleLinker.Proofs.Source.Behind

/-!
# The partners of brackets

A well-nested piece of a token list (`Nested`) is read without a trace: the brackets that were open
before it are open behind it. So an opening bracket that stands before a well-nested piece has its
partner right behind this piece (`partner_of_nested`), and a well-nested piece at the start of a
token list does not matter to the brackets behind it (`matchBrackets_behind`).
-/

set_option autoImplicit false

namespace ModuleLinker

/-- A symbol that is no bracket. -/
def Symbol.isPlain (s : Symbol) : Bool :=
  !(s.kind == .punct && ["(", ")", "[", "]", openBrace, closeBrace].contains s.text)

/-- The punctuators that open a bracket. -/
def openers : List String := ["(", "[", openBrace]

/-- Whether every bracket of a list of symbols has its partner in it. -/
inductive Nested : List Symbol → Prop
  /-- Nothing has no brackets. -/
  | nil : Nested []
  /-- A symbol that is no bracket. -/
  | plain {s : Symbol} : s.isPlain = true → Nested [s]
  /-- One such list after another. -/
  | append {ss ts : List Symbol} : Nested ss → Nested ts → Nested (ss ++ ts)
  /-- Such a list in brackets. -/
  | bracket {opener : String} {ss : List Symbol} : opener ∈ openers → Nested ss →
      Nested (.mark opener :: (ss ++ [.mark (closerOf opener)]))

theorem Nested.cons {s : Symbol} {ss : List Symbol} (plain : s.isPlain = true)
    (nested : Nested ss) : Nested (s :: ss) :=
  (Nested.plain plain).append nested

namespace Token

/-- Whether a token is a bracket is seen from its symbol. -/
theorem bracket_of_symbol {t u : Token} (same : u.symbol = t.symbol) :
    u.isOpener = t.isOpener ∧ u.isCloser = t.isCloser ∧ u.text = t.text := by
  obtain ⟨kind, text⟩ : u.kind = t.kind ∧ u.text = t.text := by
    simpa [symbol] using same
  exact ⟨by rw [isOpener, isOpener, kind, text], by rw [isCloser, isCloser, kind, text], text⟩

theorem isOpener_of_isPlain {t : Token} (plain : t.symbol.isPlain = true) :
    t.isOpener = false ∧ t.isCloser = false := by
  obtain ⟨kind, start, text, newline, holes⟩ := t
  simp only [symbol, Symbol.isPlain, List.contains_cons, List.contains_nil, Bool.or_false,
    Bool.not_eq_true', Bool.and_eq_false_iff, Bool.or_eq_false_iff] at plain
  simp only [isOpener, isCloser, Bool.and_eq_false_iff, Bool.or_eq_false_iff]
  tauto

theorem isOpener_of_mark {t : Token} {opener : String} (among : opener ∈ openers)
    (same : t.symbol = .mark opener) : t.isOpener = true ∧ t.text = opener := by
  obtain ⟨kind, start, text, newline, holes⟩ := t
  cases same
  refine ⟨?_, rfl⟩
  simp only [openers, List.mem_cons, List.not_mem_nil, or_false] at among
  rcases among with rfl | rfl | rfl <;> rfl

theorem isCloser_of_mark {t : Token} {opener : String} (among : opener ∈ openers)
    (same : t.symbol = .mark (closerOf opener)) :
    t.isOpener = false ∧ t.isCloser = true ∧ t.text = closerOf opener := by
  obtain ⟨kind, start, text, newline, holes⟩ := t
  cases same
  refine ⟨?_, ?_, rfl⟩ <;>
    simp only [openers, List.mem_cons, List.not_mem_nil, or_false] at among <;>
    rcases among with rfl | rfl | rfl <;> rfl

end Token

namespace BracketState

theorem readAll_append (s : BracketState) (i : Nat) (ts us : List Token) :
    s.readAll i (ts ++ us) = (s.readAll i ts).bind fun s' => s'.readAll (i + ts.length) us := by
  induction ts generalizing s i with
  | nil => rfl
  | cons t ts ih =>
    rw [List.cons_append, readAll, readAll, List.length_cons]
    cases s.read i t with
    | error e => rfl
    | ok s' =>
      have place : i + (ts.length + 1) = i + 1 + ts.length := by omega
      rw [place]
      exact ih s' (i + 1)

/-- What reading some tokens leaves as it is: the open brackets, and the partners at all other
positions. -/
structure Spares (s s' : BracketState) (i stop : Nat) : Prop where
  /-- The same brackets are open. -/
  opened : s'.opened = s.opened
  /-- There is room for as many partners. -/
  size : s'.partners.size = s.partners.size
  /-- The partners at positions before and behind are the same. -/
  partners : ∀ k, k < i ∨ stop ≤ k → s'.partners[k]? = s.partners[k]?

theorem Spares.trans {s s' s'' : BracketState} {i j stop : Nat} (first : s.Spares s' i j)
    (second : s'.Spares s'' j stop) (le : i ≤ j) (le' : j ≤ stop) : s.Spares s'' i stop := by
  refine ⟨second.opened.trans first.opened, second.size.trans first.size, fun k out => ?_⟩
  rw [second.partners k (by omega), first.partners k (by omega)]

theorem readAll_singleton (s : BracketState) (i : Nat) (t : Token) : s.readAll i [t] = s.read i t := by
  rw [readAll]
  cases s.read i t <;> rfl

/-- Reading a bracket and what is in it makes its two ends partners. -/
theorem readAll_bracket {opener : String} (among : opener ∈ openers) {o c : Token}
    {inner : List Token} {s s' : BracketState} {i : Nat} (opens : o.symbol = .mark opener)
    (closes : c.symbol = .mark (closerOf opener))
    (inside : readAll ⟨(i, o) :: s.opened, s.partners⟩ (i + 1) inner = .ok s')
    (opened : s'.opened = (i, o) :: s.opened) :
    s.readAll i (o :: (inner ++ [c])) = .ok ⟨s.opened,
      (s'.partners.setIfInBounds i (some (i + 1 + inner.length))).setIfInBounds
        (i + 1 + inner.length) (some i)⟩ := by
  obtain ⟨isOpener, text⟩ := Token.isOpener_of_mark among opens
  obtain ⟨noOpener, isCloser, text'⟩ := Token.isCloser_of_mark among closes
  have first : s.read i o = .ok ⟨(i, o) :: s.opened, s.partners⟩ := by
    rw [read, if_pos isOpener]
  have last : s'.read (i + 1 + inner.length) c = .ok ⟨s.opened,
      (s'.partners.setIfInBounds i (some (i + 1 + inner.length))).setIfInBounds
        (i + 1 + inner.length) (some i)⟩ := by
    rw [read, noOpener, isCloser, opened, if_neg Bool.false_ne_true, if_pos rfl]
    dsimp only
    rw [if_pos (by rw [text, text'])]
  rw [readAll, first]
  simp only [bind, Except.bind]
  rw [readAll_append, inside]
  simp only [Except.bind]
  rw [readAll_singleton, last]

/-- A well-nested piece is read without a trace. -/
theorem readAll_nested {ts : List Token} (nested : Nested (ts.map Token.symbol)) (s : BracketState)
    (i : Nat) : ∃ s', s.readAll i ts = .ok s' ∧ s.Spares s' i (i + ts.length) := by
  generalize same : ts.map Token.symbol = ss at nested
  induction nested generalizing ts s i with
  | nil =>
    rw [List.map_eq_nil_iff] at same
    subst same
    exact ⟨s, rfl, rfl, rfl, fun _ _ => rfl⟩
  | @plain symbol plain =>
    obtain ⟨t, rfl, rfl⟩ := List.map_eq_singleton_iff.mp same
    obtain ⟨noOpener, noCloser⟩ := Token.isOpener_of_isPlain plain
    refine ⟨s, ?_, rfl, rfl, fun _ _ => rfl⟩
    rw [readAll_singleton, read, noOpener, noCloser]
    rfl
  | append _ _ ih ih' =>
    obtain ⟨us, vs, rfl, same, same'⟩ := List.map_eq_append_iff.mp same
    obtain ⟨s', read, spares⟩ := ih s i same
    obtain ⟨s'', read', spares'⟩ := ih' s' (i + us.length) same'
    rw [readAll_append, read, List.length_append, ← Nat.add_assoc]
    exact ⟨s'', read', spares.trans spares' (by omega) (by omega)⟩
  | @bracket opener ss among _ ih =>
    obtain ⟨o, us, rfl, isOpener, same⟩ := List.map_eq_cons_iff.mp same
    obtain ⟨inner, cs, rfl, inside, closes⟩ := List.map_eq_append_iff.mp same
    obtain ⟨c, rfl, isCloser⟩ := List.map_eq_singleton_iff.mp closes
    obtain ⟨s', read, spares⟩ := ih ⟨(i, o) :: s.opened, s.partners⟩ (i + 1) inside
    refine ⟨_, readAll_bracket among isOpener isCloser read spares.opened, rfl, ?_, fun k out => ?_⟩
    · simp [spares.size]
    · have length : (o :: (inner ++ [c])).length = inner.length + 2 := by simp
      rw [length] at out
      rw [Array.getElem?_setIfInBounds_ne (by omega), Array.getElem?_setIfInBounds_ne (by omega)]
      exact spares.partners k (by omega)

/-- Reading a token opens a bracket there, or closes one that was open, or does nothing. -/
theorem read_cases {s s' : BracketState} {i : Nat} {t : Token} (done : s.read i t = .ok s') :
    (t.isOpener = true ∧ s' = ⟨(i, t) :: s.opened, s.partners⟩) ∨
      (t.isOpener = false ∧ t.isCloser = true ∧ ∃ j o outer, s.opened = (j, o) :: outer ∧
        closerOf o.text = t.text ∧
        s' = ⟨outer, (s.partners.setIfInBounds j (some i)).setIfInBounds i (some j)⟩) ∨
      (t.isOpener = false ∧ t.isCloser = false ∧ s' = s) := by
  unfold read at done
  split at done
  case isTrue opener =>
    cases done
    exact .inl ⟨opener, rfl⟩
  case isFalse noOpener =>
  replace noOpener := Bool.eq_false_iff.mpr noOpener
  split at done
  case isTrue closer =>
    split at done
    case h_1 j o outer opened =>
      split at done
      case isTrue closes =>
        cases done
        exact .inr (.inl ⟨noOpener, closer, j, o, outer, opened, closes, rfl⟩)
      case isFalse => cases done
    case h_2 => cases done
  case isFalse noCloser =>
    cases done
    exact .inr (.inr ⟨noOpener, Bool.eq_false_iff.mpr noCloser, rfl⟩)

/-- What is read later changes nothing at the position of a bracket that is not open. -/
theorem getElem?_readAll {s s' : BracketState} {i k : Nat} {ts : List Token}
    (done : s.readAll i ts = .ok s') (less : k < i) (closed : ∀ e ∈ s.opened, e.1 ≠ k) :
    s'.partners[k]? = s.partners[k]? := by
  induction ts generalizing s i with
  | nil =>
    cases done
    rfl
  | cons t ts ih =>
    obtain ⟨next, read, rest⟩ := bind_eq_ok.mp done
    rcases read_cases read with ⟨-, rfl⟩ | ⟨-, -, j, o, outer, opened, -, rfl⟩ | ⟨-, -, rfl⟩
    · rw [ih rest (by omega)]
      intro e mem
      rcases List.mem_cons.mp mem with rfl | mem
      · exact Nat.ne_of_gt less
      · exact closed e mem
    · rw [opened, List.forall_mem_cons] at closed
      rw [ih rest (by omega) closed.2]
      rw [Array.getElem?_setIfInBounds_ne (by omega), Array.getElem?_setIfInBounds_ne closed.1]
    · exact ih rest (by omega) closed

/-- Only brackets that were read are open. -/
theorem lt_of_mem_opened {s s' : BracketState} {i : Nat} {ts : List Token}
    (done : s.readAll i ts = .ok s') (before : ∀ e ∈ s.opened, e.1 < i) :
    ∀ e ∈ s'.opened, e.1 < i + ts.length := by
  induction ts generalizing s i with
  | nil =>
    cases done
    exact before
  | cons t ts ih =>
    obtain ⟨next, read, rest⟩ := bind_eq_ok.mp done
    have later : ∀ e ∈ s.opened, e.1 < i + 1 := fun e mem => Nat.lt_succ_of_lt (before e mem)
    rw [List.length_cons, Nat.add_comm ts.length, ← Nat.add_assoc]
    rcases read_cases read with ⟨-, rfl⟩ | ⟨-, -, j, o, outer, opened, -, rfl⟩ | ⟨-, -, rfl⟩
    · refine ih rest fun e mem => ?_
      rcases List.mem_cons.mp mem with rfl | mem
      · exact Nat.lt_succ_self i
      · exact later e mem
    · rw [opened, List.forall_mem_cons] at later
      exact ih rest later.2
    · exact ih rest later

/-- Reading tokens leaves room for as many partners. -/
theorem size_readAll {s s' : BracketState} {i : Nat} {ts : List Token}
    (done : s.readAll i ts = .ok s') : s'.partners.size = s.partners.size := by
  induction ts generalizing s i with
  | nil =>
    cases done
    rfl
  | cons t ts ih =>
    obtain ⟨next, read, rest⟩ := bind_eq_ok.mp done
    rw [ih rest]
    rcases read_cases read with ⟨-, rfl⟩ | ⟨-, -, j, o, outer, opened, -, rfl⟩ | ⟨-, -, rfl⟩
    · rfl
    · simp
    · rfl

/-- What is known of the brackets of a text, said of the same brackets behind `n` other tokens. -/
structure Behind (n : Nat) (s' s : BracketState) : Prop where
  /-- The same brackets are open, further on. -/
  opened : s'.opened.map (fun e => (e.1, e.2.text)) = s.opened.map fun e => (n + e.1, e.2.text)
  /-- There is room for the partners of the other tokens too. -/
  size : s'.partners.size = n + s.partners.size
  /-- The same brackets are partners, further on. -/
  partners : ∀ k, s'.partners[n + k]? = s.partners[k]?.map (Option.map (n + ·))

/-- Making two brackets partners is the same further on. -/
theorem Behind.pair {n : Nat} {s' s : BracketState} (behind : s'.Behind n s) (j i k : Nat) :
    ((s'.partners.setIfInBounds (n + j) (some (n + i))).setIfInBounds (n + i) (some (n + j)))[n + k]? =
      ((s.partners.setIfInBounds j (some i)).setIfInBounds i (some j))[k]?.map (Option.map (n + ·)) := by
  have size := behind.size
  have same := behind.partners k
  simp only [Array.getElem?_setIfInBounds, Nat.add_left_cancel_iff, Array.size_setIfInBounds, size,
    Nat.add_lt_add_iff_left, same]
  split
  · split <;> rfl
  split
  · split <;> rfl
  · rfl

/-- A token is read in the same way further on. -/
theorem Behind.read {n i : Nat} {s' s next : BracketState} {t u : Token} (behind : s'.Behind n s)
    (same : u.symbol = t.symbol) (done : s.read i t = .ok next) :
    ∃ next', s'.read (n + i) u = .ok next' ∧ next'.Behind n next := by
  obtain ⟨opener, closer, text⟩ := Token.bracket_of_symbol same
  have opened := behind.opened
  unfold BracketState.read at done ⊢
  rw [opener, closer, text]
  split at done
  case isTrue isOpener =>
    cases done
    rw [if_pos isOpener]
    refine ⟨_, rfl, ?_, behind.size, behind.partners⟩
    rw [List.map_cons, List.map_cons, opened, text]
  case isFalse noOpener =>
  rw [if_neg noOpener]
  split at done
  case isTrue isCloser =>
    rw [if_pos isCloser]
    split at done
    case h_1 j o outer list =>
      split at done
      case isTrue closes =>
        cases done
        rw [list, List.map_cons] at opened
        obtain ⟨⟨j', o'⟩, outer', list', head, tail⟩ := List.map_eq_cons_iff.mp opened
        obtain ⟨rfl, kept⟩ : j' = n + j ∧ o'.text = o.text := by simpa using head
        rw [list']
        dsimp only
        rw [kept, if_pos closes]
        refine ⟨_, rfl, tail, ?_, fun k => behind.pair j i k⟩
        simp [behind.size]
      case isFalse => cases done
    case h_2 => cases done
  case isFalse noCloser =>
    cases done
    rw [if_neg noCloser]
    exact ⟨s', rfl, behind⟩

/-- Tokens are read in the same way further on. -/
theorem Behind.readAll {n i : Nat} {s' s next : BracketState} {ts us : List Token}
    (behind : s'.Behind n s) (same : us.map Token.symbol = ts.map Token.symbol)
    (done : s.readAll i ts = .ok next) :
    ∃ next', s'.readAll (n + i) us = .ok next' ∧ next'.Behind n next := by
  induction ts generalizing us s' s i with
  | nil =>
    cases done
    rw [List.map_nil, List.map_eq_nil_iff] at same
    subst same
    exact ⟨s', rfl, behind⟩
  | cons t ts ih =>
    obtain ⟨u, us, rfl, head, tail⟩ := List.map_eq_cons_iff.mp same
    obtain ⟨mid, first, rest⟩ := bind_eq_ok.mp done
    obtain ⟨mid', first', behind'⟩ := behind.read head first
    obtain ⟨next', rest', behind''⟩ := ih behind' tail rest
    exact ⟨next', bind_eq_ok.mpr ⟨mid', first', rest'⟩, behind''⟩

end BracketState

open BracketState

/-- An opening bracket before a well-nested piece has its partner behind it. -/
theorem partner_of_nested {tokens : Array Token} {partners : Partners}
    (matched : matchBrackets tokens = .ok partners) {opener : String} (among : opener ∈ openers)
    {front inner back : List Token} {o c : Token}
    (split : tokens.toList = front ++ (o :: (inner ++ [c]) ++ back)) (opens : o.symbol = .mark opener)
    (closes : c.symbol = .mark (closerOf opener)) (nested : Nested (inner.map Token.symbol)) :
    partners[front.length]? = some (some (front.length + 1 + inner.length)) := by
  obtain ⟨final, read, matched⟩ := bind_eq_ok.mp matched
  split at matched
  case h_1 => cases matched
  case h_2 =>
  cases matched
  rw [split, readAll_append] at read
  obtain ⟨s, before, read⟩ := bind_eq_ok.mp read
  rw [readAll_append] at read
  obtain ⟨s', between, behind⟩ := bind_eq_ok.mp read
  rw [Nat.zero_add] at between behind
  obtain ⟨within, inside, spares⟩ :=
    readAll_nested nested ⟨(front.length, o) :: s.opened, s.partners⟩ (front.length + 1)
  rw [readAll_bracket among opens closes inside spares.opened] at between
  cases between
  have earlier := lt_of_mem_opened before fun e mem => by cases mem
  have room : front.length < within.partners.size := by
    rw [spares.size, size_readAll before]
    have size := congrArg List.length split
    simp only [Array.length_toList, List.length_append, List.length_cons] at size
    simp only [Array.size_replicate]
    omega
  rw [getElem?_readAll behind (by simp)]
  · dsimp only
    rw [Array.getElem?_setIfInBounds_ne (by omega), Array.getElem?_setIfInBounds_self_of_lt room]
  · exact fun e mem => Nat.ne_of_lt (by simpa using earlier e mem)

/-- Every bracket of a well-nested token list has a partner. -/
theorem exists_partners_of_nested {tokens : Array Token}
    (nested : Nested (tokens.toList.map Token.symbol)) :
    ∃ partners, matchBrackets tokens = .ok partners := by
  obtain ⟨s, read, spares⟩ := readAll_nested nested ⟨[], Array.replicate tokens.size none⟩ 0
  refine ⟨s.partners, bind_eq_ok.mpr ⟨s, read, ?_⟩⟩
  rw [spares.opened]

/-- The brackets behind a well-nested piece have the same partners as without it, further on. -/
theorem matchBrackets_behind {front back back' : Array Token} {partners : Partners}
    (nested : Nested (front.toList.map Token.symbol))
    (same : back'.toList.map Token.symbol = back.toList.map Token.symbol)
    (matched : matchBrackets back = .ok partners) :
    ∃ partners', matchBrackets (front ++ back') = .ok partners' ∧
      ∀ k, partners'[front.size + k]? = partners[k]?.map (Option.map (front.size + ·)) := by
  obtain ⟨final, read, matched⟩ := bind_eq_ok.mp matched
  split at matched
  case h_1 => cases matched
  case h_2 ended =>
  cases matched
  obtain ⟨s, before, spares⟩ :=
    readAll_nested nested ⟨[], Array.replicate (front ++ back').size none⟩ 0
  have length : back'.size = back.size := by
    simpa using congrArg List.length same
  have behind : s.Behind front.size ⟨[], Array.replicate back.size none⟩ := by
    refine ⟨by rw [spares.opened]; rfl, ?_, fun k => ?_⟩
    · rw [spares.size, Array.size_replicate, Array.size_append, length, Array.size_replicate]
    · rw [spares.partners _ (.inr (by simp))]
      simp [Array.getElem?_replicate, length]
  obtain ⟨final', read', behind'⟩ := behind.readAll same read
  refine ⟨final'.partners, bind_eq_ok.mpr ⟨final', ?_, ?_⟩, behind'.partners⟩
  · rw [Array.toList_append, readAll_append, before]
    simpa [Except.bind] using read'
  · have none : final'.opened = [] := by simpa [ended] using behind'.opened
    rw [none]

/-! ## Brackets that are left out -/

namespace BracketState

/-- Whether the brackets that are open are those open in another state, less some that are left out. -/
def Thins (keep : Token → Bool) (s' s : BracketState) : Prop :=
  s'.opened.map (·.2.text) = (s.opened.filter (keep ·.2)).map (·.2.text)

variable {keep : Token → Bool} {s' s next : BracketState} {t u : Token} {i i' : Nat}

/-- A token that is left out does not matter, if a bracket is left out with its partner. -/
theorem Thins.leaveOut (thins : Thins keep s' s) (left : keep t = false) (done : s.read i t = .ok next)
    (paired : ∀ j o, (j, o) :: next.opened = s.opened → keep o = keep t) : Thins keep s' next := by
  rcases read_cases done with ⟨-, rfl⟩ | ⟨-, -, j, o, outer, opened, -, rfl⟩ | ⟨-, -, rfl⟩
  · rwa [Thins, List.filter_cons_of_neg (by simp [left])]
  · have left' := (paired j o opened.symm).trans left
    rwa [Thins, opened, List.filter_cons_of_neg (by simp [left'])] at thins
  · exact thins

/-- A token that is kept is read in the same way, if a bracket is kept with its partner. -/
theorem Thins.read (thins : Thins keep s' s) (same : u.symbol = t.symbol) (kept : keep t = true)
    (done : s.read i t = .ok next) (paired : ∀ j o, (j, o) :: next.opened = s.opened → keep o = keep t) :
    ∃ next', s'.read i' u = .ok next' ∧ Thins keep next' next := by
  obtain ⟨opener, closer, text⟩ := Token.bracket_of_symbol same
  unfold BracketState.read
  rcases read_cases done with ⟨isOpener, rfl⟩ | ⟨noOpener, isCloser, j, o, outer, opened, closes, rfl⟩ |
    ⟨noOpener, noCloser, rfl⟩
  · rw [if_pos (opener.trans isOpener)]
    refine ⟨_, rfl, ?_⟩
    rw [Thins, List.filter_cons_of_pos (by simp [kept]), List.map_cons, List.map_cons, thins, text]
  · have kept' := (paired j o opened.symm).trans kept
    rw [Thins, opened, List.filter_cons_of_pos (by simp [kept']), List.map_cons] at thins
    obtain ⟨⟨j', o'⟩, outer', opened', text', thins⟩ := List.map_eq_cons_iff.mp thins
    rw [opener, noOpener, closer, isCloser, if_neg Bool.false_ne_true, if_pos rfl, opened']
    dsimp only at text' ⊢
    rw [if_pos (by rw [text', text, closes])]
    exact ⟨_, rfl, thins⟩
  · rw [opener, noOpener, closer, noCloser, if_neg Bool.false_ne_true, if_neg Bool.false_ne_true]
    exact ⟨s', rfl, thins⟩

/-- Whether a state comes from reading the first tokens of a list: the open brackets are among them, and
there is room for all partners. -/
structure IsBefore (s : BracketState) (all : List Token) (i : Nat) : Prop where
  /-- The open brackets stand at their positions. -/
  opened : ∀ e ∈ s.opened, e.1 < i ∧ all[e.1]? = some e.2
  /-- There is room for the partner of every token. -/
  size : s.partners.size = all.length

variable {all : List Token}

theorem IsBefore.read (before : s.IsBefore all i) (here : all[i]? = some t)
    (done : s.read i t = .ok next) : next.IsBefore all (i + 1) := by
  have later : ∀ e ∈ s.opened, e.1 < i + 1 ∧ all[e.1]? = some e.2 := fun e mem =>
    (before.opened e mem).imp_left Nat.lt_succ_of_lt
  rcases read_cases done with ⟨-, rfl⟩ | ⟨-, -, j, o, outer, opened, -, rfl⟩ | ⟨-, -, rfl⟩
  · exact ⟨List.forall_mem_cons.mpr ⟨⟨Nat.lt_succ_self i, here⟩, later⟩, before.size⟩
  · rw [opened, List.forall_mem_cons] at later
    exact ⟨later.2, by simpa using before.size⟩
  · exact ⟨later, before.size⟩

/-- A token that closes the innermost open bracket has it as its partner in the end. -/
theorem IsBefore.partner {final : BracketState} {ts : List Token} {j : Nat} {o : Token}
    (before : s.IsBefore all i) (here : all[i]? = some t) (done : s.read i t = .ok next)
    (rest : next.readAll (i + 1) ts = .ok final) (closes : (j, o) :: next.opened = s.opened) :
    final.partners[i]? = some (some j) := by
  have less : i < s.partners.size := before.size ▸ (List.getElem?_eq_some_iff.mp here).1
  have open_ : ∀ e ∈ s.opened, e.1 ≠ i := fun e mem => Nat.ne_of_lt (before.opened e mem).1
  rw [← closes, List.forall_mem_cons] at open_
  rw [getElem?_readAll rest (Nat.lt_succ_self i) open_.2]
  rcases read_cases done with ⟨-, rfl⟩ | ⟨-, -, j', o', outer, opened, -, rfl⟩ | ⟨-, -, rfl⟩
  · have length := congrArg List.length closes
    simp only [List.length_cons] at length
    omega
  · rw [opened] at closes
    cases closes
    rw [Array.getElem?_setIfInBounds_self_of_lt (by simpa using less)]
  · have length := congrArg List.length closes
    simp only [List.length_cons] at length
    omega

/-- What is kept of some tokens is read like all of them, if every bracket is kept or left out with its
partner. -/
theorem Thins.readAll {final : BracketState} {ts us : List Token} (thins : Thins keep s' s)
    (before : s.IsBefore all i) (rest : all.drop i = ts) (done : s.readAll i ts = .ok final)
    (symbols : us.map Token.symbol = (ts.filter keep).map Token.symbol)
    (paired : ∀ (i j : Nat) (a z : Token), final.partners[i]? = some (some j) → all[i]? = some a → all[j]? = some z →
      keep a = keep z) :
    ∃ final', s'.readAll i' us = .ok final' ∧ Thins keep final' final := by
  induction ts generalizing s s' i i' us with
  | nil =>
    cases done
    rw [List.filter_nil, List.map_nil, List.map_eq_nil_iff] at symbols
    subst symbols
    exact ⟨s', rfl, thins⟩
  | cons t ts ih =>
    obtain ⟨next, read, readRest⟩ := bind_eq_ok.mp done
    have here : all[i]? = some t := by
      rw [← Nat.add_zero i, ← List.getElem?_drop, rest, List.getElem?_cons_zero]
    have rest' : all.drop (i + 1) = ts := by
      rw [← List.drop_drop, rest, List.drop_succ_cons, List.drop_zero]
    have together : ∀ j o, (j, o) :: next.opened = s.opened → keep o = keep t := by
      intro j o closes
      have stands := (before.opened (j, o) (closes ▸ List.mem_cons_self)).2
      exact (paired i j t o (before.partner here read readRest closes) here stands).symm
    cases kept : keep t with
    | false =>
      rw [List.filter_cons_of_neg (by simp [kept])] at symbols
      exact ih (thins.leaveOut kept read together) (before.read here read) rest' readRest symbols
    | true =>
      rw [List.filter_cons_of_pos (by simp [kept]), List.map_cons] at symbols
      obtain ⟨u, us, rfl, same, symbols⟩ := List.map_eq_cons_iff.mp symbols
      obtain ⟨next', read', thins'⟩ : ∃ next', s'.read i' u = .ok next' ∧ Thins keep next' next :=
        thins.read same kept read together
      obtain ⟨final', readRest', thins''⟩ :
          ∃ final', next'.readAll (i' + 1) us = .ok final' ∧ Thins keep final' final :=
        ih thins' (before.read here read) rest' readRest symbols
      exact ⟨final', bind_eq_ok.mpr ⟨next', read', readRest'⟩, thins''⟩

end BracketState

/-- The brackets that are kept of a text have partners, if every bracket is kept or left out with its
partner. -/
theorem exists_partners_of_filter {tokens left : Array Token} {partners : Partners} {keep : Token → Bool}
    (matched : matchBrackets tokens = .ok partners)
    (paired : ∀ (i j : Nat) (a z : Token), partners[i]? = some (some j) → tokens[i]? = some a → tokens[j]? = some z →
      keep a = keep z)
    (symbols : left.toList.map Token.symbol = (tokens.toList.filter keep).map Token.symbol) :
    ∃ partners', matchBrackets left = .ok partners' := by
  obtain ⟨final, read, matched⟩ := bind_eq_ok.mp matched
  split at matched
  case h_1 => cases matched
  case h_2 closed =>
  cases matched
  have before : IsBefore ⟨[], Array.replicate tokens.size none⟩ tokens.toList 0 :=
    ⟨fun e mem => absurd mem List.not_mem_nil, by simp⟩
  have thins : Thins keep ⟨[], Array.replicate left.size none⟩ ⟨[], Array.replicate tokens.size none⟩ := rfl
  obtain ⟨final', read', thins⟩ : ∃ final', readAll ⟨[], Array.replicate left.size none⟩ 0 left.toList =
      .ok final' ∧ Thins keep final' final :=
    thins.readAll before rfl read symbols (by simpa using paired)
  refine ⟨final'.partners, bind_eq_ok.mpr ⟨final', read', ?_⟩⟩
  have none : final'.opened = [] := by
    rw [Thins, closed] at thins
    exact List.map_eq_nil_iff.mp thins
  rw [none]

end ModuleLinker
