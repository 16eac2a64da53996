import ModuleLinker.Erase.Program
import ModuleLinker.Proofs.Source.Tokens

/-!
# The tokens of a program

A program that is read from a text holds the tokens of that text, so that its tokens are pieces of
the text in order (`IsRead`), and no word that the text does not contain is one of them.
-/

set_option autoImplicit false

namespace ModuleLinker.Erase

/-- A piece at an offset of a text is part of it. -/
theorem infix_of_prefix_drop {source piece : List Char} {n : Nat} (piece_eq : piece <+: source.drop n) :
    piece <:+: source :=
  piece_eq.isInfix.trans (List.drop_suffix n source).isInfix

namespace Program

/-- A program has the text that it is read from, and the tokens of it. -/
theorem ofSource_eq_ok {source : List Char} {p : Program} (read : ofSource source = .ok p) :
    p.source = source ∧ scan source = .ok p.tokens := by
  obtain ⟨tokens, scanned, read⟩ := bind_eq_ok.mp read
  obtain ⟨partners, -, read⟩ := bind_eq_ok.mp read
  cases read
  exact ⟨rfl, scanned⟩

/-- The brackets of a program have the partners that their tokens give them. -/
theorem matched_of_ofSource {source : List Char} {p : Program} (read : ofSource source = .ok p) :
    matchBrackets p.tokens = .ok p.partners := by
  obtain ⟨tokens, -, read⟩ := bind_eq_ok.mp read
  obtain ⟨partners, matched, read⟩ := bind_eq_ok.mp read
  cases read
  exact matched

variable {p : Program}

theorem text_of_isWord {i : Nat} {word : String} (h : p.isWord i word = true) : p.text i = word := by
  obtain ⟨t, found, same⟩ := (Option.any_eq_true ..).mp h
  rw [Token.isWord, Bool.and_eq_true, beq_iff_eq, beq_iff_eq] at same
  rw [text, found]
  exact same.2

theorem isWord_of_text {i : Nat} {word : String} (name : p.isName i = true) (h : p.text i = word) :
    p.isWord i word = true := by
  obtain ⟨t, found, ident⟩ := (Option.any_eq_true ..).mp name
  rw [text, found] at h
  rw [isWord, is, found]
  exact Bool.and_eq_true_iff.mpr ⟨ident, beq_iff_eq.mpr h⟩

theorem isName_of_isWord {i : Nat} {word : String} (h : p.isWord i word = true) :
    p.isName i = true := by
  obtain ⟨t, found, same⟩ := (Option.any_eq_true ..).mp h
  rw [isName, is, found]
  exact (Bool.and_eq_true_iff.mp same).1

theorem text_mem_of_isOneOf {i : Nat} {words : List String} (h : p.isOneOf i words = true) :
    p.text i ∈ words := by
  obtain ⟨t, found, among⟩ := (Option.any_eq_true ..).mp h
  rw [Bool.and_eq_true, List.contains_iff_mem] at among
  rw [text, found]
  exact among.2

/-- Whether the tokens of a program are pieces of its text. -/
def IsRead (p : Program) : Prop := ArePieces p.tokens.toList p.source

theorem isRead_of_ofSource {source : List Char} (read : ofSource source = .ok p) : p.IsRead := by
  obtain ⟨rfl, scanned⟩ := ofSource_eq_ok read
  exact scan_pieces scanned

theorem IsRead.piece (read : p.IsRead) {t : Token} (mem : t ∈ p.tokens) : t.IsPieceOf p.source :=
  read.pieces t mem.val

theorem IsRead.stop_le_start (read : p.IsRead) {i j : Nat} {a z : Token} (before : i < j)
    (first : p.tokens[i]? = some a) (last : p.tokens[j]? = some z) : a.stop ≤ z.start := by
  rw [← Array.getElem?_toList] at first last
  obtain ⟨less, rfl⟩ := List.getElem?_eq_some_iff.mp first
  obtain ⟨less', rfl⟩ := List.getElem?_eq_some_iff.mp last
  exact List.pairwise_iff_getElem.mp read.inOrder i j less less' before

/-- Two tokens of which the first starts no later than the second, and stops no later. -/
theorem IsRead.stop_le_stop (read : p.IsRead) {i j : Nat} {a z : Token} (before : i ≤ j)
    (first : p.tokens[i]? = some a) (last : p.tokens[j]? = some z) :
    a.start ≤ z.start ∧ a.stop ≤ z.stop := by
  have less := (read.piece (Array.mem_of_getElem? first)).less
  have less' := (read.piece (Array.mem_of_getElem? last)).less
  rcases Nat.lt_or_eq_of_le before with before | rfl
  · have ordered := read.stop_le_start before first last
    omega
  · rw [first] at last
    cases last
    exact ⟨Nat.le_refl _, Nat.le_refl _⟩

theorem IsRead.stop_le_length (read : p.IsRead) {t : Token} (mem : t ∈ p.tokens) :
    t.stop ≤ p.source.length := by
  have piece := read.piece mem
  have length := piece.piece.length_le
  have less := piece.less
  rw [List.length_drop, String.length_toList] at length
  unfold Token.stop at less ⊢
  omega

theorem IsRead.offset_le_length (read : p.IsRead) (i : Nat) : p.offset i ≤ p.source.length := by
  rw [offset]
  cases found : p.tokens[i]? with
  | none => exact Nat.le_refl _
  | some t =>
    have less := (read.piece (Array.mem_of_getElem? found)).less
    have stop := read.stop_le_length (Array.mem_of_getElem? found)
    exact Nat.le_trans (Nat.le_of_lt less) stop

theorem stop_of_brace {i : Nat} {t : Token} (found : p.tokens[i]? = some t)
    (brace : t.isPunct openBrace = true) : t.stop = p.offset i + 1 := by
  rw [Token.isPunct, Bool.and_eq_true, beq_iff_eq, beq_iff_eq] at brace
  rw [Token.stop, offset, found, brace.2]
  rfl

/-- A word that a text does not contain is no token of it. -/
theorem IsRead.text_ne (read : p.IsRead) {word : String} (other : word ≠ "")
    (absent : ¬ word.toList <:+: p.source) (i : Nat) : p.text i ≠ word := by
  intro same
  unfold text at same
  cases found : p.tokens[i]? with
  | none =>
    rw [found] at same
    exact other same.symm
  | some t =>
    rw [found] at same
    have piece := (read.piece (Array.mem_of_getElem? found)).piece
    rw [show t.text = word from same] at piece
    exact absent (infix_of_prefix_drop piece)

end Program

end ModuleLinker.Erase
