import Mathlib
import ModuleLinker.Proofs.Text.Digits
import ModuleLinker.Url.Ipv6

/-!
# IPv6 addresses are read back

The written form of eight pieces, in which the longest run of zeros may be left out, is read as these
pieces again (`pieces?_text`). What is read as an address has eight pieces of sixteen bits each.
-/

set_option autoImplicit false

namespace ModuleLinker.Url.Ipv6

open Text

/-! ## Single pieces -/

theorem hexValue?_digitChar {d : Nat} (small : d < 16) : hexValue? (Nat.digitChar d) = some d := by
  have all : ∀ d, d < 16 → hexValue? (Nat.digitChar d) = some d := by decide
  exact all d small

/-- The digits of a piece are read one after another. -/
theorem digitsValue?_toDigits (n : Nat) : Ipv4.digitsValue? 16 (Nat.toDigits 16 n) = some n := by
  induction n using Nat.strongRecOn with
  | _ n ih =>
    rw [Nat.toDigits_eq_if (by decide)]
    split
    case isTrue small => simp [Ipv4.digitsValue?, hexValue?_digitChar small, small]
    case isFalse large =>
      have front := ih (n / 16) (by omega)
      have digit : n % 16 < 16 := Nat.mod_lt _ (by decide)
      unfold Ipv4.digitsValue? at front ⊢
      rw [List.foldl_append, front, List.foldl_cons, List.foldl_nil, hexValue?_digitChar digit]
      simp only [digit, if_true, Nat.div_add_mod]

theorem length_pieceText {piece : Nat} (small : piece < 65536) : (pieceText piece).length ≤ 4 := by
  rw [pieceText, Nat.length_toDigits_le_iff (by decide) (by decide)]
  exact small

/-- The digits of a piece are hexadecimal digits. -/
theorem isSome_hexValue? {piece : Nat} {c : Char} (mem : c ∈ pieceText piece) :
    (hexValue? c).isSome = true := by
  obtain ⟨d, small, rfl⟩ := mem_toDigits (by decide) mem
  rw [hexValue?_digitChar small]
  rfl

theorem pieceText_ne_nil (piece : Nat) : pieceText piece ≠ [] := Nat.toDigits_ne_nil

/-- The digits of a piece end where a colon or nothing follows. -/
theorem takeWhile_pieceText {piece : Nat} (small : piece < 65536) {rest : List Char}
    (ends : ∀ c ∈ rest.head?, c = ':') :
    ((pieceText piece ++ rest).take 4).takeWhile (fun d => (hexValue? d).isSome) =
      pieceText piece := by
  have digits : ∀ c ∈ pieceText piece, (hexValue? c).isSome = true := fun _ => isSome_hexValue?
  have after : (rest.take (4 - (pieceText piece).length)).takeWhile
      (fun d => (hexValue? d).isSome) = [] := by
    cases rest with
    | nil => simp
    | cons c rest =>
      obtain rfl : c = ':' := ends c rfl
      cases 4 - (pieceText piece).length with
      | zero => rfl
      | succ n => rfl
  rw [List.take_append, List.take_of_length_le (length_pieceText small),
    List.takeWhile_append_of_pos digits, after, List.append_nil]

/-! ## Lists of pieces -/

/-- The pieces with more of them behind. -/
def Pieces.pushAll (p : Pieces) (pieces : List Nat) : Pieces := pieces.foldl Pieces.push p

theorem Pieces.pushAll_none (before pieces : List Nat) :
    Pieces.pushAll ⟨before, none⟩ pieces = ⟨before ++ pieces, none⟩ := by
  induction pieces generalizing before with
  | nil => simp [Pieces.pushAll]
  | cons n pieces ih => exact (ih (before ++ [n])).trans (by simp)

theorem Pieces.pushAll_some (before after pieces : List Nat) :
    Pieces.pushAll ⟨before, some after⟩ pieces = ⟨before, some (after ++ pieces)⟩ := by
  induction pieces generalizing after with
  | nil => simp [Pieces.pushAll]
  | cons n pieces ih => exact (ih (after ++ [n])).trans (by simp)

theorem Pieces.count_push (p : Pieces) (piece : Nat) : (p.push piece).count = p.count + 1 := by
  obtain ⟨before, after⟩ := p
  cases after with
  | none => simp [Pieces.push, Pieces.count]
  | some after =>
    simp only [Pieces.push, Pieces.count, List.length_append, List.length_singleton]
    omega

/-- A piece is read where a colon with more behind it follows, or nothing. -/
theorem readPieces?_piece {p : Pieces} {piece : Nat} (small : piece < 65536) (room : p.count < 8)
    {rest : List Char} (ends : ∀ c ∈ rest.head?, c = ':') :
    readPieces? p (pieceText piece ++ rest) =
      match rest with
      | [] => some (p.push piece)
      | _ :: more => if more.isEmpty then none else readPieces? (p.push piece) more := by
  obtain ⟨c, digits, text⟩ := List.exists_cons_of_ne_nil (pieceText_ne_nil piece)
  have isHex : (hexValue? c).isSome = true := by
    apply isSome_hexValue?
    rw [text]
    exact List.mem_cons_self
  have noColon : c ≠ ':' := by
    rintro rfl
    cases isHex
  have digits_eq := takeWhile_pieceText small ends
  have value : Ipv4.digitsValue? 16 (pieceText piece) = some piece := digitsValue?_toDigits piece
  have behind : (pieceText piece ++ rest).drop (((pieceText piece ++ rest).take 4).takeWhile
      fun d => (hexValue? d).isSome).length = rest := by
    rw [digits_eq, List.drop_left]
  rw [text, List.cons_append] at digits_eq behind
  rw [text] at value
  rw [text, List.cons_append, readPieces?.eq_def]
  dsimp only
  rw [if_neg (by omega), if_neg noColon]
  split
  case h_1 none =>
    obtain rfl : rest = [] := behind.symm.trans none
    rw [digits_eq, value]
    rfl
  case h_2 more here =>
    obtain rfl : rest = ':' :: more := behind.symm.trans here
    rw [digits_eq, value]
  case h_3 more here =>
    obtain rfl : rest = '.' :: more := behind.symm.trans here
    cases ends '.' rfl
  case h_4 d more noColon' _ here =>
    obtain rfl : rest = d :: more := behind.symm.trans here
    obtain rfl : d = ':' := ends d rfl
    exact absurd rfl noColon'

theorem joined_nil : joined [] = [] := rfl

theorem joined_singleton (n : Nat) : joined [n] = pieceText n := by
  simp [joined]

theorem joined_cons_cons (n m : Nat) (pieces : List Nat) :
    joined (n :: m :: pieces) = pieceText n ++ ':' :: joined (m :: pieces) := by
  simp [joined, List.intersperse_cons_cons]

theorem joined_cons_ne_nil (n : Nat) (pieces : List Nat) : joined (n :: pieces) ≠ [] := by
  cases pieces with
  | nil =>
    rw [joined_singleton]
    exact pieceText_ne_nil n
  | cons m pieces =>
    rw [joined_cons_cons]
    exact List.append_ne_nil_of_left_ne_nil (pieceText_ne_nil n) _

/-- Pieces with colons between them are read one after another. -/
theorem readPieces?_joined {pieces : List Nat} (small : ∀ n ∈ pieces, n < 65536) {p : Pieces}
    (room : p.count + pieces.length ≤ 8) : readPieces? p (joined pieces) = some (p.pushAll pieces) := by
  induction pieces generalizing p with
  | nil =>
    rw [joined_nil, readPieces?.eq_def]
    rfl
  | cons n pieces ih =>
    rw [List.forall_mem_cons] at small
    rw [List.length_cons] at room
    have here := Pieces.count_push p n
    have rest := ih small.2 (p := p.push n) (by omega)
    cases pieces with
    | nil =>
      have last : readPieces? p (pieceText n ++ []) = some (p.push n) :=
        readPieces?_piece small.1 (by omega) (by simp)
      rw [List.append_nil] at last
      rw [joined_singleton]
      exact last
    | cons m pieces =>
      rw [joined_cons_cons, readPieces?_piece small.1 (by omega) (by simp)]
      dsimp only
      rw [if_neg (by simpa using joined_cons_ne_nil m pieces), rest]
      rfl

theorem Pieces.push_none (before : List Nat) (piece : Nat) :
    Pieces.push ⟨before, none⟩ piece = ⟨before ++ [piece], none⟩ := rfl

/-- A colon where a piece could stand makes the gap. -/
theorem readPieces?_colon {before : List Nat} (room : before.length < 8) (rest : List Char) :
    readPieces? ⟨before, none⟩ (':' :: rest) = readPieces? ⟨before, some []⟩ rest := by
  have count : (Pieces.mk before none).count = before.length := rfl
  rw [readPieces?.eq_def]
  dsimp only
  rw [if_neg (by omega), if_pos rfl]
  rfl

/-- Pieces with a gap behind them are read up to behind the gap. -/
theorem readPieces?_gap {n : Nat} {pieces : List Nat} (small : ∀ m ∈ n :: pieces, m < 65536)
    {before : List Nat} (room : before.length + pieces.length < 7) (rest : List Char) :
    readPieces? ⟨before, none⟩ (joined (n :: pieces) ++ ':' :: ':' :: rest) =
      readPieces? ⟨before ++ n :: pieces, some []⟩ rest := by
  induction pieces generalizing n before with
  | nil =>
    have count : (Pieces.mk before none).count = before.length := rfl
    rw [List.length_nil] at room
    rw [joined_singleton, readPieces?_piece (small n List.mem_cons_self) (by omega) (by simp)]
    dsimp only
    rw [if_neg (by simp), Pieces.push_none, readPieces?_colon]
    rw [List.length_append, List.length_singleton]
    omega
  | cons m pieces ih =>
    have count : (Pieces.mk before none).count = before.length := rfl
    rw [List.length_cons] at room
    have room' : (before ++ [n]).length + pieces.length < 7 := by
      rw [List.length_append, List.length_singleton]
      omega
    have later := ih (fun k mem => small k (List.mem_cons_of_mem n mem)) room'
    rw [joined_cons_cons, List.append_assoc, List.cons_append,
      readPieces?_piece (small n List.mem_cons_self) (by omega) (by simp)]
    dsimp only
    rw [if_neg (by simp [joined_cons_ne_nil]), Pieces.push_none, later, List.append_assoc, List.singleton_append]

/-! ## Runs of zeros -/

/-- The longest run is a run of zeros among the pieces. -/
theorem longestRun_spec (i : Nat) (pieces : List Nat) :
    ∃ front back, pieces = front ++ List.replicate (longestRun i pieces).2 0 ++ back ∧
      (longestRun i pieces).1 = i + front.length := by
  induction pieces generalizing i with
  | nil => exact ⟨[], [], rfl, rfl⟩
  | cons n pieces ih =>
    rw [longestRun]
    split
    · have run : (n :: pieces).takeWhile (· == 0) = List.replicate (zeros (n :: pieces)) 0 := by
        rw [List.eq_replicate_iff]
        refine ⟨rfl, fun m mem => ?_⟩
        simpa using List.mem_takeWhile_imp mem
      refine ⟨[], (n :: pieces).dropWhile (· == 0), ?_, rfl⟩
      rw [List.nil_append, ← run, List.takeWhile_append_dropWhile]
    · obtain ⟨front, back, split, start⟩ := ih (i + 1)
      refine ⟨n :: front, back, ?_, ?_⟩
      · rw [List.cons_append, List.cons_append, ← split]
      · rw [start, List.length_cons]
        omega

/-- An address that starts with a digit is read from its first piece on. -/
theorem pieces?_of_ne_colon {c : Char} {rest : List Char} (other : c ≠ ':') (more : rest ≠ []) :
    pieces? (c :: rest) = (readPieces? ⟨[], none⟩ (c :: rest)).bind Pieces.all? := by
  obtain ⟨d, rest, rfl⟩ := List.exists_cons_of_ne_nil more
  rw [pieces?, if_pos other]

/-- Some pieces start with a digit. -/
theorem exists_joined_cons (n : Nat) (pieces : List Nat) :
    ∃ c rest, joined (n :: pieces) = c :: rest ∧ c ≠ ':' := by
  obtain ⟨c, rest, text⟩ := List.exists_cons_of_ne_nil (pieceText_ne_nil n)
  have isHex : (hexValue? c).isSome = true := by
    apply isSome_hexValue?
    rw [text]
    exact List.mem_cons_self
  have noColon : c ≠ ':' := by
    rintro rfl
    cases isHex
  cases pieces with
  | nil => exact ⟨c, rest, by rw [joined_singleton, text], noColon⟩
  | cons m pieces => exact ⟨c, _, by rw [joined_cons_cons, text, List.cons_append], noColon⟩

/-- Eight pieces without a gap are read back. -/
theorem pieces?_joined {pieces : List Nat} (eight : pieces.length = 8)
    (small : ∀ n ∈ pieces, n < 65536) : pieces? (joined pieces) = some pieces := by
  have read := readPieces?_joined small (p := ⟨[], none⟩) (by
    rw [eight]
    exact Nat.le_refl _)
  rw [Pieces.pushAll_none, List.nil_append] at read
  obtain ⟨n, m, more, rfl⟩ : ∃ n m more, pieces = n :: m :: more := by
    match pieces, eight with
    | n :: m :: more, _ => exact ⟨n, m, more, rfl⟩
  obtain ⟨c, rest, text, noColon⟩ := exists_joined_cons n (m :: more)
  have some : rest ≠ [] := by
    rintro rfl
    have length := congrArg List.length text
    have first := List.length_pos_of_ne_nil (pieceText_ne_nil n)
    rw [joined_cons_cons, List.length_append, List.length_cons, List.length_singleton] at length
    omega
  rw [text, pieces?_of_ne_colon noColon some, ← text, read, Option.bind_some, Pieces.all?]
  dsimp only
  rw [if_pos eight]

/-- Pieces with zeros between them that are left out are read back. -/
theorem pieces?_gap {front back : List Nat} {zeros : Nat} (two : 2 ≤ zeros)
    (eight : front.length + zeros + back.length = 8) (small : ∀ n ∈ front ++ back, n < 65536) :
    pieces? (joined front ++ [':', ':'] ++ joined back) =
      some (front ++ List.replicate zeros 0 ++ back) := by
  rw [List.forall_mem_append] at small
  have read := readPieces?_joined small.2 (p := ⟨front, some []⟩) (by
    change front.length + 1 + back.length ≤ 8
    omega)
  rw [Pieces.pushAll_some, List.nil_append] at read
  have all : Pieces.all? ⟨front, some back⟩ = some (front ++ List.replicate zeros 0 ++ back) := by
    have count : (Pieces.mk front (some back)).count ≤ 8 := by
      change front.length + (back.length + 1) ≤ 8
      omega
    have left : 8 - front.length - back.length = zeros := by omega
    rw [Pieces.all?]
    dsimp only
    rw [if_pos count, left]
  cases front with
  | nil =>
    change (readPieces? ⟨[], some []⟩ (joined back)).bind Pieces.all? = _
    rw [read]
    exact all
  | cons n front =>
    obtain ⟨c, rest, text, noColon⟩ := exists_joined_cons n front
    have room : ([] : List Nat).length + front.length < 7 := by
      rw [List.length_cons] at eight
      rw [List.length_nil]
      omega
    have gap := readPieces?_gap small.1 room (joined back)
    rw [List.append_assoc]
    change pieces? (joined (n :: front) ++ ':' :: ':' :: joined back) = _
    rw [List.nil_append, read] at gap
    rw [text, List.cons_append, pieces?_of_ne_colon noColon (by simp), ← List.cons_append, ← text, gap]
    exact all

/-- The written form of eight pieces is read back. -/
theorem pieces?_text {pieces : List Nat} (eight : pieces.length = 8)
    (small : ∀ n ∈ pieces, n < 65536) : pieces? (text pieces) = some pieces := by
  obtain ⟨front, back, split, start⟩ := longestRun_spec 0 pieces
  unfold text
  dsimp only
  split
  · exact pieces?_joined eight small
  case isFalse two =>
    rw [Nat.zero_add] at start
    have length := congrArg List.length split
    rw [List.length_append, List.length_append, List.length_replicate, eight] at length
    have before : pieces.take front.length = front := by
      rw [split, List.append_assoc, List.take_left]
    have after : pieces.drop (front.length + (longestRun 0 pieces).2) = back := by
      have size : front.length + (longestRun 0 pieces).2 =
          (front ++ List.replicate (longestRun 0 pieces).2 0).length := by
        rw [List.length_append, List.length_replicate]
      generalize (longestRun 0 pieces).2 = zeros at split size ⊢
      rw [split, List.drop_left' size.symm]
    rw [start, before, after, pieces?_gap (by omega) length.symm, ← split]
    intro n mem
    apply small
    rw [split]
    simp only [List.mem_append] at mem ⊢
    tauto

/-! ## What is read -/

/-- Whether pieces have sixteen bits each. -/
def Pieces.IsSmall (p : Pieces) : Prop :=
  (∀ n ∈ p.before, n < 65536) ∧ ∀ after, p.after = some after → ∀ n ∈ after, n < 65536

theorem Pieces.IsSmall.push {p : Pieces} (small : p.IsSmall) {piece : Nat} (here : piece < 65536) :
    (p.push piece).IsSmall := by
  obtain ⟨before, after⟩ := p
  have more {pieces : List Nat} (h : ∀ n ∈ pieces, n < 65536) :
      ∀ n ∈ pieces ++ [piece], n < 65536 := by
    rw [List.forall_mem_append, List.forall_mem_singleton]
    exact ⟨h, here⟩
  cases after with
  | none => exact ⟨more small.1, fun _ none => by cases none⟩
  | some after =>
    refine ⟨small.1, ?_⟩
    rintro _ ⟨⟩
    exact more (small.2 after rfl)

/-- The value of some digits is less than the power of the base with as many digits. -/
theorem digitsValue?_lt {base value : Nat} {digits : List Char}
    (found : Ipv4.digitsValue? base digits = some value) : value < base ^ digits.length := by
  induction digits using List.reverseRecOn generalizing value with
  | nil =>
    cases found
    simp
  | append_singleton digits c ih =>
    unfold Ipv4.digitsValue? at found ih
    rw [List.foldl_append, List.foldl_cons, List.foldl_nil] at found
    split at found
    case h_2 => cases found
    case h_1 n d front _ =>
      split at found
      case isFalse => cases found
      case isTrue less =>
        cases found
        have front := ih front
        rw [List.length_append, List.length_singleton, Nat.pow_succ]
        calc base * n + d < base * n + base := Nat.add_lt_add_left less _
          _ = base * (n + 1) := (Nat.mul_succ _ _).symm
          _ ≤ base * base ^ digits.length := Nat.mul_le_mul_left base front
          _ = base ^ digits.length * base := Nat.mul_comm _ _

theorem byte?_lt {digits : List Char} {value : Nat} (found : byte? digits = some value) :
    value < 256 := by
  unfold byte? at found
  split at found
  · cases found
  · cases found
    decide
  · cases found
  · split at found
    case isFalse => cases found
    case isTrue =>
      obtain ⟨n, -, found⟩ := Option.bind_eq_some_iff.mp found
      split at found
      case isFalse => cases found
      case isTrue less =>
        cases found
        exact less

/-- What is read of every member of a list is read of one of them. -/
theorem mem_of_mapM_eq_some {α β : Type} {f : α → Option β} {as : List α} {bs : List β}
    (mapped : as.mapM f = some bs) {b : β} (mem : b ∈ bs) : ∃ a ∈ as, f a = some b := by
  induction as generalizing bs with
  | nil =>
    cases mapped
    cases mem
  | cons a as ih =>
    rw [List.mapM_cons] at mapped
    obtain ⟨b', here, mapped⟩ := Option.bind_eq_some_iff.mp mapped
    obtain ⟨bs', rest, mapped⟩ := Option.bind_eq_some_iff.mp mapped
    cases mapped
    rcases List.mem_cons.mp mem with rfl | mem
    · exact ⟨a, List.mem_cons_self, here⟩
    · obtain ⟨a', mem', found⟩ := ih rest mem
      exact ⟨a', List.mem_cons_of_mem a mem', found⟩

theorem isSmall_of_ipv4Tail? {p q : Pieces} (small : p.IsSmall) {text : List Char}
    (read : ipv4Tail? p text = some q) : q.IsSmall := by
  unfold ipv4Tail? at read
  split at read
  case h_2 => cases read
  case h_1 a b c d bytes =>
    split at read
    case isFalse => cases read
    case isTrue =>
      cases read
      have less : ∀ n ∈ [a, b, c, d], n < 256 := by
        intro n mem
        obtain ⟨digits, -, found⟩ := mem_of_mapM_eq_some bytes mem
        exact byte?_lt found
      simp only [List.forall_mem_cons] at less
      exact (small.push (by omega)).push (by omega)

/-- The value of at most four hexadecimal digits has sixteen bits. -/
theorem piece_lt {text : List Char} {value : Nat} {isDigit : Char → Bool}
    (found : Ipv4.digitsValue? 16 ((text.take 4).takeWhile isDigit) = some value) :
    value < 65536 := by
  have short : ((text.take 4).takeWhile isDigit).length ≤ 4 :=
    ((List.takeWhile_sublist _).length_le).trans (List.length_take_le 4 text)
  calc value < 16 ^ ((text.take 4).takeWhile isDigit).length := digitsValue?_lt found
    _ ≤ 16 ^ 4 := Nat.pow_le_pow_right (by decide) short

/-- Reading keeps the pieces small. -/
theorem isSmall_of_readPieces? {p q : Pieces} (small : p.IsSmall) {text : List Char}
    (read : readPieces? p text = some q) : q.IsSmall := by
  induction length : text.length using Nat.strongRecOn generalizing p text with
  | _ _ ih =>
    subst length
    rw [readPieces?.eq_def] at read
    split at read
    case h_1 =>
      cases read
      exact small
    case h_2 c rest =>
      dsimp only at read
      split at read
      · cases read
      split at read
      case isTrue =>
        split at read
        · cases read
        · have gap : Pieces.IsSmall ⟨p.before, some []⟩ :=
            ⟨small.1, by rintro _ ⟨⟩ n ⟨⟩⟩
          exact ih _ (Nat.lt_succ_self rest.length) gap read rfl
      case isFalse =>
        split at read
        case h_1 =>
          obtain ⟨piece, value, rfl⟩ := Option.map_eq_some_iff.mp read
          exact small.push (piece_lt value)
        case h_2 more behind =>
          split at read
          · cases read
          split at read
          case h_2 => cases read
          case h_1 piece value =>
            refine ih _ ?_ (small.push (piece_lt value)) read rfl
            have shorter := congrArg List.length behind
            simp only [List.length_drop, List.length_cons] at shorter ⊢
            omega
        case h_3 =>
          split at read
          · cases read
          · exact isSmall_of_ipv4Tail? small read
        case h_4 => cases read

/-- What is read as an address has eight pieces of sixteen bits each. -/
theorem pieces?_spec {address : List Char} {pieces : List Nat} (read : pieces? address = some pieces) :
    pieces.length = 8 ∧ ∀ n ∈ pieces, n < 65536 := by
  have whole (p : Pieces) (small : p.IsSmall) (all : p.all? = some pieces) :
      pieces.length = 8 ∧ ∀ n ∈ pieces, n < 65536 := by
    obtain ⟨before, after⟩ := p
    unfold Pieces.all? at all
    dsimp only at all
    split at all
    case h_1 =>
      split at all
      case isFalse => cases all
      case isTrue eight =>
        cases all
        exact ⟨eight, small.1⟩
    case h_2 after =>
      split at all
      case isFalse => cases all
      case isTrue room =>
        cases all
        change before.length + (after.length + 1) ≤ 8 at room
        constructor
        · rw [List.length_append, List.length_append, List.length_replicate]
          omega
        · rw [List.forall_mem_append, List.forall_mem_append]
          refine ⟨⟨small.1, fun n mem => ?_⟩, small.2 after rfl⟩
          rw [List.eq_of_mem_replicate mem]
          decide
  have fromStart (gap : Option (List Nat)) (clean : gap.all List.isEmpty) (text : List Char)
      (found : (readPieces? ⟨[], gap⟩ text).bind Pieces.all? = some pieces) :
      pieces.length = 8 ∧ ∀ n ∈ pieces, n < 65536 := by
    obtain ⟨p, front, all⟩ := Option.bind_eq_some_iff.mp found
    refine whole p (isSmall_of_readPieces? ⟨by simp, ?_⟩ front) all
    rintro after same n mem
    obtain rfl : gap = some after := same
    obtain rfl : after = [] := by simpa using clean
    cases mem
  unfold pieces? at read
  split at read
  case h_2 => cases read
  case h_1 first second rest =>
    split at read
    · exact fromStart none rfl _ read
    · split at read
      · exact fromStart (some []) rfl _ read
      · cases read

end ModuleLinker.Url.Ipv6
