import ModuleLinker.Proofs.Source.Ahead

/-!
# Scanning a text in which tokens have faded
-/

set_option autoImplicit false

namespace ModuleLinker

open Lexeme Text

/-- Whether a text is another one in which some characters, line ends apart, have given way to spaces. -/
def Fades (old new : List Char) : Prop :=
  List.Forall₂ (fun c d => d = c ∨ (d = ' ' ∧ c ≠ '\n' ∧ c ≠ '\r')) old new

namespace Fades

variable {old new : List Char}

theorem refl (cs : List Char) : Fades cs cs := List.forall₂_same.mpr fun _ _ => .inl rfl

theorem append {old' new' : List Char} (fades : Fades old new) (fades' : Fades old' new') :
    Fades (old ++ old') (new ++ new') :=
  List.rel_append fades fades'

/-- What is asked about the first character and is not so of a space. -/
theorem any_head? (fades : Fades old new) {test : Char → Bool} (noSpace : test ' ' = false)
    (before : old.head?.any test = false) : new.head?.any test = false := by
  cases fades with
  | nil => rfl
  | cons first rest =>
    rcases first with rfl | ⟨rfl, -⟩
    · exact before
    · exact noSpace

/-- What is asked about the character behind a text, where it is not so of a space. -/
theorem any_head?_append (fades : Fades old new) {front : List Char} {test : Char → Bool}
    (noSpace : test ' ' = false) (inside : old.head?.any test = true → front ≠ []) :
    (front ++ new).head?.any test = (front ++ old).head?.any test := by
  cases front with
  | nil =>
    have before : old.head?.any test = false := by
      rw [Bool.eq_false_iff]
      exact fun is => inside is rfl
    exact (fades.any_head? noSpace before).trans before.symm
  | cons c front => rfl

/-- A word that a faded text starts with was there before. -/
theorem isPrefix (fades : Fades old new) {word : List Char} (solid : ' ' ∉ word) (here : word <+: new) :
    word <+: old := by
  induction word generalizing old new with
  | nil => exact List.nil_prefix
  | cons c word ih =>
    rw [List.mem_cons, not_or] at solid
    cases fades with
    | nil => cases List.prefix_nil.mp here
    | cons first rest =>
      obtain ⟨rfl, tail⟩ := List.cons_prefix_cons.mp here
      rcases first with rfl | ⟨same, -⟩
      · exact List.cons_prefix_cons.mpr ⟨rfl, ih rest solid.2 tail⟩
      · exact absurd same.symm solid.1

end Fades

namespace Lexeme

variable {front back new : List Char}

theorem head?_beq (cs : List Char) (d : Char) : (cs.head? == some d) = cs.head?.any (· == d) := by
  cases cs with
  | nil => rfl
  | cons => simp

/-! ## Tokens -/

/-- A name ends where what follows it fades. -/
theorem nameLength_fades (fades : Fades back new) (ends : nameLength (front ++ back) = front.length) :
    nameLength (front ++ new) = front.length := by
  let test : Char → Bool := fun c => isNamePart c || c == '\\'
  have whole : (front ++ back).takeWhile test = front :=
    (List.prefix_of_prefix_length_le (List.takeWhile_prefix _) (List.prefix_append ..)
      (Nat.le_of_eq ends)).eq_of_length ends
  have parts : ∀ c ∈ front, test c = true := fun c mem => List.mem_takeWhile_imp (whole ▸ mem)
  have stops : back.head?.any test = false := by
    rw [List.takeWhile_append_of_pos parts] at whole
    have none := List.append_right_eq_self.mp whole
    cases back with
    | nil => rfl
    | cons c back => simpa [List.takeWhile_cons] using none
  have stops' : new.takeWhile test = [] := by
    have noSpace : test ' ' = false := by decide +kernel
    have after := fades.any_head? noSpace stops
    cases new with
    | nil => rfl
    | cons c new => exact List.takeWhile_cons_of_neg (by simpa using after)
  have same : (front ++ new).takeWhile test = front := by
    rw [List.takeWhile_append_of_pos parts, stops', List.append_nil]
  exact congrArg List.length same

theorem nameLength_pos {c : Char} (starts : isNameStart c = true) (cs : List Char) :
    0 < nameLength (c :: cs) := by
  have part : (isNamePart c || c == '\\') = true := by rw [isNamePart_of_isNameStart starts, Bool.true_or]
  unfold nameLength
  rw [List.takeWhile_cons, if_pos part]
  exact Nat.succ_pos _

theorem le_numberLength (hex : Bool) (last : Char) (n : Nat) (cs : List Char) :
    n ≤ numberLength hex last n cs := by
  fun_induction numberLength hex last n cs with
  | case1 => exact Nat.le_refl _
  | case2 _ _ _ _ _ ih => omega
  | case3 => exact Nat.le_refl _

theorem numberLength_pos {c : Char} (goesOn : c.isAlphanum = true) (hex : Bool) (last : Char)
    (cs : List Char) : 0 < numberLength hex last 0 (c :: cs) := by
  rw [numberLength, goesOn, Bool.true_or, Bool.true_or, Bool.true_or, if_pos rfl]
  exact le_numberLength hex c 1 cs

/-- A number ends where what follows it fades. -/
theorem numberLength_fades (fades : Fades back new) {hex : Bool} {last : Char} {n : Nat}
    (ends : numberLength hex last n (front ++ back) = n + front.length) :
    numberLength hex last n (front ++ new) = n + front.length := by
  induction front generalizing last n with
  | nil =>
    cases fades with
    | nil => exact ends
    | @cons c d back new first rest =>
      rw [List.nil_append, numberLength] at ends ⊢
      rcases first with rfl | ⟨rfl, -⟩
      · split at ends
        case isTrue goesOn =>
          have le := le_numberLength hex d (n + 1) back
          rw [List.length_nil] at ends
          omega
        case isFalse stops => rw [if_neg stops, List.length_nil, Nat.add_zero]
      · exact if_neg (by simp [Char.isAlphanum, Char.isAlpha, Char.isUpper, Char.isLower, Char.isDigit])
  | cons c front ih =>
    rw [List.cons_append, numberLength] at ends ⊢
    rw [List.length_cons] at ends ⊢
    split at ends
    case isTrue goesOn =>
      rw [if_pos goesOn, ih (by omega)]
      omega
    case isFalse => omega

/-- Whether a number that starts with a point at the start of a text stays or goes as a whole. -/
def KeepsNumber (old new : List Char) : Prop :=
  ∀ d more, old = '.' :: d :: more → d.isDigit = true → new.head? = some '.' →
    ∃ more', new = '.' :: d :: more'

/-- A punctuator ends where what follows it fades. -/
theorem operator?_fades {c : Char} {op : String} (fades : Fades back new) (keeps : KeepsNumber back new)
    (found : operator? (c :: (front ++ back)) = some op) (size : op.length - 1 = front.length) :
    operator? (c :: (front ++ new)) = some op := by
  have solid : ∀ op ∈ operators, ' ' ∉ op.toList := fun op mem => by
    simpa using noBlank_of_mem_operators op mem
  unfold operator? at found
  split at found
  case h_1 => cases found
  case h_2 first here =>
  split at found
  case isTrue special =>
    -- Only this question mark is cut off before what it looks like with the point behind it.
    cases found
    obtain rfl : front = [] := List.eq_nil_of_length_eq_zero size.symm
    rw [Bool.and_eq_true, decide_eq_true_eq] at special
    obtain ⟨rfl, digit⟩ := special
    obtain ⟨isPrefix, -⟩ := List.find?_eq_some_iff_append.mp here
    obtain ⟨more, same⟩ := List.isPrefixOf_iff_prefix.mp isPrefix
    obtain ⟨rfl, rfl⟩ := List.cons.inj same
    cases more with
    | nil => cases digit
    | cons d more =>
      have conditional (more : List Char) : operator? ('?' :: '.' :: d :: more) = some "?" := by
        have first : operators.find? (fun op => op.toList.isPrefixOf ('?' :: '.' :: d :: more)) =
            some "?." := rfl
        rw [operator?, first]
        exact if_pos digit
      have alone (more : List Char) : operator? ('?' :: ' ' :: more) = some "?" := rfl
      cases fades with
      | cons kept rest =>
        rcases kept with rfl | ⟨rfl, -⟩
        · obtain ⟨more', same⟩ := keeps d more rfl digit rfl
          rw [List.nil_append, same]
          exact conditional more'
        · exact alone _
  case isFalse plain =>
    cases found
    obtain ⟨isPrefix, before, after, table, shorter⟩ := List.find?_eq_some_iff_append.mp here
    have mem : op ∈ operators := by
      rw [table]
      exact List.mem_append_right _ List.mem_cons_self
    have here' : (operators.find? fun op => op.toList.isPrefixOf (c :: (front ++ new))) = some op := by
      refine List.find?_eq_some_iff_append.mpr ⟨?_, before, after, table, fun other among => ?_⟩
      · have inside : op.toList <+: c :: front := by
          refine List.prefix_of_prefix_length_le (List.isPrefixOf_iff_prefix.mp isPrefix)
            (List.prefix_append (c :: front) back) ?_
          rw [String.length_toList, List.length_cons]
          omega
        exact List.isPrefixOf_iff_prefix.mpr (inside.trans (List.prefix_append (c :: front) new))
      · have absent := shorter other among
        rw [Bool.not_eq_true', Bool.eq_false_iff] at absent ⊢
        intro there
        have known : other ∈ operators := by
          rw [table]
          exact List.mem_append_left _ among
        have whole : Fades (c :: (front ++ back)) (c :: (front ++ new)) := (Fades.refl (c :: front)).append fades
        exact absent (List.isPrefixOf_iff_prefix.mpr
          (whole.isPrefix (solid other known) (List.isPrefixOf_iff_prefix.mp there)))
    unfold operator?
    rw [here']
    refine if_neg fun special => plain ?_
    rw [Bool.and_eq_true, decide_eq_true_eq] at special ⊢
    obtain ⟨rfl, digit⟩ := special
    obtain ⟨d, rfl⟩ := List.length_eq_one_iff.mp size.symm
    refine ⟨rfl, ?_⟩
    by_contra noDigit
    have noSpace : Char.isDigit ' ' = false := by decide
    have noDigit' := fades.any_head? noSpace (Bool.eq_false_iff.mpr noDigit)
    exact absurd digit (Bool.eq_false_iff.mp noDigit')

/-- A token ends where what follows it fades. -/
theorem extent_fades {allowed : Bool} {pos : Nat} {c : Char} {found : Extent} (fades : Fades back new)
    (keeps : KeepsNumber back new) (cut : extent allowed pos c (front ++ back) = .ok found)
    (size : found.more = front.length) : extent allowed pos c (front ++ new) = .ok found := by
  unfold extent at cut ⊢
  dsimp only at cut ⊢
  split at cut
  case isTrue quote =>
    rw [if_pos quote]
    split at cut
    case h_1 => cases cut
    case h_2 n closes =>
      cases cut
      rw [quotedLength?_within closes (by rw [← size, Nat.zero_add])]
  case isFalse noQuote =>
  rw [if_neg noQuote]
  split at cut
  case isTrue mark =>
    obtain ⟨⟨stop, holes⟩, ends, cut⟩ := bind_eq_ok.mp cut
    cases cut
    rw [if_pos mark]
    refine bind_eq_ok.mpr ⟨_, template_within ends ?_ new, rfl⟩
    dsimp only at size ⊢
    omega
  case isFalse noMark =>
  rw [if_neg noMark]
  split at cut
  case isTrue number =>
    cases cut
    dsimp only at size
    have next {test : Char → Bool} (goesOn : ∀ d, test d = true → d.isAlphanum = true)
        (first : back.head?.any test = true) : front ≠ [] := by
      rintro rfl
      obtain ⟨d, head, is⟩ := (Option.any_eq_true ..).mp first
      obtain ⟨more, rfl⟩ := List.head?_eq_some_iff.mp head
      exact Nat.ne_of_gt (numberLength_pos (goesOn d is) _ c more) size
    have letter (d : Char) (space : (' ' == d) = false) (isLetter : d.isAlphanum = true) :
        ((front ++ new).head? == some d) = ((front ++ back).head? == some d) := by
      rw [head?_beq, head?_beq]
      exact fades.any_head?_append space (next fun e same => by rw [eq_of_beq same, isLetter])
    have digit : (front ++ new).head?.any Char.isDigit = (front ++ back).head?.any Char.isDigit :=
      fades.any_head?_append (by decide) (next fun d is => by rw [Char.isAlphanum, is, Bool.or_true])
    rw [digit, letter 'x' (by decide) (by decide), letter 'X' (by decide) (by decide), if_pos number,
      numberLength_fades fades (by rw [size, Nat.zero_add]), size, Nat.zero_add]
  case isFalse noNumber =>
  have noNumber' : ¬ (c.isDigit || decide (c = '.') && (front ++ new).head?.any Char.isDigit) = true := by
    refine fun number => noNumber ?_
    rw [Bool.or_eq_true, Bool.and_eq_true] at number ⊢
    refine number.imp_right (And.imp_right fun digit => ?_)
    by_contra noDigit
    have noSpace : Char.isDigit ' ' = false := by decide
    have none := ((Fades.refl front).append fades).any_head? noSpace (Bool.eq_false_iff.mpr noDigit)
    rw [digit] at none
    cases none
  rw [if_neg noNumber']
  split at cut
  case isTrue hash =>
    rw [if_pos hash]
    split at cut
    case isFalse => cases cut
    case isTrue starts =>
      cases cut
      dsimp only at size
      have some : back.head?.any isNameStart = true → front ≠ [] := by
        rintro first rfl
        obtain ⟨d, head, start⟩ := (Option.any_eq_true ..).mp first
        obtain ⟨more, rfl⟩ := List.head?_eq_some_iff.mp head
        exact Nat.ne_of_gt (nameLength_pos start more) size
      rw [fades.any_head?_append (by decide +kernel) some, if_pos starts, nameLength_fades fades size, size]
  case isFalse noHash =>
  rw [if_neg noHash]
  split at cut
  case isTrue slash =>
    rw [if_pos slash]
    split at cut
    case h_1 => cases cut
    case h_2 n closes =>
      cases cut
      dsimp only at size
      have le : n ≤ front.length := by omega
      rw [List.drop_append_of_le_length le] at size
      have flags : nameLength (front.drop n ++ back) = (front.drop n).length := by
        rw [List.length_drop]
        omega
      rw [regexLength?_within closes (by omega)]
      dsimp only
      rw [List.drop_append_of_le_length le, List.drop_append_of_le_length le, nameLength_fades fades flags,
        flags]
  case isFalse noSlash =>
  rw [if_neg noSlash]
  split at cut
  case isTrue starts =>
    cases cut
    dsimp only at size
    rw [if_pos starts, nameLength_fades fades size, size]
  case isFalse noName =>
    rw [if_neg noName]
    split at cut
    case h_1 => cases cut
    case h_2 op isOperator =>
      cases cut
      rw [operator?_fades fades keeps isOperator size]

/-- A number that starts with a point goes on. -/
theorem more_pos_of_point {allowed : Bool} {pos : Nat} {d : Char} {cs : List Char} {found : Extent}
    (digit : d.isDigit = true) (cut : extent allowed pos '.' (d :: cs) = .ok found) : 0 < found.more := by
  have number : ('.'.isDigit || (decide ('.' = '.') && (d :: cs).head?.any Char.isDigit)) = true := by
    simp [digit]
  unfold extent at cut
  rw [if_neg (by decide), if_neg (by decide), if_pos number] at cut
  cases cut
  exact numberLength_pos (by rw [Char.isAlphanum, digit, Bool.or_true]) ..

/-! ## Gaps -/

/-- Where no gap starts, none starts when what follows fades. -/
theorem startsGap_fades {c : Char} (fades : Fades back new) (noGap : startsGap (c :: back) = false) :
    startsGap (c :: new) = false := by
  have letter (d : Char) (space : (' ' == d) = false) (other : (back.head? == some d) = false) :
      (new.head? == some d) = false := by
    rw [head?_beq] at other ⊢
    exact fades.any_head? space other
  simp only [startsGap, Bool.or_eq_false_iff, Bool.and_eq_false_iff] at noGap ⊢
  refine ⟨noGap.1, noGap.2.imp_right fun other => ?_⟩
  exact ⟨letter '/' (by decide) other.1, letter '*' (by decide) other.2⟩

/-- Whether a text in front of another one belongs to the gap in front of it. -/
def IsPassed (front rest : List Char) : Prop :=
  ∃ newline, ∀ pos before, gap pos before (front ++ rest) =
    gap (pos + front.length) ⟨before.length + front.length, before.newline || newline⟩ rest

theorem IsPassed.nil (rest : List Char) : IsPassed [] rest :=
  ⟨false, fun pos before => by rw [Bool.or_false]; rfl⟩

theorem IsPassed.append {rest : List Char} (first : IsPassed front (back ++ rest))
    (second : IsPassed back rest) : IsPassed (front ++ back) rest := by
  obtain ⟨newline, passes⟩ := first
  obtain ⟨newline', passes'⟩ := second
  refine ⟨newline || newline', fun pos before => ?_⟩
  rw [List.append_assoc, passes, passes', List.length_append, Nat.add_assoc, Nat.add_assoc,
    Bool.or_assoc]

theorem IsPassed.of_isGap {blanks : List Char} (blank : isGap blanks = true) (rest : List Char) :
    IsPassed blanks rest :=
  ⟨blanks.any isLineEnd, fun pos before => gap_append blank pos before rest⟩

/-- Where no gap starts, nothing is passed. -/
theorem IsPassed.eq_nil {rest : List Char} (passed : IsPassed front rest)
    (noGap : startsGap (front ++ rest) = false) (behind : startsGap rest = false) : front = [] := by
  obtain ⟨newline, passes⟩ := passed
  have same := passes 0 ⟨0, false⟩
  rw [gap_of_startsGap noGap, gap_of_startsGap behind] at same
  have length := congrArg Gap.length (Except.ok.inj same)
  exact List.eq_nil_of_length_eq_zero (by dsimp only at length; omega)

/-- A line is as long as it is where a line end follows, or nothing. -/
theorem lineLength_of_isLine {body rest : List Char} (line : Filler.IsLine body rest) :
    lineLength (body ++ rest) = body.length := by
  have plain : ∀ c ∈ body, (c != '\n' && c != '\r') = true := by simpa using line.1
  unfold lineLength
  rw [List.takeWhile_append_of_pos plain]
  cases rest with
  | nil => simp
  | cons c rest =>
    have ends : ¬ (c != '\n' && c != '\r') = true := by
      rcases line.2 c rfl with rfl | rfl <;> decide
    rw [List.takeWhile_cons, if_neg ends, List.append_nil]

/-- A comment ends with the first mark that closes it. -/
theorem blockLength?_append {body : List Char} (first : ¬ ['*', '/'] <:+: body ++ ['*']) (n : Nat)
    (rest : List Char) : blockLength? n (body ++ '*' :: '/' :: rest) = some (n + body.length + 2) := by
  induction body generalizing n with
  | nil => rfl
  | cons c body ih =>
    rw [List.cons_append, List.infix_cons_iff, not_or] at first
    rw [List.cons_append, blockLength?.eq_2, ih first.2, List.length_cons]
    · congr 1
      omega
    · rintro more rfl same
      cases body with
      | nil => cases same
      | cons d body =>
        cases same
        exact first.1 (List.prefix_append ['*', '/'] _)

end Lexeme

/-- What may stand between two tokens is passed, the line of an interpreter apart. -/
theorem Filler.isPassed {filler : Filler} {offset : Nat} {rest : List Char} (some : 0 < offset)
    (stands : filler.MayStand offset rest) : IsPassed filler.text rest := by
  cases filler with
  | blank c =>
    refine .of_isGap ?_ rest
    rcases stands with blank | rfl
    · simp [isGap, Filler.text, blank]
    · decide
  | lineComment body =>
    have line : IsLine ('/' :: body) rest :=
      ⟨List.forall_mem_cons.mpr ⟨by decide, stands.1⟩, stands.2⟩
    have size (n : Nat) : n + 1 + ('/' :: body).length = n + (lineComment body).text.length := by
      simp only [text, List.length_cons]
      omega
    refine ⟨false, fun pos before => ?_⟩
    change gap pos before ('/' :: ('/' :: body ++ rest)) = _
    rw [gap, if_neg (by decide), if_neg (by decide), if_pos (by simp), lineLength_of_isLine line,
      Bool.or_false]
    dsimp only
    rw [List.drop_left, size, size]
  | blockComment body =>
    let newline := ('*' :: (body ++ ['*', '/'])).any fun c => c == '\n' || c == '\r'
    have split : '*' :: (body ++ '*' :: '/' :: rest) = '*' :: (body ++ ['*', '/']) ++ rest := by simp
    have length : ('*' :: (body ++ ['*', '/'])).length = 1 + body.length + 2 := by
      simp
      omega
    have size (n : Nat) : n + 1 + (1 + body.length + 2) = n + (blockComment body).text.length := by
      simp only [text, List.length_cons, List.length_append, List.length_nil]
      omega
    refine ⟨newline, fun pos before => ?_⟩
    have whole : (blockComment body).text ++ rest = '/' :: '*' :: (body ++ '*' :: '/' :: rest) := by
      simp [text]
    have closes : blockLength? 1 (('*' :: (body ++ '*' :: '/' :: rest)).drop 1) =
        .some (1 + body.length + 2) := blockLength?_append stands 1 rest
    rw [whole, gap, if_neg (by decide), if_neg (by decide), if_neg (by simp), if_pos (by simp), closes]
    dsimp only
    rw [split, List.take_left' length, List.drop_left' length, size, size]
  | interpreterLine body => exact absurd stands.1 (Nat.ne_of_gt some)

theorem Fills.isPassed {offset : Nat} {fillers : List Filler} {rest : List Char} (some : 0 < offset)
    (fills : Fills offset fillers rest) : IsPassed (gapText fillers) rest := by
  induction fills with
  | nil => exact .nil _
  | cons stands _ ih =>
    rw [gapText_cons]
    exact (Filler.isPassed some stands).append (ih (Nat.add_pos_left some _))

/-- A line ends where what follows it fades, as line ends stay. -/
theorem Filler.IsLine.fades {body old new : List Char} (line : Filler.IsLine body old)
    (fades : Fades old new) : Filler.IsLine body new := by
  refine ⟨line.1, ?_⟩
  have behind := line.2
  cases fades with
  | nil => exact behind
  | cons first rest =>
    rcases first with rfl | ⟨rfl, noFeed, noReturn⟩
    · exact behind
    · rcases behind _ rfl with same | same
      · exact absurd same noFeed
      · exact absurd same noReturn

/-- Fillers may stand before a text that fades. -/
theorem Fills.fades {offset : Nat} {fillers : List Filler} {old new : List Char} (fades : Fades old new)
    (fills : Fills offset fillers old) : Fills offset fillers new := by
  induction fills with
  | nil => exact .nil ..
  | @cons offset filler fillers old stands _ ih =>
    refine .cons ?_ (ih fades)
    have whole := (Fades.refl (gapText fillers)).append fades
    cases filler with
    | blank c => exact stands
    | lineComment body => exact stands.fades whole
    | blockComment body => exact stands
    | interpreterLine body => exact ⟨stands.1, stands.2.fades whole⟩

/-- A gap is passed, whatever the text behind it fades to, and there is none behind it. -/
theorem gap_split {pos : Nat} {space : Gap} {cs : List Char} (passed : gap pos ⟨0, false⟩ cs = .ok space) :
    (∀ new, Fades (cs.drop space.length) new → IsPassed (cs.take space.length) new) ∧
      startsGap (cs.drop space.length) = false := by
  obtain ⟨fillers, rest, rfl, fills, size, -⟩ := gap_spec passed 1
  rw [Nat.zero_add] at size
  rw [List.take_left' size.symm, List.drop_left' size.symm]
  obtain ⟨newline, passes⟩ := fills.isPassed Nat.one_pos
  rw [passes, Nat.zero_add] at passed
  exact ⟨fun new fades => (fills.fades fades).isPassed Nat.one_pos, startsGap_of_length_eq passed size⟩

/-! ## Steps of a scan -/

/-- A text that belongs to a gap as a whole has no tokens. -/
theorem scanFrom_of_isPassed {cs : List Char} (passed : IsPassed cs []) (done : Array Token) (pos : Nat) :
    scanFrom done pos cs = .ok done := by
  obtain ⟨newline, passes⟩ := passed
  have between := passes pos ⟨0, false⟩
  rw [List.append_nil, gap_nil, Nat.zero_add] at between
  rw [scanFrom, between]
  simp only [bind, Except.bind]
  split
  case h_1 => rfl
  case h_2 c more same =>
    rw [List.drop_length] at same
    cases same

/-- Scanning takes a token with the gap in front of it and goes on behind it. -/
theorem exists_scanFrom_eq {done : Array Token} {pos : Nat} {gap body rest : List Char} {c : Char}
    {kind : TokenKind} {holes : List Hole} (passed : IsPassed gap (c :: (body ++ rest)))
    (noGap : startsGap (c :: (body ++ rest)) = false)
    (cut : extent (regexAllowedAfter done.back?) (pos + gap.length) c (body ++ rest) =
      .ok ⟨kind, body.length, holes⟩) :
    ∃ newline, scanFrom done pos (gap ++ c :: (body ++ rest)) =
      scanFrom (done.push ⟨kind, pos + gap.length, String.ofList (c :: body), newline, holes⟩)
        (pos + gap.length + 1 + body.length) rest := by
  obtain ⟨newline, passes⟩ := passed
  have between := passes pos ⟨0, false⟩
  rw [gap_of_startsGap noGap, Nat.zero_add, Bool.false_or] at between
  refine ⟨newline, ?_⟩
  rw [scanFrom_cons between List.drop_left cut]
  dsimp only
  rw [List.take_left, List.drop_left]

/-- Whether a token with this first character and these further ones is the next one of a text, behind
a gap and before the rest of the text. -/
structure Token.IsNext (t : Token) (allowed : Bool) (pos : Nat) (gap : List Char) (c : Char)
    (body rest : List Char) : Prop where
  /-- It starts behind the gap. -/
  start : t.start = pos + gap.length
  /-- These are its characters. -/
  text : t.text = String.ofList (c :: body)
  /-- It is cut off there. -/
  cut : extent allowed t.start c (body ++ rest) = .ok ⟨t.kind, body.length, t.holes⟩
  /-- The gap stays one whatever fades behind it. -/
  passed : ∀ new, Fades (c :: (body ++ rest)) new → IsPassed gap new
  /-- It ends with the token. -/
  noGap : startsGap (c :: (body ++ rest)) = false

theorem Token.IsNext.stop {t : Token} {allowed : Bool} {pos : Nat} {gap body rest : List Char} {c : Char}
    (next : t.IsNext allowed pos gap c body rest) : t.stop = t.start + (c :: body).length := by
  rw [Token.stop, next.text, String.length_ofList]

/-- A scan comes to its end, or it takes a token and goes on. -/
theorem scanFrom_cases {done tokens : Array Token} {pos : Nat} {cs : List Char}
    (scanned : scanFrom done pos cs = .ok tokens) :
    (tokens = done ∧ IsPassed cs []) ∨
      ∃ t gap c body rest, cs = gap ++ c :: (body ++ rest) ∧
        Token.IsNext t (regexAllowedAfter done.back?) pos gap c body rest ∧
        scanFrom (done.push t) t.stop rest = .ok tokens := by
  rw [scanFrom] at scanned
  obtain ⟨space, passed, scanned⟩ := bind_eq_ok.mp scanned
  obtain ⟨stays, noGap⟩ := gap_split passed
  split at scanned
  case h_1 none =>
    cases scanned
    have whole : cs.take space.length = cs := by
      rw [← List.append_nil (cs.take space.length), ← none, List.take_append_drop]
    have last := stays [] (by rw [none]; exact .refl [])
    rw [whole] at last
    exact .inl ⟨rfl, last⟩
  case h_2 c more some =>
    obtain ⟨found, cut, scanned⟩ := bind_eq_ok.mp scanned
    have le := extent_more_le cut
    have size : (more.take found.more).length = found.more := List.length_take_of_le le
    have length : (cs.take space.length).length = space.length := by
      refine List.length_take_of_le ?_
      have := congrArg List.length some
      rw [List.length_drop, List.length_cons] at this
      omega
    have split : more.take found.more ++ more.drop found.more = more := List.take_append_drop ..
    let token : Token := ⟨found.kind, pos + space.length, String.ofList (c :: more.take found.more),
      space.newline, found.holes⟩
    refine .inr ⟨token, cs.take space.length, c, more.take found.more, more.drop found.more, ?_, ?_, ?_⟩
    · rw [split, ← some, List.take_append_drop]
    · rw [some, ← split] at stays noGap
      refine ⟨by rw [length], rfl, ?_, stays, noGap⟩
      rw [split, size]
      exact cut
    · have place : pos + space.length + 1 + found.more =
          pos + space.length + (c :: more.take found.more).length := by
        rw [List.length_cons, size]
        omega
      rw [place] at scanned
      rw [Token.stop, String.length_ofList]
      exact scanned

end ModuleLinker
