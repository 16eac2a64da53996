import ModuleLinker.Proofs.Checked.Basic
import ModuleLinker.Proofs.Source.Appended

/-!
# Scanning with checks

The scanner, in which every piece that is read back from the text is cut out of it, and every number
that is counted is checked. It gives what scanning gives, so that none of its checks fails (`scan_eq`).
The same for the partners of brackets (`matchBrackets_eq`).
-/

set_option autoImplicit false

namespace ModuleLinker

open Text

namespace Checked

open Lexeme

/-! ## Words and numbers -/

/-- Whether a slash after this token starts a regular expression. -/
def regexAllowedAfter (source : List Char) : Option Token → Checked Bool
  | none => pure true
  | some t =>
    match t.kind with
    | .punct => pure !(t.text == ")" || t.text == "]" || t.text == "++" || t.text == "--")
    | .ident => do
      let word ← between source t.start t.stop
      pure (regexPrecedingWords.contains (String.ofList word))
    | _ => pure false

theorem stop_le_length {source : List Char} {t : Token} (piece : t.IsPieceOf source) :
    t.stop ≤ source.length := by
  have length := piece.piece.length_le
  have less := piece.less
  rw [List.length_drop, String.length_toList] at length
  unfold Token.stop at less ⊢
  omega

/-- A token is what is cut out of the text at its place. -/
theorem between_token {source : List Char} {t : Token} (piece : t.IsPieceOf source) :
    between source t.start t.stop = pure t.text.toList := by
  rw [between_eq (Nat.le_of_lt piece.less) (stop_le_length piece), Token.stop, Nat.add_sub_cancel_left,
    ← String.length_toList, ← List.prefix_iff_eq_take.mp piece.piece]

theorem regexAllowedAfter_eq {source : List Char} {before : Option Token}
    (piece : ∀ t, before = some t → t.IsPieceOf source) :
    regexAllowedAfter source before = pure (ModuleLinker.regexAllowedAfter before) := by
  cases before with
  | none => rfl
  | some t =>
    rw [regexAllowedAfter, ModuleLinker.regexAllowedAfter, between_token (piece t rfl), pure_bind,
      String.ofList_toList]
    cases t.kind <;> rfl

/-- Whether a character is a sign in a number that starts at `start`, of which `n` characters come
before it besides the first; the character in front of it is looked up in the text. -/
def isSign (source : List Char) (start : Nat) (hex : Bool) (n : Nat) (c : Char) : Checked Bool :=
  if (c == '+' || c == '-') && !hex then do
    let digits ← between source start (start + 1 + n)
    pure (digits.getLast?.any fun c => c == 'e' || c == 'E')
  else pure false

theorem isSign_eq {source : List Char} {start n : Nat} (hex : Bool) {last : Char} (c : Char)
    (before : source[start + n]? = some last) :
    isSign source start hex n c =
      pure ((c == '+' || c == '-') && !hex && (last == 'e' || last == 'E')) := by
  have inside := (List.getElem?_eq_some_iff.mp before).1
  have digits : between source start (start + 1 + n) = pure ((source.drop start).take (n + 1)) := by
    rw [between_eq (by omega) (by omega)]
    have length : start + 1 + n - start = n + 1 := by omega
    rw [length]
  have final : ((source.drop start).take (n + 1)).getLast? = some last := by
    rw [List.getLast?_take, if_neg (Nat.succ_ne_zero n), Nat.add_sub_cancel, List.getElem?_drop, before]
    rfl
  rw [isSign, digits, pure_bind, final]
  cases ((c == '+' || c == '-') && !hex) <;> rfl

/-- Whether a token that starts with a character, behind another token, is a regular expression. -/
def startsRegex (source : List Char) (before : Option Token) (c : Char) : Checked Bool :=
  if c = '/' then regexAllowedAfter source before else pure false

theorem startsRegex_eq {source : List Char} {before : Option Token}
    (piece : ∀ t, before = some t → t.IsPieceOf source) (c : Char) :
    startsRegex source before c = pure (c = '/' && ModuleLinker.regexAllowedAfter before) := by
  rw [startsRegex, regexAllowedAfter_eq piece]
  split
  case isTrue slash => rw [decide_eq_true slash, Bool.true_and]
  case isFalse other => rw [decide_eq_false other, Bool.false_and]

/-- How many characters a number takes after its first one, counting from `n`, where it starts at
`start`. -/
def numberLength (source : List Char) (start : Nat) (hex : Bool) (n : Nat) : List Char → Checked Nat
  | [] => pure n
  | c :: cs => do
    let sign ← isSign source start hex n c
    if c.isAlphanum || c == '_' || c == '.' || sign then numberLength source start hex (n + 1) cs
    else pure n

theorem numberLength_eq {source : List Char} {start : Nat} (hex : Bool) {last : Char} {n : Nat}
    {cs : List Char} (before : source[start + n]? = some last) (rest : source.drop (start + n + 1) = cs) :
    numberLength source start hex n cs = pure (Lexeme.numberLength hex last n cs) := by
  induction cs generalizing n last with
  | nil => rfl
  | cons c cs ih =>
    rw [numberLength, Lexeme.numberLength, isSign_eq hex c before, pure_bind]
    have next : source[start + (n + 1)]? = some c := by
      rw [← Nat.add_assoc, ← Nat.add_zero (start + n + 1), ← List.getElem?_drop, rest,
        List.getElem?_cons_zero]
    split
    · exact ih next (drop_of_drop_eq_cons rest 0)
    · rfl

/-- The punctuator at a place. -/
def operator? (source : List Char) (start : Nat) : Checked (Option String) := do
  let rest ← between source start source.length
  match operators.find? fun op => op.toList.isPrefixOf rest with
  | none => pure none
  | some op =>
    if op = "?." then do
      let more ← cut rest 2 (byteLength rest)
      pure (some (if more.head?.any Char.isDigit then "?" else op))
    else pure (some op)

/-- A text is cut behind the mark of an optional access that it starts with. -/
theorem cut_access (more : List Char) :
    cut ('?' :: '.' :: more) 2 (byteLength ('?' :: '.' :: more)) = pure more := by
  have front : 2 = byteOffset ('?' :: '.' :: more) 2 := rfl
  rw [← byteOffset_length]
  nth_rewrite 1 [front]
  rw [cut_byteOffset (by simp) (Nat.le_refl _), List.drop_succ_cons, List.drop_succ_cons, List.drop_zero,
    List.length_cons, List.length_cons]
  exact congrArg Pure.pure (List.take_length ..)

theorem operator?_eq {source cs : List Char} {start : Nat} (le : start ≤ source.length)
    (rest : source.drop start = cs) : operator? source start = pure (Lexeme.operator? cs) := by
  have whole : between source start source.length = pure cs := by
    rw [between_eq le (Nat.le_refl _), ← rest, ← List.length_drop, List.take_length]
  rw [operator?, whole, pure_bind, Lexeme.operator?]
  cases found : operators.find? fun op => op.toList.isPrefixOf cs with
  | none => rfl
  | some op =>
    dsimp only
    split
    case isFalse other => rw [decide_eq_false other, Bool.false_and, if_neg Bool.false_ne_true]
    case isTrue access =>
      have isPrefix := List.find?_some found
      rw [List.isPrefixOf_iff_prefix, access] at isPrefix
      obtain ⟨more, rfl⟩ := isPrefix
      have behind : cut ("?.".toList ++ more) 2 (byteLength ("?.".toList ++ more)) = pure more :=
        cut_access more
      have same : ("?.".toList ++ more).drop 2 = more := rfl
      rw [behind, pure_bind, same, decide_eq_true access, Bool.true_and]
      split <;> rfl

/-! ## Template literals -/

mutual

/-- The offset right after the template literal that starts at `start`, and its substitutions; each of
them is cut out of the text up to one byte before the place that its closing brace leads to. -/
def template (source : List Char) (start pos : Nat) (holes : List Hole) (cs : List Char) :
    Checked (Nat × List Hole) :=
  match cs with
  | [] => reject ⟨start, .unterminatedTemplate⟩
  | c :: cs =>
    if c = templateMark then pure (pos + 1, holes.reverse)
    else if c = '\\' then template source start (pos + 2) holes (cs.drop 1)
    else if c = '$' && cs.head? == some '{' then do
      let first := cs.drop 1
      let close ← substitution source start (pos + 2) 1 first
      let inner ← place source (pos + 2)
      let stop ← difference (← place source (close + 1)) 1
      let text ← cut source inner stop
      template source start (close + 1) (⟨pos + 2, text⟩ :: holes) (first.drop (close - (pos + 2) + 1))
    else template source start (pos + 1) holes cs
termination_by cs.length

/-- The offset of the brace that closes the outermost of `depth` open substitutions and braces. -/
def substitution (source : List Char) (start pos depth : Nat) (cs : List Char) : Checked Nat :=
  match cs with
  | [] => reject ⟨start, .unterminatedTemplate⟩
  | c :: cs =>
    if c = '{' then do substitution source start (pos + 1) (← word source (depth + 1)) cs
    else if c = '}' then do
      let outer ← difference depth 1
      if outer = 0 then pure pos else substitution source start (pos + 1) outer cs
    else if c = '"' || c = '\x27' then
      match quotedLength? c 0 cs with
      | none => reject ⟨pos, .unterminatedString⟩
      | some n => substitution source start (pos + 1 + n) depth (cs.drop n)
    else if c = templateMark then do
      let (stop, _) ← template source pos (pos + 1) [] cs
      substitution source start stop depth (cs.drop (stop - (pos + 1)))
    else if c = '/' && cs.head? == some '/' then
      let n := lineLength cs
      substitution source start (pos + 1 + n) depth (cs.drop n)
    else if c = '/' && cs.head? == some '*' then
      let n := 1 + ((blockLength? 0 (cs.drop 1)).getD cs.length)
      substitution source start (pos + 1 + n) depth (cs.drop n)
    else substitution source start (pos + 1) depth cs
termination_by cs.length

end

/-- The text of a substitution ends one byte before the place behind its closing brace. -/
theorem cut_substitution {α : Type} {source : List Char} {first close : Nat} (le : first ≤ close)
    (brace : source[close]? = some '\x7d') (f : List Char → Checked α) :
    (do let inner ← place source first
        let stop ← difference (← place source (close + 1)) 1
        let text ← cut source inner stop
        f text) = f ((source.drop first).take (close - first)) := by
  obtain ⟨less, same⟩ := List.getElem?_eq_some_iff.mp brace
  have one : (source.drop close).take 1 = ['\x7d'] := by
    rw [List.drop_eq_getElem_cons less, same]
    rfl
  have bytes : byteOffset source (close + 1) = byteOffset source close + 1 := by
    rw [byteOffset_eq_add source (Nat.le_succ close), Nat.succ_sub (Nat.le_refl close), Nat.sub_self, one]
    rfl
  rw [place_eq (by omega), place_eq less, pure_bind, pure_bind, bytes, difference_eq (by omega), pure_bind,
    Nat.add_sub_cancel, cut_byteOffset le (Nat.le_of_lt less), pure_bind]

mutual

theorem template_eq {source : List Char} {pos : Nat} {cs : List Char} (rest : source.drop pos = cs)
    (start : Nat) (holes : List Hole) :
    template source start pos holes cs = ofScan (Lexeme.template start pos holes cs) := by
  cases cs with
  | nil =>
    rw [template, Lexeme.template]
    rfl
  | cons c cs =>
    have behind := drop_of_drop_eq_cons rest
    have inside := lt_length_of_drop_eq_cons rest
    have second : source.drop (pos + 2) = cs.drop 1 := behind 1
    rw [template, Lexeme.template]
    refine ite_eq_ofScan (fun _ => rfl) fun _ => ?_
    refine ite_eq_ofScan (fun _ => template_eq second start holes) fun _ => ?_
    refine ite_eq_ofScan (fun _ => ?_) fun _ => template_eq (behind 0) start holes
    refine bind_eq_ofScan (substitution_eq second (Nat.zero_le _) start) ?_
    intro close closes
    obtain ⟨le, less⟩ := substitution_spec closes
    have brace := getElem?_of_substitution closes
    rw [← second, List.getElem?_drop, Nat.add_sub_cancel' le] at brace
    rw [cut_substitution le brace, second]
    refine template_eq ?_ start _
    have there : close + 1 = pos + 2 + (close - (pos + 2) + 1) := by omega
    rw [there, ← List.drop_drop, second]
termination_by source.length - pos

theorem substitution_eq {source : List Char} {pos depth : Nat} {cs : List Char}
    (rest : source.drop pos = cs) (shallow : depth ≤ pos) (start : Nat) :
    substitution source start pos (depth + 1) cs = ofScan (Lexeme.substitution start pos depth cs) := by
  cases cs with
  | nil =>
    rw [substitution]
    unfold Lexeme.substitution
    rfl
  | cons c cs =>
    have behind := drop_of_drop_eq_cons rest
    have inside := lt_length_of_drop_eq_cons rest
    have bytes := length_le_byteLength source
    have further (n : Nat) :=
      have deeper : depth ≤ pos + 1 + n := by omega
      substitution_eq (behind n) deeper start
    rw [substitution]
    unfold Lexeme.substitution
    dsimp only
    refine ite_eq_ofScan (fun _ => ?_) fun _ => ?_
    · rw [word_eq (by omega), pure_bind]
      exact substitution_eq (behind 0) (by omega) start
    refine ite_eq_ofScan (fun _ => ?_) fun _ => ?_
    · rw [difference_eq (by omega), pure_bind, Nat.add_sub_cancel]
      cases depth with
      | zero => rfl
      | succ outer => exact substitution_eq (behind 0) (by omega) start
    refine ite_eq_ofScan (fun _ => ?_) fun _ => ?_
    · cases quotedLength? c 0 cs with
      | none => rfl
      | some n => exact further n
    refine ite_eq_ofScan (fun _ => ?_) fun _ => ?_
    · refine bind_eq_ofScan (template_eq (behind 0) pos []) fun (stop, holes) ends => ?_
      have past := (template_spec ends).1
      have there : stop = pos + 1 + (stop - (pos + 1)) := by omega
      refine substitution_eq ?_ (by omega) start
      rw [there, behind, Nat.add_sub_cancel_left]
    refine ite_eq_ofScan (fun _ => further _) fun _ => ?_
    refine ite_eq_ofScan (fun _ => further _) fun _ => ?_
    exact further 0
termination_by source.length - pos

end

/-! ## Tokens -/

/-- The extent of the token at a place, behind another token. -/
def extent (source : List Char) (before : Option Token) (pos : Nat) (c : Char) (cs : List Char) :
    Checked Extent :=
  if c = '"' || c = '\x27' then
    match quotedLength? c 0 cs with
    | none => reject ⟨pos, .unterminatedString⟩
    | some n => pure ⟨.string, n, []⟩
  else if c = templateMark then do
    let (stop, holes) ← template source pos (pos + 1) [] cs
    pure ⟨.template, stop - (pos + 1), holes⟩
  else if c.isDigit || (c = '.' && cs.head?.any Char.isDigit) then do
    let number ← between source pos source.length
    let hex := number.take 2 == ['0', 'x'] || number.take 2 == ['0', 'X']
    pure ⟨.number, ← numberLength source pos hex 0 cs, []⟩
  else if c = '#' then
    if cs.head?.any isNameStart then pure ⟨.privateName, nameLength cs, []⟩
    else reject ⟨pos, .invalidCharacter '#'⟩
  else do
    let regexAllowed ← startsRegex source before c
    if regexAllowed then
      match regexLength? false 0 cs with
      | none => reject ⟨pos, .unterminatedRegex⟩
      | some n => pure ⟨.regex, n + nameLength (cs.drop n), []⟩
    else if isNameStart c || c = '\\' then pure ⟨.ident, nameLength cs, []⟩
    else
      match ← operator? source pos with
      | none => reject ⟨pos, .invalidCharacter c⟩
      | some op => pure ⟨.punct, op.length - 1, []⟩

theorem extent_eq {source cs : List Char} {before : Option Token} {pos : Nat} {c : Char}
    (piece : ∀ t, before = some t → t.IsPieceOf source) (rest : source.drop pos = c :: cs) :
    extent source before pos c cs =
      ofScan (Lexeme.extent (ModuleLinker.regexAllowedAfter before) pos c cs) := by
  have inside := lt_length_of_drop_eq_cons rest
  have behind : source.drop (pos + 1) = cs := drop_of_drop_eq_cons rest 0
  have first : source[pos + 0]? = some c := by
    rw [← List.getElem?_drop, rest, List.getElem?_cons_zero]
  unfold extent Lexeme.extent
  dsimp only
  refine ite_eq_ofScan (fun _ => ?_) fun _ => ?_
  · cases quotedLength? c 0 cs <;> rfl
  refine ite_eq_ofScan (fun _ => ?_) fun _ => ?_
  · exact bind_eq_ofScan (template_eq behind pos []) fun _ _ => rfl
  refine ite_eq_ofScan (fun _ => ?_) fun _ => ?_
  · have hex : ((c :: cs).take 2 == ['0', 'x'] || (c :: cs).take 2 == ['0', 'X']) =
        (decide (c = '0') && (cs.head? == some 'x' || cs.head? == some 'X')) := by
      cases cs with
      | nil => simp
      | cons d cs =>
        rw [Bool.eq_iff_iff]
        simp only [List.take_succ_cons, List.take_zero, List.head?_cons, Bool.or_eq_true, Bool.and_eq_true,
          beq_iff_eq, decide_eq_true_eq, List.cons.injEq, and_true, Option.some.injEq]
        tauto
    have number : between source pos source.length = pure (c :: cs) := by
      rw [between_eq (by omega) (Nat.le_refl _), ← List.length_drop, List.take_length, rest]
    rw [number, pure_bind, numberLength_eq _ first behind, pure_bind, hex]
    rfl
  refine ite_eq_ofScan (fun _ => ite_eq_ofScan (fun _ => rfl) fun _ => rfl) fun _ => ?_
  rw [startsRegex_eq piece, pure_bind]
  refine ite_eq_ofScan (fun _ => ?_) fun _ => ?_
  · cases regexLength? false 0 cs <;> rfl
  refine ite_eq_ofScan (fun _ => rfl) fun _ => ?_
  rw [operator?_eq (by omega) rest, pure_bind]
  cases Lexeme.operator? (c :: cs) <;> rfl

/-- The tokens of the text `cs`, which lies at the offset `pos` after the tokens `done`; the text of a
token is cut out of the whole. -/
def scanFrom (source : List Char) (done : Array Token) (pos : Nat) (cs : List Char) :
    Checked (Array Token) := do
  let space ← ofScan (gap pos ⟨0, false⟩ cs)
  match rest : cs.drop space.length with
  | c :: more =>
    let start := pos + space.length
    let found ← extent source done.back? start c more
    let text ← between source start (start + 1 + found.more)
    let token : Token :=
      { kind := found.kind, start, text := String.ofList text, newlineBefore := space.newline,
        holes := found.holes }
    scanFrom source (done.push token) (start + 1 + found.more) (more.drop found.more)
  | [] => pure done
termination_by cs.length
decreasing_by
  have shorter := congrArg List.length rest
  simp only [List.length_drop, List.length_cons] at shorter ⊢
  omega

theorem scanFrom_eq {source cs : List Char} {done : Array Token} {pos : Nat}
    (pieces : ArePieces done.toList source) (before : ∀ t ∈ done.toList, t.stop ≤ pos)
    (here : source.drop pos = cs) :
    scanFrom source done pos cs = ofScan (ModuleLinker.scanFrom done pos cs) := by
  rw [scanFrom, ModuleLinker.scanFrom]
  refine bind_eq_ofScan rfl fun space _ => ?_
  split
  case h_2 none =>
    split
    case h_1 => rfl
    case h_2 c more place =>
      rw [none] at place
      cases place
  case h_1 c more place =>
    split
    case h_1 none =>
      rw [place] at none
      cases none
    case h_2 c' more' place' =>
    obtain ⟨rfl, rfl⟩ := List.cons.inj (place.symm.trans place')
    have rest : source.drop (pos + space.length) = c :: more := by
      rw [← List.drop_drop, here, place]
    have last (t : Token) (same : done.back? = some t) : t.IsPieceOf source := by
      rw [Array.back?_eq_getElem?] at same
      exact pieces.pieces t (Array.mem_of_getElem? same).val
    refine bind_eq_ofScan (extent_eq last rest) fun found cut => ?_
    have piece := isPieceOf_of_extent space.newline rest cut
    have inside := lt_length_of_drop_eq_cons rest
    have le := extent_more_le cut
    have stop : pos + space.length + 1 + found.more = Token.stop ⟨found.kind, pos + space.length,
        String.ofList (c :: more.take found.more), space.newline, found.holes⟩ := by
      rw [Token.stop, String.length_ofList, List.length_cons, List.length_take, Nat.min_eq_left le]
      dsimp only
      omega
    have text : between source (pos + space.length) (pos + space.length + 1 + found.more) =
        pure (c :: more.take found.more) := by
      rw [stop, between_token piece, String.toList_ofList]
    have shorter : (more.drop found.more).length < cs.length := by
      have length := congrArg List.length place
      rw [List.length_drop, List.length_cons] at length
      rw [List.length_drop]
      omega
    rw [text, pure_bind]
    refine scanFrom_eq ?_ ?_ (drop_of_drop_eq_cons rest found.more)
    · rw [Array.toList_push]
      refine pieces.concat piece fun t mem => ?_
      have stopped := before t mem
      change t.stop ≤ pos + space.length
      omega
    · rw [Array.toList_push]
      intro t mem
      rcases List.mem_append.mp mem with mem | mem
      · have stopped := before t mem
        omega
      · rw [List.mem_singleton.mp mem, stop]
termination_by cs.length
decreasing_by exact shorter

/-- The tokens of a source text. -/
def scan (source : List Char) : Checked (Array Token) :=
  let skipped := interpreterLineLength source
  scanFrom source #[] skipped (source.drop skipped)

/-- No check of the scanner fails. -/
theorem scan_eq (source : List Char) : scan source = ofScan (ModuleLinker.scan source) :=
  scanFrom_eq (ArePieces.nil source) (fun _ mem => by cases mem) rfl

/-! ## Brackets -/

/-- Writes the partner of a token into the table. -/
def setPartner (partners : Partners) (i j : Nat) : Checked Partners :=
  if i < partners.size then pure (partners.setIfInBounds i (some j)) else crash (.index i)

/-- Reads the token at position `i`. -/
def readBracket (s : BracketState) (i : Nat) (t : Token) : Checked BracketState :=
  if t.isOpener then pure { s with opened := (i, t) :: s.opened }
  else if t.isCloser then
    match s.opened with
    | (j, o) :: outer =>
      if closerOf o.text = t.text then do
        let partners ← setPartner s.partners j i
        pure ⟨outer, ← setPartner partners i j⟩
      else reject ⟨t.start, .unexpectedCloser t.text⟩
    | [] => reject ⟨t.start, .unexpectedCloser t.text⟩
  else pure s

/-- Reads the tokens from position `i` on. -/
def readBrackets (s : BracketState) (i : Nat) : List Token → Checked BracketState
  | [] => pure s
  | t :: ts => do readBrackets (← readBracket s i t) (i + 1) ts

/-- The partners of the brackets of a token list. -/
def matchBrackets (tokens : Array Token) : Checked Partners := do
  let s ← readBrackets ⟨[], Array.replicate tokens.size none⟩ 0 tokens.toList
  match s.opened with
  | (i, o) :: _ =>
    match tokens[i]? with
    | some t => reject ⟨t.start, .neverClosed o.text⟩
    | none => crash (.index i)
  | [] => pure s.partners

/-- What is known once the tokens before position `i` have been read. -/
structure HasRead (s : BracketState) (tokens : Array Token) (i : Nat) : Prop where
  /-- There is room for the partner of each token. -/
  size : s.partners.size = tokens.size
  /-- What is open has been read. -/
  opened : ∀ e ∈ s.opened, e.1 < i ∧ tokens[e.1]? = some e.2
  /-- An opening bracket is open, or has a partner further on. -/
  matched : ∀ k t, k < i → tokens[k]? = some t → t.isOpener = true →
    (∃ e ∈ s.opened, e.1 = k) ∨ ∃ j, s.partners[k]? = some (some j) ∧ k < j ∧ j < tokens.size

theorem readBracket_eq {s : BracketState} {tokens : Array Token} {i : Nat} {t : Token}
    (read : HasRead s tokens i) (here : tokens[i]? = some t) :
    readBracket s i t = ofScan (s.read i t) ∧
      ∀ s', s.read i t = .ok s' → HasRead s' tokens (i + 1) := by
  have inside := (Array.getElem?_eq_some_iff.mp here).1
  have later (k : Nat) (t' : Token) (before : k < i + 1) (found : tokens[k]? = some t')
      (isOpener : t'.isOpener = true) (other : t.isOpener = false) : k < i := by
    rcases Nat.lt_succ_iff_lt_or_eq.mp before with before | rfl
    · exact before
    · rw [here] at found
      cases found
      rw [other] at isOpener
      cases isOpener
  unfold readBracket BracketState.read
  split
  case isTrue opens =>
    refine ⟨rfl, fun s' done => ?_⟩
    cases done
    refine ⟨read.size, fun e mem => ?_, fun k t' before found isOpener => ?_⟩
    · rcases List.mem_cons.mp mem with rfl | mem
      · exact ⟨Nat.lt_succ_self i, here⟩
      · exact ⟨Nat.lt_succ_of_lt (read.opened e mem).1, (read.opened e mem).2⟩
    · rcases Nat.lt_succ_iff_lt_or_eq.mp before with before | rfl
      · refine (read.matched k t' before found isOpener).imp_left fun ⟨e, mem, same⟩ => ?_
        exact ⟨e, List.mem_cons_of_mem _ mem, same⟩
      · exact .inl ⟨(k, t), List.mem_cons_self, rfl⟩
  case isFalse other =>
  rw [Bool.not_eq_true] at other
  split
  case isFalse =>
    refine ⟨rfl, fun s' done => ?_⟩
    cases done
    refine ⟨read.size, fun e mem => ?_, fun k t' before found isOpener => ?_⟩
    · exact ⟨Nat.lt_succ_of_lt (read.opened e mem).1, (read.opened e mem).2⟩
    · exact read.matched k t' (later k t' before found isOpener other) found isOpener
  case isTrue closes =>
  obtain ⟨opened, partners⟩ := s
  cases opened with
  | nil => exact ⟨rfl, fun s' done => by cases done⟩
  | cons e outer =>
    obtain ⟨j, o⟩ := e
    dsimp only
    split
    case isFalse => exact ⟨rfl, fun s' done => by cases done⟩
    case isTrue =>
    obtain ⟨⟨first, opener⟩, inner⟩ := List.forall_mem_cons.mp read.opened
    have size : partners.size = tokens.size := read.size
    have room : j < partners.size := by omega
    have room' : i < (partners.setIfInBounds j (some i)).size := by
      rw [Array.size_setIfInBounds]
      omega
    constructor
    · rw [setPartner, if_pos room, pure_bind, setPartner, if_pos room', pure_bind]
      rfl
    · intro s' done
      cases done
      refine ⟨?_, fun e mem => ?_, fun k t' before found isOpener => ?_⟩
      · rw [Array.size_setIfInBounds, Array.size_setIfInBounds, size]
      · exact ⟨Nat.lt_succ_of_lt (inner e mem).1, (inner e mem).2⟩
      · have earlier := later k t' before found isOpener other
        dsimp only
        rw [Array.getElem?_setIfInBounds_ne (Nat.ne_of_gt earlier)]
        by_cases same : k = j
        · subst same
          right
          exact ⟨i, Array.getElem?_setIfInBounds_self_of_lt room, earlier, inside⟩
        · rw [Array.getElem?_setIfInBounds_ne (Ne.symm same)]
          refine (read.matched k t' earlier found isOpener).imp_left fun ⟨e, mem, at'⟩ => ?_
          rcases List.mem_cons.mp mem with rfl | mem
          · exact absurd at'.symm same
          · exact ⟨e, mem, at'⟩

theorem readBrackets_eq {s : BracketState} {tokens : Array Token} {i : Nat} {ts : List Token}
    (read : HasRead s tokens i) (rest : tokens.toList.drop i = ts) :
    readBrackets s i ts = ofScan (s.readAll i ts) ∧
      ∀ s', s.readAll i ts = .ok s' → HasRead s' tokens (i + ts.length) := by
  induction ts generalizing s i with
  | nil =>
    refine ⟨rfl, fun s' done => ?_⟩
    cases done
    exact read
  | cons t ts ih =>
    have here : tokens[i]? = some t := by
      rw [← Array.getElem?_toList, ← Nat.add_zero i, ← List.getElem?_drop, rest, List.getElem?_cons_zero]
    have behind : tokens.toList.drop (i + 1) = ts := by
      rw [← List.drop_drop, rest, List.drop_succ_cons, List.drop_zero]
    obtain ⟨same, after⟩ := readBracket_eq read here
    constructor
    · exact bind_eq_ofScan same fun s' done => (ih (after s' done) behind).1
    · intro s' done
      obtain ⟨next, first, done⟩ := bind_eq_ok.mp done
      have all := (ih (after next first) behind).2 s' done
      rwa [List.length_cons, Nat.add_comm ts.length, ← Nat.add_assoc]

/-- No check fails where brackets are matched, and every opening one has a partner further on. -/
theorem matchBrackets_eq (tokens : Array Token) :
    matchBrackets tokens = ofScan (ModuleLinker.matchBrackets tokens) ∧
      ∀ partners, ModuleLinker.matchBrackets tokens = .ok partners → ∀ i t, tokens[i]? = some t →
        t.isOpener = true → ∃ j, partners[i]? = some (some j) ∧ i < j ∧ j < tokens.size := by
  have start : HasRead ⟨[], Array.replicate tokens.size none⟩ tokens 0 :=
    ⟨Array.size_replicate, fun _ mem => (by cases mem), fun _ _ less => by cases less⟩
  obtain ⟨same, after⟩ := readBrackets_eq start rfl
  constructor
  · refine bind_eq_ofScan same fun s done => ?_
    have read := after s done
    obtain ⟨opened, partners⟩ := s
    cases opened with
    | nil => rfl
    | cons e outer =>
      dsimp only
      rw [(read.opened e List.mem_cons_self).2]
      rfl
  · intro partners done i t here isOpener
    obtain ⟨s, first, done⟩ := bind_eq_ok.mp done
    have read := after s first
    have less := (Array.getElem?_eq_some_iff.mp here).1
    rw [Nat.zero_add, Array.length_toList] at read
    obtain ⟨opened, partners'⟩ := s
    cases opened with
    | cons e outer => cases done
    | nil =>
      cases done
      exact (read.matched i t less here isOpener).resolve_left fun ⟨e, mem, _⟩ => by cases mem

end Checked

end ModuleLinker
