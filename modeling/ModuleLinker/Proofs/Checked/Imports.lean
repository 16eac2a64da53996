import ModuleLinker.Proofs.Checked.Scan

/-!
# Static imports with checks

The search for static imports, which goes through the tokens by their indices, with every index
checked. It finds what is found on the list of tokens (`staticImports_eq`).
-/

set_option autoImplicit false

namespace ModuleLinker

/-- There are no more tokens than characters. -/
theorem ArePieces.length_le {tokens : List Token} {source : List Char}
    (pieces : ArePieces tokens source) : tokens.length ≤ source.length := by
  have start (i : Nat) (less : i < tokens.length) : i ≤ tokens[i].start := by
    induction i with
    | zero => exact Nat.zero_le _
    | succ i ih =>
      have before := ih (by omega)
      have piece := pieces.pieces tokens[i] (List.getElem_mem _)
      have apart := List.pairwise_iff_getElem.mp pieces.inOrder i (i + 1) (by omega) less (by omega)
      have some := piece.less
      omega
  rcases Nat.eq_zero_or_pos tokens.length with none | pos
  · omega
  · have last := start (tokens.length - 1) (by omega)
    have piece := pieces.pieces tokens[tokens.length - 1] (List.getElem_mem _)
    have stop := Checked.stop_le_length piece
    have some := piece.less
    omega

namespace Checked

/-- The token at an index. -/
def tokenAt (tokens : Array Token) (i : Nat) : Checked Token :=
  match tokens[i]? with
  | some t => pure t
  | none => crash (.index i)

theorem tokenAt_eq {tokens : Array Token} {i : Nat} {t : Token} (found : tokens[i]? = some t) :
    tokenAt tokens i = pure t := by
  rw [tokenAt, found]

/-- The reference at an index. -/
def referenceAt? (tokens : Array Token) (i : Nat) : Option String :=
  tokens[i]?.bind fun t => if t.kind == .string then some (unquote t.text) else none

/-- The reference behind the word `from` at an index. -/
def fromReference? (tokens : Array Token) (k : Nat) : Option String :=
  if tokens[k]?.any (·.isWord "from") then referenceAt? tokens (k + 1) else none

/-- The index behind the next closing brace. -/
def braceEnd (source : List Char) (tokens : Array Token) (k : Nat) : Checked Nat := do
  reach source k
  if k < tokens.size then do
    let t ← tokenAt tokens k
    if t.isPunct closeBrace then pure (k + 1) else braceEnd source tokens (k + 1)
  else pure (k + 1)
termination_by tokens.size - k

/-- The index at which the clause of an import or export ends. -/
def clauseEnd (source : List Char) (tokens : Array Token) (k : Nat) : Checked Nat := do
  reach source k
  if k < tokens.size then do
    let t ← tokenAt tokens k
    if t.isWord "from" then pure k
    else if t.kind == .ident || t.isPunct "," || t.isPunct "*" then clauseEnd source tokens (k + 1)
    else if t.isPunct openBrace then do
      let next ← braceEnd source tokens k
      if k < next then clauseEnd source tokens next else crash (.standstill k)
    else pure k
  else pure k
termination_by tokens.size - k

/-- Whether a property access leads to the token at an index. -/
def followsDot (tokens : Array Token) (i : Nat) : Checked Bool :=
  if 0 < i then do
    let before ← tokenAt tokens (← difference i 1)
    pure before.isDot
  else pure false

/-- The static imports of the tokens from an index on, which lie inside `depth` brackets. -/
def importsFrom (source : List Char) (tokens : Array Token) (depth i : Nat) :
    Checked (List String) := do
  reach source i
  if i < tokens.size then do
    let t ← tokenAt tokens i
    if t.isOpener then importsFrom source tokens (← word source (depth + 1)) (i + 1)
    else if t.isCloser then importsFrom source tokens (depth - 1) (i + 1)
    else if t.kind == .ident && depth == 0 then do
      let property ← followsDot tokens i
      if property || !(t.isWord "import" || t.isWord "export") then importsFrom source tokens depth (i + 1)
      else
        match if t.isWord "import" then referenceAt? tokens (i + 1) else none with
        | some reference => do
          let more ← importsFrom source tokens depth (i + 1)
          pure (reference :: more)
        | none => do
          let k ← clauseEnd source tokens (i + 1)
          let more ← importsFrom source tokens depth (i + 1)
          pure ((fromReference? tokens k).toList ++ more)
    else importsFrom source tokens depth (i + 1)
  else pure []
termination_by tokens.size - i

/-- The static imports of a source text. -/
def staticImports (source : List Char) : Checked (List String) := do
  importsFrom source (← scan source) 0 0

/-! ## No check fails -/

section

variable {source : List Char} {tokens : Array Token} (fits : tokens.size ≤ source.length)

theorem toList_drop {k : Nat} {t : Token} (found : tokens[k]? = some t) :
    tokens.toList.drop k = t :: tokens.toList.drop (k + 1) := by
  obtain ⟨less, same⟩ := Array.getElem?_eq_some_iff.mp found
  rw [List.drop_eq_getElem_cons (by rwa [Array.length_toList]), Array.getElem_toList, same]

theorem toList_drop_of_le {k : Nat} (le : tokens.size ≤ k) : tokens.toList.drop k = [] :=
  List.drop_eq_nil_of_le (by rwa [Array.length_toList])

theorem referenceAt?_eq (k : Nat) : referenceAt? tokens k = reference? (tokens.toList.drop k) := by
  unfold referenceAt?
  cases found : tokens[k]? with
  | some t =>
    rw [toList_drop found]
    rfl
  | none =>
    rw [toList_drop_of_le (Array.getElem?_eq_none_iff.mp found)]
    rfl

include fits

theorem braceEnd_eq {k : Nat} (le : k ≤ tokens.size) :
    ∃ next, braceEnd source tokens k = pure next ∧ k < next ∧ next ≤ tokens.size + 1 ∧
      tokens.toList.drop next = afterBrace (tokens.toList.drop k) := by
  rw [braceEnd, reach_eq (by omega), pure_bind]
  split
  case isTrue less =>
    obtain ⟨t, found⟩ : ∃ t, tokens[k]? = some t := ⟨_, Array.getElem?_eq_getElem less⟩
    rw [tokenAt_eq found, pure_bind, toList_drop found, afterBrace]
    split
    · exact ⟨k + 1, rfl, Nat.lt_succ_self k, by omega, rfl⟩
    · obtain ⟨next, same, past, short, rest⟩ := braceEnd_eq less
      exact ⟨next, same, by omega, short, rest⟩
  case isFalse =>
    refine ⟨k + 1, rfl, Nat.lt_succ_self k, by omega, ?_⟩
    rw [toList_drop_of_le (by omega), toList_drop_of_le (by omega)]
    rfl
termination_by tokens.size - k

theorem clauseEnd_eq {k : Nat} (le : k ≤ tokens.size + 1) :
    ∃ stop, clauseEnd source tokens k = pure stop ∧
      fromReference? tokens stop = clauseReference? (tokens.toList.drop k) := by
  rw [clauseEnd, reach_eq (by omega), pure_bind]
  split
  case isTrue less =>
    obtain ⟨t, found⟩ : ∃ t, tokens[k]? = some t := ⟨_, Array.getElem?_eq_getElem less⟩
    rw [tokenAt_eq found, pure_bind, toList_drop found, clauseReference?]
    split
    case isTrue word =>
      refine ⟨k, rfl, ?_⟩
      rw [fromReference?, found, Option.any_some, if_pos word, referenceAt?_eq]
    case isFalse other =>
    split
    case isTrue => exact clauseEnd_eq (by omega)
    case isFalse =>
    have none : fromReference? tokens k = none := by
      rw [fromReference?, found, Option.any_some, if_neg other]
    split
    case isFalse => exact ⟨k, rfl, none⟩
    case isTrue brace =>
    obtain ⟨next, same, past, short, rest⟩ := braceEnd_eq fits (Nat.le_of_lt less)
    have behind : tokens.toList.drop next = afterBrace (tokens.toList.drop (k + 1)) := by
      have open' : t.isPunct closeBrace = false := by
        unfold Token.isPunct at brace ⊢
        rw [Bool.and_eq_true, beq_iff_eq, beq_iff_eq] at brace
        rw [brace.1, brace.2]
        rfl
      rw [rest, toList_drop found, afterBrace, open']
      rfl
    rw [same, pure_bind, if_pos past, ← behind]
    exact clauseEnd_eq short
  case isFalse ended =>
    have none : tokens[k]? = none := Array.getElem?_eq_none (by omega)
    refine ⟨k, rfl, ?_⟩
    rw [toList_drop_of_le (by omega), clauseReference?, fromReference?, none]
    rfl
termination_by tokens.size - k

omit fits in
theorem followsDot_eq {i : Nat} (le : i ≤ tokens.size) :
    followsDot tokens i = pure (decide (0 < i) && tokens[i - 1]?.any (·.isDot)) := by
  unfold followsDot
  split
  case isTrue pos =>
    have found : tokens[i - 1]? = some tokens[i - 1] := Array.getElem?_eq_getElem (by omega)
    rw [difference_eq pos, pure_bind, tokenAt_eq found, pure_bind, found, Option.any_some,
      decide_eq_true pos, Bool.true_and]
  case isFalse first => rw [decide_eq_false first, Bool.false_and]

omit fits in
/-- A bracket is no dot. -/
theorem isDot_of_isOpener {t : Token} (bracket : t.isOpener = true ∨ t.isCloser = true) :
    t.isDot = false := by
  obtain ⟨kind, start, text, newline, holes⟩ := t
  simp only [Token.isOpener, Token.isCloser, Bool.and_eq_true, Bool.or_eq_true, beq_iff_eq] at bracket
  simp only [Token.isDot, Token.isPunct]
  rcases bracket with ⟨rfl, (rfl | rfl) | rfl⟩ | ⟨rfl, (rfl | rfl) | rfl⟩ <;> rfl

theorem importsFrom_eq {depth i : Nat} (shallow : depth ≤ i) (le : i ≤ tokens.size) :
    importsFrom source tokens depth i = pure (tokenImports depth
      (decide (0 < i) && tokens[i - 1]?.any (·.isDot)) (tokens.toList.drop i)) := by
  rw [importsFrom, reach_eq (by omega), pure_bind]
  split
  case isFalse ended =>
    rw [toList_drop_of_le (by omega)]
    rfl
  case isTrue less =>
  obtain ⟨t, found⟩ : ∃ t, tokens[i]? = some t := ⟨_, Array.getElem?_eq_getElem less⟩
  have bytes := length_le_byteLength source
  have next {depth' : Nat} (shallow : depth' ≤ i + 1) {afterDot : Bool} (dot : t.isDot = afterDot) :
      importsFrom source tokens depth' (i + 1) =
        pure (tokenImports depth' afterDot (tokens.toList.drop (i + 1))) := by
    have step := importsFrom_eq shallow less
    rwa [Nat.add_sub_cancel, found, Option.any_some, decide_eq_true (Nat.succ_pos i), Bool.true_and,
      dot] at step
  rw [tokenAt_eq found, pure_bind, toList_drop found, tokenImports]
  split
  case isTrue opens =>
    rw [word_eq (by omega), pure_bind]
    exact next (by omega) (isDot_of_isOpener (.inl opens))
  case isFalse =>
  split
  case isTrue closes => exact next (by omega) (isDot_of_isOpener (.inr closes))
  case isFalse =>
  split
  case isFalse other =>
    have plain : (depth == 0 && !(decide (0 < i) && tokens[i - 1]?.any (·.isDot)) &&
        (t.isWord "import" || t.isWord "export")) = false := by
      rw [Bool.not_eq_true, Bool.and_eq_false_iff] at other
      unfold Token.isWord
      rcases other with other | other <;> simp [other]
    rw [plain]
    exact next (by omega) rfl
  case isTrue word =>
  rw [Bool.and_eq_true] at word
  rw [followsDot_eq le, pure_bind, word.2, Bool.true_and, next (by omega) rfl]
  cases decide (0 < i) && tokens[i - 1]?.any (·.isDot)
  case true => rfl
  case false =>
  cases keyword : t.isWord "import" || t.isWord "export"
  case false => rfl
  case true =>
  have statement : statementReference? t (tokens.toList.drop (i + 1)) =
      (if t.isWord "import" then referenceAt? tokens (i + 1) else none).or
        (clauseReference? (tokens.toList.drop (i + 1))) := by
    have isImport : (t.text == "import") = t.isWord "import" := by
      rw [Token.isWord, word.1, Bool.true_and]
    rw [statementReference?, isImport, referenceAt?_eq]
    cases (if t.isWord "import" then reference? (tokens.toList.drop (i + 1)) else none) <;> rfl
  obtain ⟨k, same, reference⟩ := clauseEnd_eq fits (k := i + 1) (by omega)
  rw [Bool.not_true, Bool.or_false, Bool.not_false, Bool.and_true, if_neg Bool.false_ne_true, if_pos rfl, statement]
  cases (if t.isWord "import" then referenceAt? tokens (i + 1) else none) with
  | some direct => rfl
  | none =>
    dsimp only
    rw [same, pure_bind, pure_bind, reference, Option.none_or]
    cases clauseReference? (tokens.toList.drop (i + 1)) <;> rfl
termination_by tokens.size - i

end

/-- No check of the search for static imports fails. -/
theorem staticImports_eq (source : List Char) :
    staticImports source = ofScan (ModuleLinker.staticImports (String.ofList source)) := by
  unfold staticImports ModuleLinker.staticImports
  rw [String.toList_ofList]
  refine bind_eq_ofScan (scan_eq source) fun tokens scanned => ?_
  have fits : tokens.size ≤ source.length := by
    rw [← Array.length_toList]
    exact (scan_pieces scanned).length_le
  rw [importsFrom_eq fits (Nat.le_refl 0) (Nat.zero_le _)]
  rfl

end Checked

end ModuleLinker
