import ModuleLinker.Proofs.Source.Tiling

/-!
# Texts that go on

No token is longer than the text that it is cut off (`extent_more_le`). What ends in the front of a text
does not depend on what comes behind it: strings, regular expressions and comments that are closed there,
and template literals and substitutions (`template_within`, `substitution_within`). So it stays the same
where a text goes on (`template_append`).
-/

set_option autoImplicit false

namespace ModuleLinker.Lexeme

/-! ## No token is longer than the text -/

theorem quotedLength?_le {quote : Char} {n length : Nat} {cs : List Char}
    (closes : quotedLength? quote n cs = some length) : length ≤ n + cs.length := by
  fun_induction quotedLength? quote n cs with
  | case1 | case2 | case4 => cases closes
  | case3 =>
    cases closes
    rw [List.length_cons]
    omega
  | case5 _ _ _ _ _ ih | case6 _ _ _ _ _ _ ih =>
    have le := ih closes
    simp only [List.length_cons]
    omega

theorem regexLength?_le {inClass : Bool} {n length : Nat} {cs : List Char}
    (closes : regexLength? inClass n cs = some length) : length ≤ n + cs.length := by
  fun_induction regexLength? inClass n cs with
  | case1 | case2 | case3 => cases closes
  | case4 | case5 | case6 | case8 =>
    rename_i ih
    have le := ih closes
    simp only [List.length_cons]
    omega
  | case7 =>
    cases closes
    rw [List.length_cons]
    omega

theorem nameLength_le (cs : List Char) : nameLength cs ≤ cs.length :=
  (List.takeWhile_prefix _).length_le

theorem numberLength_le (hex : Bool) (last : Char) (n : Nat) (cs : List Char) :
    numberLength hex last n cs ≤ n + cs.length := by
  fun_induction numberLength hex last n cs with
  | case1 => exact Nat.le_refl _
  | case2 _ _ _ _ _ ih =>
    rw [List.length_cons]
    omega
  | case3 => exact Nat.le_add_right _ _

/-- A token takes no more characters than there are. -/
theorem extent_more_le {regexAllowed : Bool} {pos : Nat} {c : Char} {cs : List Char} {found : Extent}
    (done : extent regexAllowed pos c cs = .ok found) : found.more ≤ cs.length := by
  unfold extent at done
  dsimp only at done
  split at done
  · split at done
    · cases done
    case h_2 n closes =>
      cases done
      exact Nat.le_trans (quotedLength?_le closes) (Nat.le_of_eq (Nat.zero_add _))
  split at done
  · obtain ⟨⟨stop, holes⟩, ends, done⟩ := bind_eq_ok.mp done
    cases done
    have le := (template_spec ends).2.1
    change stop - (pos + 1) ≤ _
    omega
  split at done
  · cases done
    exact Nat.le_trans (numberLength_le ..) (Nat.le_of_eq (Nat.zero_add _))
  split at done
  · split at done <;> cases done
    exact nameLength_le cs
  split at done
  · split at done
    · cases done
    case h_2 n closes =>
      cases done
      have le := regexLength?_le closes
      have flags := nameLength_le (cs.drop n)
      rw [List.length_drop] at flags
      change n + nameLength (cs.drop n) ≤ _
      omega
  split at done
  · cases done
    exact nameLength_le cs
  · split at done
    · cases done
    case h_2 op isOperator =>
      cases done
      have short := (operator?_spec isOperator).isPrefix.1.length_le
      rw [String.length_toList, List.length_cons] at short
      change op.length - 1 ≤ _
      omega

/-! ## What ends in the front of a text -/

theorem lt_quotedLength? {quote : Char} {n length : Nat} {cs : List Char}
    (closes : quotedLength? quote n cs = some length) : n < length := by
  fun_induction quotedLength? quote n cs with
  | case1 | case2 | case4 => cases closes
  | case3 =>
    cases closes
    exact Nat.lt_add_one _
  | case5 _ _ _ _ _ ih => exact Nat.lt_trans (by omega) (ih closes)
  | case6 _ _ _ _ _ _ ih => exact Nat.lt_trans (Nat.lt_add_one _) (ih closes)

/-- A string that is closed in the front of a text. -/
theorem quotedLength?_within {quote : Char} {n length : Nat} {front back : List Char}
    (closes : quotedLength? quote n (front ++ back) = some length) (inside : length ≤ n + front.length)
    (rest : List Char) : quotedLength? quote n (front ++ rest) = some length := by
  fun_induction quotedLength? quote n front with
  | case1 n =>
    have past := lt_quotedLength? closes
    exact absurd inside (Nat.not_le_of_lt past)
  | case2 n cs =>
    rw [List.cons_append, quotedLength?.eq_def] at closes
    cases closes
  | case3 n cs other =>
    rw [List.cons_append, quotedLength?.eq_def] at closes ⊢
    dsimp only at closes ⊢
    rwa [if_neg other, if_pos rfl] at closes ⊢
  | case4 n other noQuote =>
    rw [List.cons_append, quotedLength?.eq_def] at closes
    dsimp only at closes
    rw [if_neg other, if_neg noQuote, if_pos rfl] at closes
    cases back with
    | nil => cases closes
    | cons c back =>
      have past := lt_quotedLength? closes
      rw [List.length_singleton] at inside
      omega
  | case5 n d cs other noQuote ih =>
    rw [List.cons_append, List.cons_append, quotedLength?.eq_def] at closes ⊢
    dsimp only at closes ⊢
    rw [if_neg other, if_neg noQuote, if_pos rfl] at closes ⊢
    rw [List.length_cons, List.length_cons] at inside
    exact ih closes (by omega)
  | case6 n c cs other noQuote noEscape ih =>
    rw [List.cons_append, quotedLength?.eq_def] at closes ⊢
    dsimp only at closes ⊢
    rw [if_neg other, if_neg noQuote, if_neg noEscape] at closes ⊢
    rw [List.length_cons] at inside
    exact ih closes (by omega)

/-- A string that is closed in a text. -/
theorem quotedLength?_of_closed {quote : Char} {n length : Nat} {cs : List Char}
    (closes : quotedLength? quote n cs = some length) (rest : List Char) :
    quotedLength? quote n (cs ++ rest) = some length := by
  refine @quotedLength?_within quote n length cs [] ?_ (quotedLength?_le closes) rest
  rwa [List.append_nil]

theorem lt_regexLength? {inClass : Bool} {n length : Nat} {cs : List Char}
    (closes : regexLength? inClass n cs = some length) : n < length := by
  fun_induction regexLength? inClass n cs with
  | case1 | case2 | case3 => cases closes
  | case4 _ _ _ _ _ ih => exact Nat.lt_trans (by omega) (ih closes)
  | case5 _ _ _ _ _ ih | case6 _ _ _ _ _ _ ih | case8 _ _ _ _ _ _ _ _ _ ih =>
    exact Nat.lt_trans (Nat.lt_add_one _) (ih closes)
  | case7 =>
    cases closes
    exact Nat.lt_add_one _

/-- A regular expression that is closed in the front of a text. -/
theorem regexLength?_within {inClass : Bool} {n length : Nat} {front back : List Char}
    (closes : regexLength? inClass n (front ++ back) = some length) (inside : length ≤ n + front.length)
    (rest : List Char) : regexLength? inClass n (front ++ rest) = some length := by
  fun_induction regexLength? inClass n front with
  | case1 inClass n =>
    have past := lt_regexLength? closes
    exact absurd inside (Nat.not_le_of_lt past)
  | case2 inClass n cs =>
    rw [List.cons_append, regexLength?.eq_def] at closes
    cases closes
  | case3 inClass n noEnd =>
    rw [List.cons_append, regexLength?.eq_def] at closes
    dsimp only at closes
    rw [if_neg noEnd, if_pos rfl] at closes
    cases back with
    | nil => cases closes
    | cons c back =>
      have past := lt_regexLength? closes
      rw [List.length_singleton] at inside
      omega
  | case4 inClass n d cs noEnd ih =>
    rw [List.cons_append, List.cons_append, regexLength?.eq_def] at closes ⊢
    dsimp only at closes ⊢
    rw [if_neg noEnd, if_pos rfl] at closes ⊢
    rw [List.length_cons, List.length_cons] at inside
    exact ih closes (by omega)
  | case5 inClass n cs noEnd noEscape ih =>
    rw [List.cons_append, regexLength?.eq_def] at closes ⊢
    dsimp only at closes ⊢
    rw [if_neg noEnd, if_neg noEscape, if_pos rfl] at closes ⊢
    rw [List.length_cons] at inside
    exact ih closes (by omega)
  | case6 inClass n cs noEnd noEscape noOpen ih =>
    rw [List.cons_append, regexLength?.eq_def] at closes ⊢
    dsimp only at closes ⊢
    rw [if_neg noEnd, if_neg noEscape, if_neg noOpen, if_pos rfl] at closes ⊢
    rw [List.length_cons] at inside
    exact ih closes (by omega)
  | case7 inClass n c cs noEnd noEscape noOpen noClose slash =>
    rw [List.cons_append, regexLength?.eq_def] at closes ⊢
    dsimp only at closes ⊢
    rwa [if_neg noEnd, if_neg noEscape, if_neg noOpen, if_neg noClose, if_pos slash] at closes ⊢
  | case8 inClass n c cs noEnd noEscape noOpen noClose noSlash ih =>
    rw [List.cons_append, regexLength?.eq_def] at closes ⊢
    dsimp only at closes ⊢
    rw [if_neg noEnd, if_neg noEscape, if_neg noOpen, if_neg noClose, if_neg noSlash] at closes ⊢
    rw [List.length_cons] at inside
    exact ih closes (by omega)

/-- A regular expression that is closed in a text. -/
theorem regexLength?_of_closed {inClass : Bool} {n length : Nat} {cs : List Char}
    (closes : regexLength? inClass n cs = some length) (rest : List Char) :
    regexLength? inClass n (cs ++ rest) = some length := by
  refine @regexLength?_within inClass n length cs [] ?_ (regexLength?_le closes) rest
  rwa [List.append_nil]

/-- A comment that is closed in the front of a text. -/
theorem blockLength?_within {n length : Nat} {front back : List Char}
    (closes : blockLength? n (front ++ back) = some length) (inside : length ≤ n + front.length)
    (rest : List Char) : blockLength? n (front ++ rest) = some length := by
  have past : n + 2 ≤ length := by
    obtain ⟨body, behind, -, size, -⟩ := blockLength?_spec closes
    omega
  fun_induction blockLength? n front with
  | case1 n cs => exact closes
  | case2 n c cs open_ ih =>
    cases cs with
    | nil =>
      rw [List.length_singleton] at inside
      omega
    | cons d cs =>
      have goesOn (rest : List Char) : blockLength? n (c :: d :: cs ++ rest) =
          blockLength? (n + 1) (d :: cs ++ rest) := by
        refine blockLength?.eq_2 n c _ fun more star same => ?_
        exact open_ cs star (by rw [(List.cons.inj same).1])
      rw [goesOn] at closes ⊢
      obtain ⟨body, behind, -, size, -⟩ := blockLength?_spec closes
      rw [List.length_cons] at inside
      exact ih closes (by omega) (by omega)
  | case3 n =>
    rw [List.length_nil] at inside
    omega

/-- A comment that is closed in a text. -/
theorem blockLength?_of_closed {n length : Nat} {cs : List Char} (closes : blockLength? n cs = some length)
    (rest : List Char) : blockLength? n (cs ++ rest) = some length := by
  obtain ⟨body, behind, same, size, -⟩ := blockLength?_spec closes
  refine @blockLength?_within n length cs [] ?_ ?_ rest
  · rwa [List.append_nil]
  · rw [size, same]
    simp

/-- The count of a comment may start anywhere. -/
theorem blockLength?_succ (n : Nat) (cs : List Char) :
    blockLength? (n + 1) cs = (blockLength? n cs).map (· + 1) := by
  fun_induction blockLength? n cs with
  | case1 => rw [blockLength?]; rfl
  | case2 n c cs open_ ih => rw [blockLength?, ih]; exact open_
  | case3 => rfl

/-- A line that ends in the front of a text. -/
theorem lineLength_within {front back : List Char} (ends : lineLength (front ++ back) < front.length)
    (rest : List Char) : lineLength (front ++ rest) = lineLength (front ++ back) := by
  have short (rest : List Char) : lineLength front < front.length →
      lineLength (front ++ rest) = lineLength front := by
    intro short
    unfold lineLength at short ⊢
    rw [List.takeWhile_append, if_neg (Nat.ne_of_lt short)]
  have less : lineLength front < front.length := by
    refine Nat.lt_of_le_of_lt ?_ ends
    unfold lineLength
    rw [List.takeWhile_append]
    split
    · rw [List.length_append]
      omega
    · exact Nat.le_refl _
  rw [short rest less, short back less]

/-- A line that ends in a text. -/
theorem lineLength_append {cs : List Char} (ends : lineLength cs < cs.length) (rest : List Char) :
    lineLength (cs ++ rest) = lineLength cs := by
  have same := @lineLength_within cs [] (by rwa [List.append_nil]) rest
  rwa [List.append_nil] at same

/-- A line that ends where a text goes on. -/
theorem lineLength_append_lineFeed (cs rest : List Char) :
    lineLength (cs ++ '\n' :: rest) = lineLength cs := by
  unfold lineLength
  rw [List.takeWhile_append]
  split
  case isTrue whole => rw [List.takeWhile_cons_of_neg (by decide), List.append_nil, whole]
  case isFalse => rfl

theorem lineLength_le (cs : List Char) : lineLength cs ≤ cs.length :=
  (List.takeWhile_prefix _).length_le

theorem head?_append_of_lt {n : Nat} {cs : List Char} (less : n < cs.length) (rest : List Char) :
    (cs ++ rest).head? = cs.head? :=
  List.head?_append_of_ne_nil cs (by rintro rfl; exact absurd less (Nat.not_lt_zero n))

mutual

/-- A template literal that ends in the front of a text. -/
theorem template_within {start pos : Nat} {holes : List Hole} {front back : List Char}
    {found : Nat × List Hole} (done : template start pos holes (front ++ back) = .ok found)
    (inside : found.1 ≤ pos + front.length) (rest : List Char) :
    template start pos holes (front ++ rest) = .ok found := by
  have past := (template_spec done).1
  cases front with
  | nil => exact absurd inside (Nat.not_le_of_lt past)
  | cons c cs =>
    rw [List.length_cons] at inside
    rw [List.cons_append] at done ⊢
    rw [template] at done ⊢
    split at done
    case isTrue mark =>
      cases done
      rw [if_pos mark]
    case isFalse noMark =>
    rw [if_neg noMark]
    split at done
    case isTrue escape =>
      have less := (template_spec done).1
      rw [List.drop_append_of_le_length (by omega)] at done
      rw [if_pos escape, List.drop_append_of_le_length (by omega)]
      exact template_within done (by rw [List.length_drop]; omega) rest
    case isFalse noEscape =>
    rw [if_neg noEscape]
    split at done
    case isTrue opens =>
      obtain ⟨close, closes, done⟩ := bind_eq_ok.mp done
      have less := (template_spec done).1
      obtain ⟨le, -⟩ := substitution_spec closes
      have some : 1 ≤ cs.length := by omega
      rw [head?_append_of_lt some] at opens
      rw [List.drop_append_of_le_length some] at closes done
      rw [head?_append_of_lt some, if_pos opens, List.drop_append_of_le_length some]
      have size : (cs.drop 1).length = cs.length - 1 := List.length_drop
      refine bind_eq_ok.mpr ⟨close, substitution_within closes (by omega) rest, ?_⟩
      dsimp only at done ⊢
      rw [List.take_append_of_le_length (by omega), List.drop_append_of_le_length (by omega)] at done
      rw [List.take_append_of_le_length (by omega), List.drop_append_of_le_length (by omega)]
      exact template_within done (by rw [List.length_drop]; omega) rest
    case isFalse noOpens =>
    have less := (template_spec done).1
    have some : 0 < cs.length := by omega
    rw [head?_append_of_lt some] at noOpens
    rw [head?_append_of_lt some, if_neg noOpens]
    exact template_within done (by omega) rest
termination_by front.length

/-- A substitution that is closed in the front of a text. -/
theorem substitution_within {start pos depth close : Nat} {front back : List Char}
    (done : substitution start pos depth (front ++ back) = .ok close)
    (inside : close < pos + front.length) (rest : List Char) :
    substitution start pos depth (front ++ rest) = .ok close := by
  have past := (substitution_spec done).1
  cases front with
  | nil => exact absurd inside (Nat.not_lt_of_le past)
  | cons c cs =>
    rw [List.length_cons] at inside
    -- What goes on behind something of this length in the front goes on in the front.
    have further {n depth : Nat} (closes : substitution start (pos + 1 + n) depth ((cs ++ back).drop n) =
        .ok close) : n < cs.length ∧
          substitution start (pos + 1 + n) depth ((cs ++ rest).drop n) = .ok close := by
      have le := (substitution_spec closes).1
      have less : n < cs.length := by omega
      rw [List.drop_append_of_le_length (Nat.le_of_lt less)] at closes ⊢
      exact ⟨less, substitution_within closes (by rw [List.length_drop]; omega) rest⟩
    rw [List.cons_append] at done ⊢
    unfold substitution at done ⊢
    dsimp only at done ⊢
    split at done
    case isTrue opens =>
      rw [if_pos opens]
      exact (further (n := 0) done).2
    case isFalse noOpens =>
    rw [if_neg noOpens]
    split at done
    case isTrue closes =>
      rw [if_pos closes]
      cases depth with
      | zero => exact done
      | succ outer => exact (further (n := 0) done).2
    case isFalse noCloses =>
    rw [if_neg noCloses]
    split at done
    case isTrue quote =>
      rw [if_pos quote]
      split at done
      case h_1 => cases done
      case h_2 n found =>
        obtain ⟨less, goesOn⟩ := further done
        rw [quotedLength?_within found (by omega) rest]
        exact goesOn
    case isFalse noQuote =>
    rw [if_neg noQuote]
    split at done
    case isTrue mark =>
      obtain ⟨⟨stop, holes⟩, ends, done⟩ := bind_eq_ok.mp done
      obtain ⟨after, -, -⟩ := template_spec ends
      have place : stop = pos + 1 + (stop - (pos + 1)) := by omega
      dsimp only at done
      rw [place, Nat.add_sub_cancel_left] at done
      obtain ⟨less, goesOn⟩ := further done
      rw [if_pos mark]
      refine bind_eq_ok.mpr ⟨(stop, holes), template_within ends (by dsimp only; omega) rest, ?_⟩
      dsimp only
      rw [place, Nat.add_sub_cancel_left]
      exact goesOn
    case isFalse noMark =>
    rw [if_neg noMark]
    split at done
    case isTrue line =>
      obtain ⟨less, goesOn⟩ := further done
      rw [head?_append_of_lt less] at line
      rw [head?_append_of_lt less, if_pos line, lineLength_within less]
      exact goesOn
    case isFalse noLine =>
    split at done
    case isTrue block =>
      obtain ⟨less, goesOn⟩ := further done
      rw [head?_append_of_lt less] at noLine block
      rw [head?_append_of_lt less, if_neg noLine, if_pos block]
      rw [List.drop_append_of_le_length (by omega)] at less goesOn
      rw [List.drop_append_of_le_length (by omega)]
      cases found : blockLength? 0 (cs.drop 1 ++ back) with
      | none =>
        rw [found, Option.getD_none, List.length_append] at less
        omega
      | some n =>
        rw [found, Option.getD_some] at less goesOn
        rw [blockLength?_within found (by rw [List.length_drop]; omega) rest, Option.getD_some]
        exact goesOn
    case isFalse noBlock =>
      obtain ⟨less, goesOn⟩ := further (n := 0) done
      rw [head?_append_of_lt less] at noLine noBlock
      rw [head?_append_of_lt less, if_neg noLine, if_neg noBlock]
      exact goesOn
termination_by front.length

end

/-- A template literal is the same in a text that goes on. -/
theorem template_append {start pos : Nat} {holes : List Hole} {cs : List Char} {found : Nat × List Hole}
    (done : template start pos holes cs = .ok found) (rest : List Char) :
    template start pos holes (cs ++ rest) = .ok found := by
  refine @template_within start pos holes cs [] found ?_ (template_spec done).2.1 rest
  rwa [List.append_nil]

end ModuleLinker.Lexeme
