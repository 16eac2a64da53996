import ModuleLinker.Proofs.Erase.Positions
import ModuleLinker.Proofs.Erase.Stretches
import ModuleLinker.Proofs.Source.Faded
import ModuleLinker.Proofs.Source.Literal

/-!
# Scanning what edits leave of a text
-/

set_option autoImplicit false

namespace ModuleLinker

open Lexeme Text

namespace Erase

/-- Whether edits start and stop where tokens do, as far as they reach behind an offset. -/
def Edits.Span (es : List Edit) (pos : Nat) (tokens : List Token) : Prop :=
  ∀ e ∈ es, (pos ≤ e.start → ∃ t ∈ tokens, e.start = t.start) ∧
    (pos < e.stop → ∃ t ∈ tokens, e.stop = t.stop)

/-- Whether tokens follow each other behind an offset. -/
structure FollowFrom (pos : Nat) (tokens : List Token) : Prop where
  /-- They start behind the offset. -/
  behind : ∀ t ∈ tokens, pos ≤ t.start
  /-- They have characters. -/
  less : ∀ t ∈ tokens, t.start < t.stop
  /-- They start after the ones before them have stopped. -/
  inOrder : tokens.Pairwise fun t t' => t.stop ≤ t'.start

theorem FollowFrom.tail {pos : Nat} {t : Token} {ts : List Token} (follow : FollowFrom pos (t :: ts)) :
    FollowFrom t.stop ts := by
  obtain ⟨after, inOrder⟩ := List.pairwise_cons.mp follow.inOrder
  exact ⟨after, fun u mem => follow.less u (List.mem_cons_of_mem t mem), inOrder⟩

/-- Tokens that tile a text follow each other. -/
theorem FollowFrom.of_tiled {pos : Nat} {cs : List Char} {tokens : List Token}
    (tiled : Tiled pos cs tokens) : FollowFrom pos tokens := by
  induction tiled with
  | nil => exact ⟨fun _ mem => (by cases mem), fun _ mem => (by cases mem), .nil⟩
  | @cons pos fillers t cs rest ts fills start newline head tiled ih =>
    have less : t.start < t.stop := by
      rw [Token.stop]
      exact Nat.lt_add_of_pos_right head.length_pos
    refine ⟨List.forall_mem_cons.mpr ⟨by omega, fun u mem => ?_⟩,
      List.forall_mem_cons.mpr ⟨less, ih.less⟩, .cons ih.behind ih.inOrder⟩
    have after := ih.behind u mem
    omega

/-- The offsets of the tokens behind a token. -/
theorem FollowFrom.bounds {pos : Nat} {t : Token} {ts : List Token} (follow : FollowFrom pos (t :: ts)) :
    ∀ u ∈ t :: ts, t.start ≤ u.start ∧ t.stop ≤ u.stop ∧ (u = t ∨ t.stop ≤ u.start) := by
  have less := follow.less t List.mem_cons_self
  rw [List.forall_mem_cons]
  refine ⟨⟨Nat.le_refl _, Nat.le_refl _, .inl rfl⟩, fun u mem => ?_⟩
  have after := follow.tail.behind u mem
  have less' := follow.tail.less u mem
  exact ⟨by omega, by omega, .inr after⟩

namespace Edits

variable {es : List Edit} {pos : Nat}

theorem covered_iff {i : Nat} : covered es i = true ↔ ∃ e ∈ es, e.start ≤ i ∧ i < e.stop := by
  simp [covered, Edit.covers]

section Span

variable {t : Token} {ts : List Token}

theorem Span.tail (span : Span es pos (t :: ts)) (follow : FollowFrom pos (t :: ts)) :
    Span es t.stop ts := by
  have less := follow.less t List.mem_cons_self
  have behind := follow.behind t List.mem_cons_self
  intro e mem
  refine ⟨fun after => ?_, fun after => ?_⟩
  · obtain ⟨u, among, same⟩ := (span e mem).1 (by omega)
    rcases List.mem_cons.mp among with rfl | among
    · omega
    · exact ⟨u, among, same⟩
  · obtain ⟨u, among, same⟩ := (span e mem).2 (by omega)
    rcases List.mem_cons.mp among with rfl | among
    · omega
    · exact ⟨u, among, same⟩

/-- A token is covered as a whole or not at all. -/
theorem Span.token (span : Span es pos (t :: ts)) (follow : FollowFrom pos (t :: ts)) {i : Nat}
    (low : t.start ≤ i) (high : i < t.stop) : covered es i = covered es t.start := by
  have behind := follow.behind t List.mem_cons_self
  rw [Bool.eq_iff_iff, covered_iff, covered_iff]
  constructor
  · rintro ⟨e, mem, starts, stops⟩
    refine ⟨e, mem, ?_, by omega⟩
    by_contra after
    obtain ⟨u, among, same⟩ := (span e mem).1 (by omega)
    obtain ⟨-, -, rfl | later⟩ := follow.bounds u among <;> omega
  · rintro ⟨e, mem, starts, stops⟩
    obtain ⟨u, among, same⟩ := (span e mem).2 (by omega)
    have bounds := follow.bounds u among
    exact ⟨e, mem, by omega, by omega⟩

/-- Between two tokens nothing is covered, or everything with the token behind it. -/
theorem Span.gap (span : Span es pos (t :: ts)) (follow : FollowFrom pos (t :: ts)) :
    (∀ i, pos ≤ i → i < t.start → covered es i = false) ∨
      ∀ i, pos ≤ i → i < t.stop → covered es i = true := by
  by_cases some : ∃ i, pos ≤ i ∧ i < t.start ∧ covered es i = true
  · obtain ⟨i, low, high, under⟩ := some
    obtain ⟨e, mem, starts, stops⟩ := covered_iff.mp under
    have before : e.start < pos := by
      by_contra after
      obtain ⟨u, among, same⟩ := (span e mem).1 (by omega)
      have bounds := follow.bounds u among
      omega
    obtain ⟨u, among, same⟩ := (span e mem).2 (by omega)
    have bounds := follow.bounds u among
    exact .inr fun j low high => covered_iff.mpr ⟨e, mem, by omega, by omega⟩
  · refine .inl fun i low high => ?_
    rw [Bool.eq_false_iff]
    exact fun under => some ⟨i, low, high, under⟩

/-- Behind the last token nothing is covered. -/
theorem Span.nil (span : Span es pos []) {i : Nat} (behind : pos ≤ i) : covered es i = false := by
  rw [Bool.eq_false_iff, Ne, covered_iff]
  rintro ⟨e, mem, starts, stops⟩
  obtain ⟨u, among, -⟩ := (span e mem).2 (by omega)
  cases among

end Span

/-- What is left of a text fades. -/
theorem fades_overlay (es : List Edit) (offset : Nat) (cs : List Char) : Fades cs (overlay es offset cs) := by
  induction cs generalizing offset with
  | nil => exact .nil
  | cons c cs ih =>
    rw [← List.singleton_append, overlay_append]
    refine Fades.append ?_ (ih _)
    unfold overlay
    rw [List.mapIdx_cons, List.mapIdx_nil]
    refine .cons ?_ .nil
    split
    · exact (Edit.blankOut_eq c)
    · exact .inl rfl

end Edits

end Erase

open Erase

/-- Whether a token starts with a slash, so that it is read by the token before it. -/
def Token.startsWithSlash (t : Token) : Bool := t.text.toList.head? == some '/'

/-- A token without the mark of a line end before it. -/
def Token.unmarked (t : Token) : Token := { t with newlineBefore := false }

/-- Tokens that differ in the mark only have the same say in what a slash is. -/
theorem regexAllowedAfter_unmarked (t : Token) (newline : Bool) :
    regexAllowedAfter (some { t with newlineBefore := newline }) = regexAllowedAfter (some t) := rfl

section Scan

variable {es : List Edit}

/-- Where a text is not covered it stays. -/
theorem overlay_of_clear {pos : Nat} {cs : List Char}
    (clear : ∀ i, pos ≤ i → i < pos + cs.length → Edits.covered es i = false) :
    Edits.overlay es pos cs = cs :=
  Edits.overlay_eq_self fun i less => clear (pos + i) (Nat.le_add_right ..) (by omega)

/-- Where a text is covered only blanks are left. -/
theorem isGap_overlay {pos : Nat} {cs : List Char}
    (full : ∀ i, pos ≤ i → i < pos + cs.length → Edits.covered es i = true) :
    isGap (Edits.overlay es pos cs) = true := by
  rw [Edits.overlay_eq_blank fun i less => full (pos + i) (Nat.le_add_right ..) (by omega)]
  exact isGap_map_blankOut cs

/-- The token behind which a scan goes on is the first of those that it adds. -/
theorem exists_cons_of_scanFrom {done : Array Token} {t : Token} {pos : Nat} {cs : List Char}
    {ts : List Token} (scanned : scanFrom (done.push t) pos cs = .ok (done ++ ts.toArray)) :
    ∃ us, ts = t :: us := by
  obtain ⟨later, same, -⟩ := scanFrom_behind scanned
  refine ⟨later.toList, ?_⟩
  have lists := congrArg Array.toList same
  simpa using lists

/-- A number that starts with a point stays or goes as a whole. -/
theorem keepsNumber_overlay {pos : Nat} {cs : List Char} {done : Array Token} {ts : List Token}
    (scanned : scanFrom done pos cs = .ok (done ++ ts.toArray)) (follow : FollowFrom pos ts)
    (span : Edits.Span es pos ts) : KeepsNumber cs (Edits.overlay es pos cs) := by
  rintro d more rfl digit first
  have clear : Edits.covered es pos = false := by
    rw [Bool.eq_false_iff]
    intro under
    rw [Edits.overlay, List.mapIdx_cons, Nat.add_zero, if_pos under] at first
    cases first
  -- The number is the next token, and has two characters at least.
  have noGap : startsGap ('.' :: d :: more) = false := rfl
  rcases scanFrom_cases scanned with ⟨-, gap⟩ | ⟨t, gap, c, body, rest, parts, next, scanned⟩
  · cases gap.eq_nil (by rwa [List.append_nil]) rfl
  · rw [parts] at noGap
    obtain rfl : gap = [] := (next.passed _ (.refl _)).eq_nil noGap next.noGap
    obtain ⟨us, rfl⟩ : ∃ us, ts = t :: us := exists_cons_of_scanFrom scanned
    obtain ⟨rfl, more_eq⟩ := List.cons.inj parts
    have cut := next.cut
    rw [← more_eq] at cut
    have long := more_pos_of_point digit cut
    have start := next.start
    have stop := next.stop
    rw [List.length_cons] at stop
    dsimp only at long
    have stays : Edits.overlay es pos ['.', d] = ['.', d] := by
      refine overlay_of_clear fun i low high => ?_
      rw [List.length_cons, List.length_singleton] at high
      rw [List.length_nil, Nat.add_zero] at start
      rw [span.token follow (by omega) (by omega), start]
      exact clear
    refine ⟨Edits.overlay es (pos + 2) more, ?_⟩
    change Edits.overlay es pos (['.', d] ++ more) = _
    rw [Edits.overlay_append, stays]
    rfl

/-- The last of some tokens behind a token, or that token itself. -/
theorem getLast?_cons_or (t : Token) (mid : List Token) (before : Option Token) :
    (t :: mid).getLast?.or before = mid.getLast?.or (some t) := by
  rw [List.getLast?_cons]
  cases mid.getLast? <;> rfl

/-- Scanning what edits leave of a text gives the tokens that they leave. -/
theorem scanFrom_overlay {cs front : List Char} {pos start : Nat} {done kept : Array Token}
    {ts : List Token} (scanned : scanFrom done pos cs = .ok (done ++ ts.toArray))
    (follow : FollowFrom pos ts) (span : Edits.Span es pos ts)
    (slashes : ∀ mid t back, ts = mid ++ t :: back → t.startsWithSlash = true →
      Edits.covered es t.start = false →
      regexAllowedAfter ((mid.filter fun t => !Edits.covered es t.start).getLast?.or kept.back?) =
        regexAllowedAfter (mid.getLast?.or done.back?))
    (passed : IsPassed front (Edits.overlay es pos cs)) (place : start + front.length = pos) :
    ∃ new : List Token, scanFrom kept start (front ++ Edits.overlay es pos cs) = .ok (kept ++ new.toArray) ∧
      new.map Token.unmarked =
        (ts.filter fun t => !Edits.covered es t.start).map Token.unmarked := by
  rcases scanFrom_cases scanned with ⟨same, gap⟩ | ⟨t, gap, c, body, rest, parts, next, scanned⟩
  · have none : ts = [] := by
      have size := congrArg Array.size same
      simpa using size
    subst none
    have clear : Edits.overlay es pos cs = cs :=
      overlay_of_clear fun i low _ => span.nil low
    rw [clear] at passed ⊢
    refine ⟨[], ?_, rfl⟩
    have whole : IsPassed (front ++ cs) [] := by
      refine IsPassed.append ?_ gap
      rwa [List.append_nil]
    rw [scanFrom_of_isPassed whole]
    simp
  · obtain ⟨us, rfl⟩ : ∃ us, ts = t :: us := exists_cons_of_scanFrom scanned
    have rescanned : scanFrom (done.push t) t.stop rest = .ok (done.push t ++ us.toArray) := by
      rw [scanned]
      simp
    have shorter : rest.length < cs.length := by
      simp only [parts, List.length_append, List.length_cons]
      omega
    have start' := next.start
    have stop := next.stop
    have less := follow.less t List.mem_cons_self
    have split : Edits.overlay es pos cs = Edits.overlay es pos gap ++
        (Edits.overlay es t.start (c :: body) ++ Edits.overlay es t.stop rest) := by
      rw [parts, Edits.overlay_append, ← start', ← List.cons_append, Edits.overlay_append, ← stop]
    have behind : IsPassed (Edits.overlay es pos gap)
        (Edits.overlay es t.start (c :: body) ++ Edits.overlay es t.stop rest) := by
      rcases span.gap follow with clear | full
      · rw [@overlay_of_clear es pos gap fun i low high => clear i low (by omega)]
        refine next.passed _ ?_
        rw [stop, ← Edits.overlay_append]
        exact Edits.fades_overlay ..
      · exact .of_isGap (isGap_overlay fun i low high => full i low (by omega)) _
    rw [split] at passed ⊢
    cases under : Edits.covered es t.start with
    | true =>
      -- The token becomes part of the gap in front of the next one.
      have blank : isGap (Edits.overlay es t.start (c :: body)) = true :=
        isGap_overlay fun i low high => (span.token follow low (by omega)).trans under
      rw [← List.append_assoc] at passed
      have passed' := passed.append (behind.append (.of_isGap blank _))
      have place' : start + (front ++ Edits.overlay es pos gap ++
          Edits.overlay es t.start (c :: body)).length = t.stop := by
        simp only [List.length_append, Edits.length_overlay]
        omega
      rw [← List.append_assoc] at passed'
      obtain ⟨new, scanned', tokens⟩ := scanFrom_overlay rescanned follow.tail (span.tail follow)
        (fun mid u back parts slash stays => by
          have same := slashes (t :: mid) u back (congrArg (t :: ·) parts) slash stays
          rwa [List.filter_cons_of_neg (by simp [under]), getLast?_cons_or, ← Array.back?_push] at same)
        passed' place'
      refine ⟨new, ?_, ?_⟩
      · rw [← scanned', List.append_assoc, List.append_assoc]
      · rw [tokens, List.filter_cons_of_neg (by simp [under])]
    | false =>
      have clear : Edits.overlay es pos gap = gap := by
        rcases span.gap follow with clear | full
        · exact overlay_of_clear fun i low high => clear i low (by omega)
        · rw [full t.start (by omega) less] at under
          cases under
      have whole : Edits.overlay es t.start (c :: body) = c :: body :=
        overlay_of_clear fun i low high => (span.token follow low (by omega)).trans under
      rw [clear] at passed behind ⊢
      rw [whole] at passed behind ⊢
      have fades : Fades rest (Edits.overlay es t.stop rest) := Edits.fades_overlay ..
      have keeps := keepsNumber_overlay rescanned follow.tail (span.tail follow)
      have allowed : extent (regexAllowedAfter kept.back?) t.start c (body ++ rest) =
          extent (regexAllowedAfter done.back?) t.start c (body ++ rest) := by
        by_cases slash : c = '/'
        · have starts : t.startsWithSlash = true := by
            rw [Token.startsWithSlash, next.text, String.toList_ofList, slash]
            rfl
          rw [show regexAllowedAfter kept.back? = regexAllowedAfter done.back? from
            slashes [] t us rfl starts under]
        · exact extent_of_ne_slash slash ..
      have there : start + (front ++ gap).length = t.start := by
        rw [List.length_append]
        omega
      have cut := extent_fades fades keeps (allowed.trans next.cut) rfl
      rw [← there] at cut
      obtain ⟨newline, takes⟩ := exists_scanFrom_eq (passed.append behind)
        (startsGap_fades ((Fades.refl body).append fades) next.noGap) cut
      have text : t.start + 1 + body.length = t.stop := by
        rw [stop, List.length_cons]
        omega
      rw [there, text, ← next.text] at takes
      obtain ⟨new, scanned', tokens⟩ := @scanFrom_overlay rest [] t.stop t.stop (done.push t)
        (kept.push { t with newlineBefore := newline }) us rescanned follow.tail (span.tail follow)
        (fun mid u back parts slash stays => by
          have same := slashes (t :: mid) u back (congrArg (t :: ·) parts) slash stays
          rw [List.filter_cons_of_pos (by simp [under]), getLast?_cons_or, getLast?_cons_or] at same
          rw [Array.back?_push, Array.back?_push, ← same]
          cases (mid.filter fun t => !Edits.covered es t.start).getLast? <;> rfl)
        (.nil _) rfl
      refine ⟨{ t with newlineBefore := newline } :: new, ?_, ?_⟩
      · rw [List.nil_append] at scanned'
        rw [← List.append_assoc, List.cons_append, takes, scanned']
        simp
      · rw [List.filter_cons_of_pos (by simp [under]), List.map_cons, List.map_cons, tokens]
        rfl
termination_by cs.length
decreasing_by all_goals exact shorter

theorem interpreterLineLength_le (source : List Char) : interpreterLineLength source ≤ source.length := by
  unfold interpreterLineLength
  split
  case h_1 cs =>
    have le := lineLength_le cs
    simp only [List.length_cons]
    omega
  case h_2 => exact Nat.zero_le _

/-- The line of an interpreter stays one when what follows it fades. -/
theorem interpreterLineLength_fades {source new : List Char}
    (fades : Fades (source.drop (interpreterLineLength source)) new) :
    interpreterLineLength (source.take (interpreterLineLength source) ++ new) =
      interpreterLineLength source := by
  by_cases first : ['#', '!'] <+: source
  · obtain ⟨cs, rfl⟩ := first
    have size : interpreterLineLength (['#', '!'] ++ cs) = 2 + lineLength cs := rfl
    have line : Filler.IsLine (cs.take (lineLength cs)) new := by
      refine (isLine_take cs).fades ?_
      rwa [size, ← List.drop_drop] at fades
    have front : (['#', '!'] ++ cs).take (2 + lineLength cs) = '#' :: '!' :: cs.take (lineLength cs) := by
      rw [Nat.add_comm]
      rfl
    have length : (cs.take (lineLength cs)).length = lineLength cs := length_take_lineLength cs
    rw [size, front, List.cons_append, List.cons_append, interpreterLineLength,
      lineLength_of_isLine line, length]
  · have none := interpreterLineLength_eq_zero first
    rw [none, List.drop_zero] at fades
    rw [none, List.take_zero, List.nil_append]
    exact interpreterLineLength_eq_zero fun there => first (fades.isPrefix (by decide) there)

/-- Whether every slash that is kept of some tokens starts the same behind what is kept in front of it as
behind the token in front of it: a regular expression, or none. -/
def KeepsSlashes (keep : Token → Bool) (tokens : List Token) : Prop :=
  ∀ i < tokens.length, ∀ t ∈ tokens[i]?, t.startsWithSlash = true → keep t = true →
    regexAllowedAfter ((tokens.take i).filter keep).getLast? = regexAllowedAfter (tokens.take i).getLast?

instance (keep : Token → Bool) (tokens : List Token) : Decidable (KeepsSlashes keep tokens) :=
  inferInstanceAs (Decidable (∀ i < tokens.length, ∀ t ∈ tokens[i]?, t.startsWithSlash = true →
    keep t = true → regexAllowedAfter ((tokens.take i).filter keep).getLast? =
      regexAllowedAfter (tokens.take i).getLast?))

theorem KeepsSlashes.congr {keep keep' : Token → Bool} {tokens : List Token}
    (same : ∀ t ∈ tokens, keep t = keep' t) (slashes : KeepsSlashes keep tokens) :
    KeepsSlashes keep' tokens := by
  intro i less t here slash kept
  have filtered : (tokens.take i).filter keep' = (tokens.take i).filter keep :=
    List.filter_congr fun u mem => (same u (List.mem_of_mem_take mem)).symm
  rw [filtered]
  exact slashes i less t here slash ((same t (List.mem_of_getElem? here)).trans kept)

/-- Scanning what edits that start and stop with tokens leave of a text gives the tokens that they
leave, if the slashes among them start the same as before. -/
theorem scan_overlay {source : List Char} {tokens : Array Token} (scanned : scan source = .ok tokens)
    (span : Edits.Span es 0 tokens.toList)
    (slashes : KeepsSlashes (fun t => !Edits.covered es t.start) tokens.toList) :
    ∃ left : Array Token, scan (Edits.overlay es 0 source) = .ok left ∧
      left.toList.map Token.unmarked =
        (tokens.toList.filter fun t => !Edits.covered es t.start).map Token.unmarked := by
  have scanned' : scanFrom #[] (interpreterLineLength source)
      (source.drop (interpreterLineLength source)) = .ok (#[] ++ tokens.toList.toArray) := by
    rw [Array.toArray_toList, Array.empty_append]
    exact scanned
  have le := interpreterLineLength_le source
  obtain ⟨new, same, tiled⟩ := scanFrom_tiled scanned'
  have follow : FollowFrom (interpreterLineLength source) tokens.toList := by
    obtain rfl : tokens.toList = new := by simpa using same
    exact .of_tiled tiled
  have split : Edits.overlay es 0 source = source.take (interpreterLineLength source) ++
      Edits.overlay es (interpreterLineLength source) (source.drop (interpreterLineLength source)) := by
    have front : Edits.overlay es 0 (source.take (interpreterLineLength source)) =
        source.take (interpreterLineLength source) := by
      refine overlay_of_clear fun i _ less => ?_
      rw [Bool.eq_false_iff, Ne, Edits.covered_iff]
      rintro ⟨e, mem, starts, -⟩
      obtain ⟨t, among, start⟩ := (span e mem).1 (Nat.zero_le _)
      have behind := follow.behind t among
      rw [List.length_take] at less
      omega
    have parts := @Edits.overlay_append es 0 (source.take (interpreterLineLength source))
      (source.drop (interpreterLineLength source))
    rwa [List.take_append_drop, front, Nat.zero_add, List.length_take_of_le le] at parts
  have later : Edits.Span es (interpreterLineLength source) tokens.toList := fun e mem =>
    ⟨fun _ => (span e mem).1 (Nat.zero_le _), fun less => (span e mem).2 (Nat.zero_lt_of_lt less)⟩
  obtain ⟨left, rescanned, tokensLeft⟩ := @scanFrom_overlay es _ [] _ (interpreterLineLength source) #[] #[] _
    scanned' follow later (fun mid t back parts slash stays => by
      rw [Array.back?_empty, Option.or_none, Option.or_none]
      have same := slashes mid.length (by simp [parts]) t (by simp [parts]) slash (by simp [stays])
      rwa [parts, List.take_left] at same) (.nil _) rfl
  refine ⟨left.toArray, ?_, tokensLeft⟩
  rw [scan, split, interpreterLineLength_fades (Edits.fades_overlay ..),
    List.drop_left' (List.length_take_of_le le)]
  rwa [List.nil_append, Array.empty_append] at rescanned

end Scan

end ModuleLinker
