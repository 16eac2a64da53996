import ModuleLinker.Proofs.Erase.Readable
import ModuleLinker.Proofs.Erase.Signatures

/-!
# Texts with code written into them

A text whose stretches are overwritten or stay, and in which code is written behind some of them
(`Segment`). Carrying out its edits (`changes`) leaves the text that one expects (`revised`). Where a
walk through a readable text ends with certain edits, erasing the text carries these edits out
(`erase_of_walk`).
-/

set_option autoImplicit false

namespace ModuleLinker

open Erase

/-! ## Segments -/

/-- Parts of a text, and the code that is written between them and some symbols that stay. -/
structure Plan where
  /-- The parts. -/
  parts : List Part
  /-- The code; none where it is empty. -/
  code : String
  /-- The symbols behind the code. -/
  last : List Symbol
  deriving DecidableEq

/-- The symbols of a plan. -/
def Plan.symbols (plan : Plan) : List Symbol := allSymbols plan.parts ++ plan.last

/-- Whether code is only written between symbols. -/
def Plan.IsSound (plan : Plan) : Prop := plan.code ≠ "" → allSymbols plan.parts ≠ [] ∧ plan.last ≠ []

/-- Stretches of a text, and the code that is written between them and some symbols that stay. -/
structure Segment where
  /-- The stretches. -/
  stretches : List Stretch
  /-- The code; none where it is empty. -/
  code : String
  /-- The symbols behind the code with the blanks in front of them. -/
  last : List Spaced

/-- The plan that a segment is without blanks. -/
def Segment.plan (segment : Segment) : Plan :=
  ⟨segment.stretches.map Stretch.part, segment.code, segment.last.map Spaced.symbol⟩

/-- The symbols of a segment with the blanks in front of them. -/
def Segment.pieces (segment : Segment) : List Spaced := allPieces segment.stretches ++ segment.last

/-- Whether the stretches of a segment are on one line. -/
def Segment.IsLine (segment : Segment) : Prop :=
  ∀ piece ∈ (allPieces segment.stretches).tail, piece.gap.any Text.isLineEnd = false

/-- The symbols of segments with the blanks in front of them. -/
def segmentPieces (segments : List Segment) : List Spaced := segments.flatMap Segment.pieces

theorem segmentPieces_cons (segment : Segment) (segments : List Segment) :
    segmentPieces (segment :: segments) =
      allPieces segment.stretches ++ (segment.last ++ segmentPieces segments) :=
  List.append_assoc ..

/-- The text that is left of segments when their edits have been carried out. -/
def revised : List Segment → List Char → List Char
  | [], rest => rest
  | segment :: segments, rest =>
    remain segment.stretches (segment.code.toList ++ spell segment.last (revised segments rest))

/-- The edit that writes code at an offset, where there is any code. -/
def insertion (pos : Nat) (code : String) : List Edit :=
  if code = "" then [] else [⟨pos, pos, some code⟩]

/-- The edits of segments of a text that lies at an offset. -/
def changes (pos : Nat) : List Segment → List Edit
  | [] => []
  | segment :: segments =>
    let stop := pos + (spell (allPieces segment.stretches) []).length
    blanks pos segment.stretches ++
      (insertion stop segment.code ++ changes (stop + (spell segment.last []).length) segments)

theorem start_of_mem_insertion {pos : Nat} {code : String} {e : Edit} (mem : e ∈ insertion pos code) :
    e.start = pos := by
  unfold insertion at mem
  split at mem
  · cases mem
  · rw [List.mem_singleton.mp mem]

theorem le_of_mem_changes {pos : Nat} {segments : List Segment} {e : Edit}
    (mem : e ∈ changes pos segments) : pos ≤ e.start := by
  induction segments generalizing pos with
  | nil => cases mem
  | cons segment segments ih =>
    rcases List.mem_append.mp mem with own | mem
    · exact le_of_mem_blanks own
    rcases List.mem_append.mp mem with own | rest
    · rw [start_of_mem_insertion own]
      exact Nat.le_add_right ..
    · have le := ih rest
      omega

/-- The code that is written at an offset stands there. -/
theorem applyFrom_insertion (pos : Nat) (code : String) (cs : List Char) (later : List Edit) :
    Edits.applyFrom pos cs (insertion pos code ++ later) =
      code.toList ++ Edits.applyFrom pos cs later := by
  unfold insertion
  split
  case isTrue none =>
    rw [none]
    rfl
  case isFalse => simp [Edits.applyFrom, Edit.apply]

/-- The edits of segments are in the order of the text. -/
theorem pairwise_changes (pos : Nat) (segments : List Segment) :
    (changes pos segments).Pairwise fun a b => a.start ≤ b.start := by
  induction segments generalizing pos with
  | nil => exact .nil
  | cons segment segments ih =>
    let stop := pos + (spell (allPieces segment.stretches) []).length
    have inserted : (insertion stop segment.code).Pairwise fun a b => a.start ≤ b.start := by
      unfold insertion
      split
      · exact .nil
      · exact List.pairwise_singleton ..
    have behind {e : Edit} (later : e ∈ changes (stop + (spell segment.last []).length) segments) :
        stop ≤ e.start := (Nat.le_add_right ..).trans (le_of_mem_changes later)
    rw [changes, List.pairwise_append, List.pairwise_append]
    refine ⟨pairwise_blanks pos segment.stretches, ⟨inserted, ih _, ?_⟩, ?_⟩
    · intro a own b later
      rw [start_of_mem_insertion own]
      exact behind later
    · intro a own b later
      have le : a.start ≤ stop := (stop_le_of_mem_blanks own).1.trans (stop_le_of_mem_blanks own).2
      rcases List.mem_append.mp later with code | later
      · rwa [start_of_mem_insertion code]
      · exact le.trans (behind later)

/-- The edits of segments leave what one expects. -/
theorem applyTo_changes (segments : List Segment) (last : List Char) :
    Edits.applyTo (changes 0 segments).reverse (spell (segmentPieces segments) last) =
      revised segments last := by
  have applied (pos : Nat) : Edits.applyFrom pos (spell (segmentPieces segments) last)
      (changes pos segments) = revised segments last := by
    induction segments generalizing pos with
    | nil => rfl
    | cons segment segments ih =>
      rw [segmentPieces_cons, spell_append, spell_append, spell_eq_append segment.last, changes]
      set stop := pos + (spell (allPieces segment.stretches) []).length with stop_eq
      have later : ∀ e ∈ changes (stop + (spell segment.last []).length) segments,
          stop + (spell segment.last []).length ≤ e.start := fun e => le_of_mem_changes
      have behind : ∀ e ∈ insertion stop segment.code ++
          changes (stop + (spell segment.last []).length) segments, stop ≤ e.start :=
        List.forall_mem_append.mpr ⟨fun e mem => (start_of_mem_insertion mem).ge,
          fun e mem => (Nat.le_add_right ..).trans (later e mem)⟩
      rw [applyFrom_blanks_append pos segment.stretches _ behind, ← stop_eq, applyFrom_insertion,
        applyFrom_append_of_le later, ih, ← spell_eq_append, revised]
  rw [Edits.applyTo, Edits.inOrder_reverse (pairwise_changes 0 segments), applied]

/-! ## The edits of plans -/

namespace Erase.Program

variable {p : Program}

/-- Whether symbols stand from a position on, on the line of the first one. -/
def Line (p : Program) (i : Nat) : List Symbol → Prop
  | [] => True
  | s :: ss => p.Has i s ∧ p.Reads (i + 1) ss

theorem Reads.line {i : Nat} {ss : List Symbol} (reads : p.Reads i ss) : p.Line i ss := by
  cases ss with
  | nil => trivial
  | cons s ss => exact ⟨reads.1.has, reads.2⟩

theorem Line.hasAll {i : Nat} {ss : List Symbol} (line : p.Line i ss) : p.HasAll i ss := by
  cases ss with
  | nil => trivial
  | cons s ss => exact ⟨line.1, line.2.hasAll⟩

theorem line_append {i : Nat} {ss ts : List Symbol} (some : ss ≠ []) :
    p.Line i (ss ++ ts) ↔ p.Line i ss ∧ p.Reads (i + ss.length) ts := by
  cases ss with
  | nil => exact absurd rfl some
  | cons s ss =>
    have place : i + (s :: ss).length = i + 1 + ss.length := by
      rw [List.length_cons]
      omega
    rw [List.cons_append, Line, Line, reads_append, place, and_assoc]

theorem Line.right {i : Nat} {ss ts : List Symbol} (line : p.Line i (ss ++ ts)) :
    p.Line (i + ss.length) ts := by
  by_cases some : ss = []
  · subst some
    exact line
  · exact ((line_append some).mp line).2.line

/-- Whether plans stand one after the other from a position on, each on one line up to its code. -/
def Follow (p : Program) : Nat → List Plan → Prop
  | _, [] => True
  | i, plan :: plans => p.Line i (allSymbols plan.parts) ∧
    p.HasAll (i + (allSymbols plan.parts).length) plan.last ∧ Follow p (i + plan.symbols.length) plans

theorem follow_of_reads {i : Nat} {plans : List Plan} (reads : p.Reads i (plans.flatMap Plan.symbols)) :
    p.Follow i plans := by
  induction plans generalizing i with
  | nil => trivial
  | cons plan plans ih =>
    obtain ⟨own, rest⟩ := reads_append.mp reads
    obtain ⟨parts, last⟩ := reads_append.mp own
    exact ⟨parts.line, last.hasAll, ih rest⟩

/-- The offset behind a token. -/
def stop (p : Program) (i : Nat) : Nat := (p.tokens[i]?.map Token.stop).getD 0

/-- The edits of plans that stand one after the other from a position on. -/
def changed (p : Program) : Nat → List Plan → Edits → Edits
  | _, [], edits => edits
  | i, plan :: plans, edits =>
    changed p (i + plan.symbols.length) plans
      (insertion (p.stop (i + (allSymbols plan.parts).length - 1)) plan.code ++
        p.erased i plan.parts edits)

/-- The edits of a plan without code are those of its parts. -/
theorem changed_parts (i : Nat) (parts : List Part) (last : List Symbol) (edits : Edits) :
    p.changed i [⟨parts, "", last⟩] edits = p.erased i parts edits := rfl

theorem follow_append {i : Nat} {front back : List Plan} : p.Follow i (front ++ back) ↔
    p.Follow i front ∧ p.Follow (i + (front.flatMap Plan.symbols).length) back := by
  induction front generalizing i with
  | nil => simp [Follow]
  | cons plan front ih =>
    rw [List.cons_append, Follow, ih, Follow, List.flatMap_cons, List.length_append, ← Nat.add_assoc,
      and_assoc, and_assoc]

theorem changed_append (i : Nat) (front back : List Plan) (edits : Edits) :
    p.changed i (front ++ back) edits =
      p.changed (i + (front.flatMap Plan.symbols).length) back (p.changed i front edits) := by
  induction front generalizing i edits with
  | nil => rfl
  | cons plan front ih =>
    rw [List.cons_append, changed, ih, changed, List.flatMap_cons, List.length_append, ← Nat.add_assoc]

theorem Follow.hasAll {i : Nat} {plans : List Plan} (follow : p.Follow i plans) :
    p.HasAll i (plans.flatMap Plan.symbols) := by
  induction plans generalizing i with
  | nil => trivial
  | cons plan plans ih =>
    obtain ⟨line, last, rest⟩ := follow
    exact hasAll_append.mpr ⟨hasAll_append.mpr ⟨line.hasAll, last⟩, ih rest⟩

/-- The tokens of segments are those of the stretches of the first one, then those behind its code, then
those of the others. -/
theorem tokens_segments {front : List Token} {pos stop : Nat} {segment : Segment}
    {segments : List Segment} (place : pos + (spell (allPieces segment.stretches) []).length = stop)
    (whole : p.tokens.toList = front ++ tokensOf pos (segmentPieces (segment :: segments))) :
    p.tokens.toList = front ++ (tokensOf pos (allPieces segment.stretches) ++
      (tokensOf stop segment.last ++
        tokensOf (stop + (spell segment.last []).length) (segmentPieces segments))) := by
  rw [whole, segmentPieces_cons, tokensOf_append, tokensOf_append, place]

theorem allSymbols_plan (segment : Segment) :
    allSymbols segment.plan.parts = (allPieces segment.stretches).map Spaced.symbol :=
  allSymbols_map_part segment.stretches

theorem length_plan (segment : Segment) :
    segment.plan.symbols.length = (allPieces segment.stretches).length + segment.last.length := by
  rw [Plan.symbols, List.length_append, allSymbols_plan, List.length_map, Segment.plan, List.length_map]

/-- The plans of segments follow each other in their tokens. -/
theorem follow_of_tokens {front : List Token} {pos : Nat} {segments : List Segment}
    (lines : ∀ segment ∈ segments, segment.IsLine)
    (whole : p.tokens.toList = front ++ tokensOf pos (segmentPieces segments)) :
    p.Follow front.length (segments.map Segment.plan) := by
  induction segments generalizing front pos with
  | nil => trivial
  | cons segment segments ih =>
    rw [List.forall_mem_cons] at lines
    have whole := tokens_segments rfl whole
    have symbols := allSymbols_plan segment
    have line : p.Line front.length (allSymbols segment.plan.parts) := by
      have has := hasAll_of_tokens whole
      have reads := reads_tail_of_tokens whole lines.1
      rw [map_symbol_tokensOf, ← symbols] at has
      rw [← symbols] at reads
      cases same : allSymbols segment.plan.parts with
      | nil => trivial
      | cons s ss =>
        rw [same] at has reads
        exact ⟨has.1, reads⟩
    rw [← List.append_assoc] at whole
    have last := hasAll_of_tokens whole
    rw [map_symbol_tokensOf, List.length_append, length_tokensOf] at last
    rw [← List.append_assoc] at whole
    have rest := ih lines.2 whole
    rw [List.length_append, List.length_append, length_tokensOf, length_tokensOf] at rest
    have length : (allSymbols segment.plan.parts).length = (allPieces segment.stretches).length := by
      rw [symbols, List.length_map]
    refine ⟨line, ?_, ?_⟩
    · rwa [length]
    · rwa [length_plan, ← Nat.add_assoc]

/-- Code is written behind the last token of the stretches in front of it. -/
theorem stop_of_tokens {front back : List Token} {pos : Nat} {pieces : List Spaced}
    (some : pieces ≠ []) (whole : p.tokens.toList = front ++ (tokensOf pos pieces ++ back)) :
    p.stop (front.length + pieces.length - 1) = pos + (spell pieces []).length := by
  obtain ⟨z, last, stop⟩ := exists_getLast?_tokensOf pos some
  have positive := List.length_pos_iff.mpr some
  have place : front.length + pieces.length - 1 - front.length = pieces.length - 1 := by omega
  have found : p.tokens[front.length + pieces.length - 1]? = .some z := by
    rw [List.getLast?_eq_getElem?, length_tokensOf] at last
    rw [← Array.getElem?_toList, whole, List.getElem?_append_right (by omega), place,
      List.getElem?_append_left (by rw [length_tokensOf]; omega), last]
  rw [Program.stop, found, ← stop]
  rfl

/-- The edits of plans are those of their segments, which come behind the edits so far. -/
theorem changed_eq {front : List Token} {pos : Nat} {segments : List Segment}
    (sound : ∀ segment ∈ segments, segment.plan.IsSound)
    (whole : p.tokens.toList = front ++ tokensOf pos (segmentPieces segments))
    (solid : ∀ piece ∈ segmentPieces segments, 0 < piece.symbol.text.length) {edits : Edits}
    (before : ∀ e ∈ edits, e.start < pos) :
    p.changed front.length (segments.map Segment.plan) edits =
      (changes pos segments).reverse ++ edits := by
  induction segments generalizing front pos edits with
  | nil => rfl
  | cons segment segments ih =>
    rw [List.forall_mem_cons] at sound
    rw [segmentPieces_cons, List.forall_mem_append, List.forall_mem_append] at solid
    obtain ⟨solid, lastSolid, restSolid⟩ := solid
    have whole := tokens_segments rfl whole
    rw [changes]
    set stop := pos + (spell (allPieces segment.stretches) []).length with stop_eq
    have erased : p.erased front.length segment.plan.parts edits =
        (blanks pos segment.stretches).reverse ++ edits := edits_eraseParts whole solid before
    have inserted : insertion (p.stop (front.length + (allSymbols segment.plan.parts).length - 1))
        segment.plan.code = insertion stop segment.code := by
      by_cases none : segment.code = ""
      · simp [insertion, Segment.plan, none]
      · have some := (sound.1 none).1
        rw [allSymbols_plan, ne_eq, List.map_eq_nil_iff] at some
        rw [allSymbols_plan, List.length_map, stop_of_tokens some whole]
        rfl
    have place : front.length + segment.plan.symbols.length =
        (front ++ tokensOf pos (allPieces segment.stretches) ++ tokensOf stop segment.last).length := by
      rw [length_plan, List.length_append, List.length_append, length_tokensOf, length_tokensOf,
        Nat.add_assoc]
    have before' : ∀ e ∈ insertion stop segment.code ++ ((blanks pos segment.stretches).reverse ++ edits),
        e.start < stop + (spell segment.last []).length := by
      rw [List.forall_mem_append, List.forall_mem_append]
      refine ⟨fun e mem => ?_, fun e mem => ?_, fun e mem => ?_⟩
      · have code : segment.code ≠ "" := fun none => by simp [insertion, none] at mem
        have last := (sound.1 code).2
        rw [start_of_mem_insertion mem]
        cases same : segment.last with
        | nil => simp [Segment.plan, same] at last
        | cons piece pieces =>
          have some := lastSolid piece (same ▸ List.mem_cons_self)
          simp only [spell, List.length_append, String.length_toList]
          omega
      · have mem := List.mem_reverse.mp mem
        have less := start_lt_of_mem_blanks solid mem
        have le := (stop_le_of_mem_blanks mem).2
        omega
      · have less := before e mem
        omega
    have whole' : p.tokens.toList =
        (front ++ tokensOf pos (allPieces segment.stretches) ++ tokensOf stop segment.last) ++
          tokensOf (stop + (spell segment.last []).length) (segmentPieces segments) := by
      rw [whole]
      simp only [List.append_assoc]
    have reverse : (insertion stop segment.code).reverse = insertion stop segment.code := by
      unfold insertion
      split <;> rfl
    rw [List.map_cons, changed, erased, inserted, place, ih sound.2 whole' restSolid before',
      List.reverse_append, List.reverse_append, reverse]
    simp only [List.append_assoc]

/-! ## Overwriting as a whole -/

/-- An edit within another one takes the place of no edits but those within the other one. -/
theorem filter_edit {e outer : Edit} (within : e.within outer = true) (s : State) :
    (s.edit e).edits.filter (fun old => !old.within outer) =
      s.edits.filter fun old => !old.within outer := by
  have drops : (!e.within outer) = false := by rw [within, Bool.not_true]
  rw [State.edit, Edits.absorb, List.filter_cons, drops, if_neg Bool.false_ne_true, List.filter_filter]
  refine List.filter_congr fun old _ => ?_
  simp only [Edit.within, Bool.and_eq_true, decide_eq_true_eq] at within
  rw [Bool.eq_iff_iff]
  simp only [Edit.within, Bool.and_eq_true, Bool.not_eq_true', Bool.and_eq_false_iff,
    decide_eq_false_iff_not]
  omega

section Whole

variable (read : p.IsRead) {first last : Nat} {a z : Token} (atFirst : p.tokens[first]? = some a)
  (atLast : p.tokens[last]? = some z)
include read atFirst atLast

/-- Overwriting within a range takes the place of no edits but those within the range. -/
theorem filter_blank {i j : Nat} (le : first ≤ i) (le' : j ≤ last + 1) (s : State) :
    (p.blank s i j).edits.filter (fun old => !old.within ⟨a.start, z.stop, none⟩) =
      s.edits.filter fun old => !old.within ⟨a.start, z.stop, none⟩ := by
  unfold blank
  split
  case isFalse => rfl
  case isTrue less =>
    split
    case h_2 => rfl
    case h_1 a' z' found found' =>
      have starts := (read.stop_le_stop le atFirst found).1
      have stops := (read.stop_le_stop (by omega) found' atLast).2
      exact filter_edit (by simp [Edit.within, starts, stops]) s

/-- Overwriting parts within a range takes the place of no edits but those within the range. -/
theorem filter_erased {parts : List Part} {i : Nat} (le : first ≤ i)
    (le' : i + (allSymbols parts).length ≤ last + 1) (edits : Edits) :
    (p.erased i parts edits).filter (fun old => !old.within ⟨a.start, z.stop, none⟩) =
      edits.filter fun old => !old.within ⟨a.start, z.stop, none⟩ := by
  induction parts generalizing i edits with
  | nil => rfl
  | cons part parts ih =>
    rw [allSymbols_cons, List.length_append, ← Nat.add_assoc] at le'
    rw [erased_cons, ih (by omega) le']
    obtain ⟨erased, ss⟩ := part
    cases erased with
    | false => rfl
    | true => exact filter_blank read atFirst atLast le (by dsimp only at le' ⊢; omega) ⟨i, edits⟩

end Whole

/-- Overwriting what stands in front of the state's position leaves a single edit for it. -/
theorem blank_erased (read : p.IsRead) {parts : List Part} (some : allSymbols parts ≠ []) {i j : Nat}
    (has : p.HasAll i (allSymbols parts)) (place : i + (allSymbols parts).length = j) (edits : Edits) :
    p.blank ⟨j, p.erased i parts edits⟩ i j =
      ⟨j, p.erased i [⟨true, allSymbols parts⟩] edits⟩ := by
  have positive := List.length_pos_iff.mpr some
  obtain ⟨a, first⟩ : ∃ a, p.tokens[i]? = .some a := ⟨_, Array.getElem?_eq_getElem (has.lt_size some)⟩
  obtain ⟨z, last, -⟩ := has.last (List.getLast?_eq_getLast_of_ne_nil some)
  rw [place] at last
  have le : i + (allSymbols parts).length ≤ j - 1 + 1 := by omega
  have same := filter_erased read first last le_rfl le edits
  refine Eq.trans ?_ (blank_eq place edits)
  rw [blank, blank, if_pos (by omega), if_pos (by omega), first, last]
  exact congrArg (fun kept => State.mk j (⟨a.start, z.stop, none⟩ :: kept)) same

end Erase.Program

/-! ## Erasing a text -/

/-- Erasing a readable text carries out the edits with which every walk through it ends. -/
theorem erase_of_walk {pieces : List Spaced} {last : List Char} {edits : Edits}
    (readable : isReadable pieces last = true) (blank : isGap last = true)
    (nested : Nested (pieces.map Spaced.symbol))
    (walk : ∀ (p : Program) (hole : Hole → Except Failure Edits), p.source = spell pieces last →
      p.IsRead → p.tokens.toList = tokensOf 0 pieces → matchBrackets p.tokens = .ok p.partners →
      p.walk hole p.tokens.size nowhere ⟨0, []⟩ = .ok ⟨p.tokens.size, edits⟩) :
    erase (spell pieces last) = .ok (edits.applyTo (spell pieces last)) := by
  have nested' : Nested ((tokensOf 0 pieces).map Token.symbol) := by rwa [map_symbol_tokensOf]
  obtain ⟨p, read, tokens, matched⟩ := Program.exists_ofSource (scan_readable readable blank) nested'
  replace tokens : p.tokens.toList = tokensOf 0 pieces := congrArg Array.toList tokens
  obtain ⟨hole, -, editsOf_eq⟩ := Program.editsOf_eq_walk read
  have walked := walk p hole (Program.ofSource_eq_ok read).1 (Program.isRead_of_ofSource read) tokens
    matched
  have editsOf : editsOf (spell pieces last) = .ok edits := by
    rw [editsOf_eq, walked]
    rfl
  rw [erase, editsOf]
  rfl

/-- Erasing a readable text of segments leaves what one expects, where every walk through the tokens of
their plans ends with their edits. -/
theorem erase_segments {segments : List Segment} {last : List Char}
    (readable : isReadable (segmentPieces segments) last = true) (blank : isGap last = true)
    (lines : ∀ segment ∈ segments, segment.IsLine)
    (sound : ∀ segment ∈ segments, segment.plan.IsSound)
    (nested : Nested ((segments.map Segment.plan).flatMap Plan.symbols))
    (walk : ∀ (p : Program) (hole : Hole → Except Failure Edits), p.IsRead →
      matchBrackets p.tokens = .ok p.partners → p.Follow 0 (segments.map Segment.plan) →
      ((segments.map Segment.plan).flatMap Plan.symbols).length = p.tokens.size →
      p.walk hole p.tokens.size nowhere ⟨0, []⟩ =
        .ok ⟨p.tokens.size, p.changed 0 (segments.map Segment.plan) []⟩) :
    erase (spell (segmentPieces segments) last) = .ok (revised segments last) := by
  have symbols : (segmentPieces segments).map Spaced.symbol =
      (segments.map Segment.plan).flatMap Plan.symbols := by
    rw [segmentPieces, List.map_flatMap, List.flatMap_map]
    refine List.flatMap_congr fun segment _ => ?_
    rw [Segment.pieces, List.map_append, Plan.symbols, Program.allSymbols_plan]
    rfl
  rw [erase_of_walk readable blank (symbols ▸ nested) fun p hole _ read tokens matched => ?_,
    applyTo_changes]
  have follow : p.Follow ([] : List Token).length (segments.map Segment.plan) :=
    Program.follow_of_tokens lines tokens
  have size : ((segments.map Segment.plan).flatMap Plan.symbols).length = p.tokens.size := by
    rw [← symbols, List.length_map, ← Array.length_toList, tokens, length_tokensOf]
  have changed : p.changed ([] : List Token).length (segments.map Segment.plan) [] =
      (changes 0 segments).reverse ++ [] :=
    Program.changed_eq sound tokens (length_pos_of_isReadable readable) fun e mem => by cases mem
  rw [walk p hole read matched follow size, ← List.append_nil (changes 0 segments).reverse, ← changed]
  rfl

end ModuleLinker
