import Mathlib
import ModuleLinker.Proofs.Erase.Literal
import ModuleLinker.Proofs.Erase.References
import ModuleLinker.Proofs.Erase.TypeGrammar
import ModuleLinker.Proofs.Source.Ahead

/-!
# Annotated variables

In the declaration of a variable, an annotation that holds any type of the grammar is overwritten from
its colon to the last character of the type, and nothing else (`erase_annotated`). The tokens of the type
are those that the type has as a text of its own, further on, since a blank stands on both sides of it.
-/

set_option autoImplicit false

namespace ModuleLinker

open Erase Text ModuleLinker.Symbol

/-! ## The tokens of a declaration -/

/-- What stands in front of an annotation, with the colon. -/
def annotationFront : List Spaced := [⟨[], word "let"⟩, ⟨[' '], word "x"⟩, ⟨[], mark ":"⟩]

/-- What stands behind an annotation. -/
def annotationBack : List Spaced := [⟨[' '], mark "="⟩, ⟨[' '], ⟨.number, "0"⟩⟩, ⟨[], mark ";"⟩]

/-- The declaration of a variable with an annotation. -/
def annotated (type : List Char) : List Char := "let x: ".toList ++ (type ++ " = 0;".toList)

/-- The symbols of the declaration of a variable. -/
def annotatedSymbols (type : List Symbol) : List Symbol :=
  word "let" :: word "x" :: mark ":" :: (type ++ [mark "=", ⟨.number, "0"⟩, mark ";"])

/-- The tokens of a declaration in which a type of some length has these tokens as a text of its own. -/
def annotatedTokens (length : Nat) (tokens : Array Token) : Array Token :=
  (tokensOf 0 annotationFront).toArray ++ tokens.map (·.shifted 7) ++
    (tokensOf (7 + length) annotationBack).toArray

theorem isLegible_annotationFront (cs : List Char) : isLegible annotationFront (' ' :: cs) = true := by
  have legible : isLegible annotationFront [] = true := by decide +kernel
  exact Follows.isLegible (.inr rfl) legible

/-- A text on one line that has tokens names no interpreter. -/
theorem scanFrom_of_oneLine {cs : List Char} {tokens : Array Token} (scanned : scan cs = .ok tokens)
    (oneLine : ∀ c ∈ cs, isLineEnd c = false) (some : tokens ≠ #[]) :
    scanFrom #[] 0 cs = .ok tokens := by
  by_cases names : ['#', '!'] <+: cs
  · obtain ⟨line, rfl⟩ := names
    have whole : Lexeme.lineLength line = line.length := by
      refine congrArg List.length (List.takeWhile_eq_self_iff.mpr fun c mem => ?_)
      have inside := oneLine c (List.mem_append_right _ mem)
      simp only [isLineEnd, Bool.or_eq_false_iff, beq_eq_false_iff_ne] at inside
      simp [inside]
    have rest : (['#', '!'] ++ line).drop (interpreterLineLength (['#', '!'] ++ line)) = [] := by
      refine List.drop_eq_nil_iff.mpr (Nat.le_of_eq ?_)
      rw [List.length_append, ← whole, Nat.add_comm]
      exact Nat.add_comm ..
    rw [scan, rest, scanFrom_of_isGap rfl] at scanned
    cases scanned
    exact absurd rfl some
  · rwa [scan, interpreterLineLength_eq_zero names, List.drop_zero] at scanned

/-- The tokens of a declaration are those in front of the annotation, those of the type and those behind
it, with the type ending where its text does. -/
theorem scan_annotated {type : List Char} {tokens : Array Token} (scanned : scan type = .ok tokens)
    (oneLine : ∀ c ∈ type, isLineEnd c = false) (tight : ∃ t ∈ tokens.back?, t.stop = type.length) :
    scan (annotated type) = .ok (annotatedTokens type.length tokens) := by
  obtain ⟨last, found, stop⟩ := tight
  have some : tokens ≠ #[] := by
    rintro rfl
    cases found
  obtain ⟨more, same, behind⟩ := scanFrom_behind (scanFrom_of_oneLine scanned oneLine some)
  rw [Array.empty_append] at same
  subst same
  let front := (tokensOf 0 annotationFront).toArray
  have middle : scanFrom front 7 type = .ok (front ++ tokens.map (·.shifted 7)) := behind 7 front rfl
  have ends : ∃ t ∈ (front ++ tokens.map (·.shifted 7)).back?, t.stop = 7 + type.length := by
    refine ⟨last.shifted 7, ?_, ?_⟩
    · rw [Option.mem_def] at found ⊢
      rw [Array.back?_append, Array.back?_map, found]
      rfl
    · rw [← stop, Token.stop, Token.stop, Nat.add_comm 7]
      exact Nat.add_right_comm ..
  have further := scanFrom_ahead (.inl rfl) middle (fun t mem => by cases mem; decide) ends "= 0;".toList
  have legible : isLegible annotationBack [] = true := by decide +kernel
  have back : scanFrom (front ++ tokens.map (·.shifted 7)) (7 + type.length) (' ' :: "= 0;".toList) =
      .ok (front ++ tokens.map (·.shifted 7) ++ (tokensOf (7 + type.length) annotationBack).toArray) :=
    (scanFrom_spell legible ..).trans (scanFrom_of_isGap rfl ..)
  rw [scan, interpreterLineLength, List.drop_zero]
  · refine (scanFrom_spell (isLegible_annotationFront (type ++ " = 0;".toList)) ..).trans ?_
    rw [Array.empty_append]
    exact scanFrom_blank (further.trans back)
  · rintro cs same
    cases same

theorem map_symbol_annotatedTokens (length : Nat) (tokens : Array Token) :
    (annotatedTokens length tokens).toList.map Token.symbol =
      annotatedSymbols (tokens.toList.map Token.symbol) := by
  have same : Token.symbol ∘ (·.shifted 7) = Token.symbol := rfl
  simp only [annotatedTokens, Array.toList_append, Array.toList_map, List.map_append,
    map_symbol_tokensOf, List.map_map, same]
  rfl

theorem newlineBefore_annotatedTokens {tokens : Array Token} (line : ∀ t ∈ tokens, t.newlineBefore = false)
    (length : Nat) : ∀ t ∈ (annotatedTokens length tokens).toList, t.newlineBefore = false := by
  intro t mem
  simp only [annotatedTokens, Array.toList_append, List.mem_append, Array.toList_map] at mem
  rcases mem with (front | middle) | back
  · exact newlineBefore_tokensOf (by decide) t front
  · obtain ⟨u, mem, rfl⟩ := List.mem_map.mp middle
    exact line u (Array.mem_toList_iff.mp mem)
  · exact newlineBefore_tokensOf (by decide) t back

/-- The brackets of a declaration have partners if those of the type have. -/
theorem nested_annotatedSymbols {type : List Symbol} (nested : Nested type) :
    Nested (annotatedSymbols type) :=
  .cons rfl (.cons rfl (.cons (by decide) (nested.append
    (.cons (by decide) (.cons rfl (.plain (by decide)))))))

/-! ## The walk through a declaration -/

namespace Erase.Program

variable {p : Program} {hole : Hole → Except Failure Edits}

theorem step_let {i : Nat} (begins : p.Begins i) (has : p.Has i (word "let")) (w : Walker) (limit : Nat)
    (edits : Edits) : p.step w limit ⟨i, edits⟩ = p.variableDeclaration w i limit ⟨i, edits⟩ := by
  rw [step_eq_stepWord has, stepWord]
  dsimp only
  rw [begins.afterDot_eq, has.text_eq]
  rfl

/-- An annotation is overwritten from its colon to the end of its type. -/
theorem blankAnnotation_of_isTypeAt (matched : matchBrackets p.tokens = .ok p.partners) {i k : Nat}
    {ss : List Symbol} (isType : IsTypeAt .whole ss) (reads : p.Reads i (mark ":" :: ss))
    (place : i + 1 + ss.length = k) (ends : p.endsWhole k = true) (edits : Edits) :
    p.blankAnnotation ⟨i, edits⟩ = .ok (p.blankTo ⟨i, edits⟩ k) := by
  subst place
  have type := typeStop?_of_isTypeAt matched isType reads.2 ends
  unfold blankAnnotation
  dsimp only
  rw [reads.1.isPunct_eq, expectType_eq, type]
  rfl

/-- The declaration of a variable is walked through up to its semicolon, and its annotation goes. -/
theorem variableDeclaration_annotated (matched : matchBrackets p.tokens = .ok p.partners) {i k : Nat}
    {x n : String} {ss : List Symbol} (isType : IsTypeAt .whole ss)
    (reads : p.Reads (i + 1) (word x :: mark ":" :: (ss ++ [mark "=", ⟨.number, n⟩, mark ";"])))
    (place : i + 3 + ss.length = k) (edits : Edits) :
    p.variableDeclaration (p.walkerAt hole i) i p.tokens.size ⟨i, edits⟩ =
      .ok ⟨k + 2, (p.blank ⟨i + 2, edits⟩ (i + 2) k).edits⟩ := by
  obtain ⟨name, colon, rest⟩ := reads
  obtain ⟨type, value⟩ := reads_append.mp rest
  rw [place] at value
  obtain ⟨binds, bound⟩ := walkBinding_name name.has (p.walkerAt hole i) edits
  have ends : p.endsWhole k = true := value.1.endsWhole_of_mark (by decide)
  have annotation := blankAnnotation_of_isTypeAt matched isType ⟨colon, type⟩ place ends edits
  have walked := @walkValue_number p hole i k n (by omega) value.hasAll
    (p.blank ⟨i + 2, edits⟩ (i + 2) k).edits
  refine variableDeclaration_of_single binds ?_ value.2.2.1.has
  refine bind_eq_ok.mpr ⟨_, bound, bind_eq_ok.mpr ⟨_, ?_, walked⟩⟩
  rw [blankMarker_of_mark colon.has (by decide), annotation]
  rfl

/-- A walk through the declaration of a variable leaves the edit for its annotation. -/
theorem walk_annotated (matched : matchBrackets p.tokens = .ok p.partners) {x n : String}
    {ss : List Symbol} (isType : IsTypeAt .whole ss)
    (reads : p.Reads 0
      (word "let" :: word x :: mark ":" :: (ss ++ [mark "=", ⟨.number, n⟩, mark ";"])))
    (size : p.tokens.size = ss.length + 6) :
    p.walk hole p.tokens.size nowhere ⟨0, []⟩ =
      .ok ⟨p.tokens.size, (p.blank ⟨2, []⟩ 2 (ss.length + 3)).edits⟩ := by
  have inside : 0 < p.tokens.size := by omega
  have declared := @variableDeclaration_annotated p hole matched _ _ _ _ _ isType reads.2 (Nat.add_comm ..) []
  have semicolon : p.Has (ss.length + 5) (mark ";") := by
    have place : 0 + 1 + 1 + 1 + ss.length + 1 + 1 = ss.length + 5 := by omega
    exact place ▸ (reads_append.mp reads.2.2.2).2.2.2.1.has
  rw [walk_eq_step inside inside rfl
    ((step_let (.inl rfl) reads.1.has _ _ []).trans declared) (Nat.succ_pos _)]
  have before : ss.length + 5 < p.tokens.size := by omega
  rw [walk_eq_step before before rfl (step_of_isIdle semicolon rfl ..) (Nat.lt_succ_self _), walk,
    dif_neg (Nat.not_lt.mpr (Nat.le_of_eq size)), size]

/-- An annotation stands from the fifth character on up to the end of its type. -/
theorem blank_annotatedTokens {length : Nat} {tokens : Array Token}
    (tight : ∃ t ∈ tokens.back?, t.stop = length) (same : p.tokens = annotatedTokens length tokens) :
    (p.blank ⟨2, []⟩ 2 (tokens.size + 3)).edits = [⟨5, 5 + (2 + length), none⟩] := by
  obtain ⟨t, found, rfl⟩ := tight
  have colon : p.tokens[2]? = some ⟨.punct, 5, ":", false, []⟩ := by
    rw [same, annotatedTokens, Array.append_assoc, Array.getElem?_append_left (by decide)]
    rfl
  have last : p.tokens[tokens.size + 3 - 1]? = some (t.shifted 7) := by
    have some : 0 < tokens.size := by
      rw [Nat.pos_iff_ne_zero]
      intro none
      rw [Array.size_eq_zero_iff.mp none] at found
      cases found
    rw [Option.mem_def, Array.back?_eq_getElem?] at found
    have three : (tokensOf 0 annotationFront).toArray.size = 3 := rfl
    have place : tokens.size + 3 - 1 - 3 = tokens.size - 1 := by omega
    rw [same, annotatedTokens, Array.getElem?_append_left (by simp [three]; omega),
      Array.getElem?_append_right (by omega), three, place, Array.getElem?_map, found]
    rfl
  have stop : (t.shifted 7).stop = 5 + (2 + t.stop) := by
    simp only [Token.stop, Token.shifted]
    omega
  rw [blank, if_pos (Nat.lt_add_left _ (by decide)), colon, last]
  dsimp only
  rw [stop]
  rfl

end Erase.Program

/-! ## Erasing a declaration -/

/-- Overwriting characters of one line leaves as many spaces. -/
theorem map_blankOut_of_oneLine {cs : List Char} (oneLine : ∀ c ∈ cs, isLineEnd c = false) :
    cs.map Edit.blankOut = List.replicate cs.length ' ' := by
  refine List.eq_replicate_iff.mpr ⟨List.length_map _, List.forall_mem_map.mpr fun c mem => ?_⟩
  have inside := oneLine c mem
  simp only [isLineEnd, Bool.or_eq_false_iff, beq_eq_false_iff_ne] at inside
  simp [Edit.blankOut, inside]

/-- A single edit that overwrites a stretch of a text. -/
theorem applyTo_blank {front middle : List Char} (oneLine : ∀ c ∈ middle, isLineEnd c = false)
    (back : List Char) :
    Edits.applyTo [⟨front.length, front.length + middle.length, none⟩] (front ++ (middle ++ back)) =
      front ++ (List.replicate middle.length ' ' ++ back) := by
  have size : front.length + middle.length - front.length = middle.length := Nat.add_sub_cancel_left ..
  simp [Edits.applyTo, Edits.inOrder, Edits.applyFrom, Edit.apply, size, map_blankOut_of_oneLine oneLine]

/-- In the declaration of a variable the annotation is overwritten, from the colon to the end of its
type, whatever type of the grammar it is. -/
theorem erase_annotated {type : List Char} {tokens : Array Token} (scanned : scan type = .ok tokens)
    (isType : IsTypeAt .whole (tokens.toList.map Token.symbol))
    (oneLine : ∀ c ∈ type, isLineEnd c = false) (tight : ∃ t ∈ tokens.back?, t.stop = type.length) :
    erase ("let x: ".toList ++ (type ++ " = 0;".toList)) =
      .ok ("let x".toList ++ (List.replicate (type.length + 2) ' ' ++ " = 0;".toList)) := by
  have symbols := map_symbol_annotatedTokens type.length tokens
  obtain ⟨p, read, same, matched⟩ := Program.exists_ofSource (scan_annotated scanned oneLine tight)
    (symbols ▸ nested_annotatedSymbols isType.nested)
  rw [← same] at symbols
  have some : tokens ≠ #[] := by
    rintro rfl
    obtain ⟨t, found, -⟩ := tight
    cases found
  have line := scanFrom_oneLine (scanFrom_of_oneLine scanned oneLine some) oneLine (by simp)
  have reads := @Program.reads_all p (by
    rw [same]
    exact newlineBefore_annotatedTokens line type.length)
  rw [symbols] at reads
  have size : p.tokens.size = (tokens.toList.map Token.symbol).length + 6 := by
    have same := congrArg List.length symbols
    rw [List.length_map, Array.length_toList] at same
    simpa [annotatedSymbols] using same
  obtain ⟨hole, -, editsOf_eq⟩ := Program.editsOf_eq_walk read
  have walked := @Program.walk_annotated p hole matched _ _ _ isType reads size
  rw [List.length_map, Array.length_toList, Program.blank_annotatedTokens tight same] at walked
  have inside : ∀ c ∈ ": ".toList ++ type, isLineEnd c = false :=
    List.forall_mem_append.mpr ⟨by simp [isLineEnd], oneLine⟩
  have applied := @applyTo_blank "let x".toList _ inside " = 0;".toList
  have length : (": ".toList ++ type).length = 2 + type.length := List.length_append
  rw [length, Nat.add_comm 2 type.length] at applied
  have edits : editsOf (annotated type) = .ok [⟨5, 5 + (2 + type.length), none⟩] := by
    rw [editsOf_eq, walked]
    rfl
  have erases : erase (annotated type) =
      .ok (Edits.applyTo [⟨5, 5 + (2 + type.length), none⟩] (annotated type)) := by
    rw [erase, edits]
    rfl
  rw [Nat.add_comm 2 type.length] at erases
  exact erases.trans (congrArg Except.ok applied)

/-- The pieces of a conditional type over a constructor type, its index, a union and type arguments. -/
def conditionalPieces : List Spaced := [
  ⟨[], word "T"⟩, ⟨[' '], word "extends"⟩, ⟨[' '], mark "("⟩, ⟨[], word "new"⟩, ⟨[' '], mark "("⟩,
  ⟨[], word "a"⟩, ⟨[], mark ":"⟩, ⟨[' '], word "A"⟩, ⟨[], mark ")"⟩, ⟨[' '], mark "=>"⟩,
  ⟨[' '], word "keyof"⟩, ⟨[' '], word "typeof"⟩, ⟨[' '], word "b"⟩, ⟨[], mark "."⟩, ⟨[], word "c"⟩,
  ⟨[], mark ")"⟩, ⟨[], mark "["⟩, ⟨[], word "K"⟩, ⟨[], mark "]"⟩, ⟨[' '], mark "?"⟩, ⟨[' '], mark "|"⟩,
  ⟨[' '], mark "-"⟩, ⟨[], ⟨.number, "1"⟩⟩, ⟨[' '], mark "&"⟩, ⟨[' '], quoted "s"⟩, ⟨[' '], mark ":"⟩,
  ⟨[' '], word "M"⟩, ⟨[], mark "."⟩, ⟨[], word "N"⟩, ⟨[], mark "<"⟩, ⟨[], mark "["⟩, ⟨[], mark "]"⟩,
  ⟨[], mark ","⟩, ⟨[' '], mark openBrace⟩, ⟨[], mark closeBrace⟩, ⟨[], mark ">"⟩]

theorem isTypeAt_conditionalPieces : IsTypeAt .whole (conditionalPieces.map Spaced.symbol) := by
  have checked : IsTypeAt .union [word "T"] := @IsTypeAt.name "T" [] (by decide)
  have made : IsTypeAt .whole [word "keyof", word "typeof", word "b", mark ".", word "c"] :=
    .modified (.inl rfl) (.whole (.query "b" ["c"]))
  have parameters : Nested [word "a", mark ":", word "A"] := .cons rfl (.cons (by decide) (.plain rfl))
  have bound := IsTypeAt.indexed (.parenthesized (.constructor parameters made))
    (@Nested.plain (word "K") rfl)
  have yes : IsTypeAt .union [mark "|", mark "-", ⟨.number, "1"⟩, mark "&", quoted "s"] :=
    .leading (by decide) (.union (by decide) (.negative "1") (.string _) rfl) rfl
  have arguments : ∀ ss ∈ [[mark "[", mark "]"], [mark openBrace, mark closeBrace]], IsTypeAt .whole ss := by
    simp only [List.forall_mem_cons, List.not_mem_nil, IsEmpty.forall_iff, implies_true, and_true]
    exact ⟨.whole (.tuple .nil), .whole (.object .nil)⟩
  have no := @IsTypeAt.generic "M" ["N"] _ (by decide) arguments
  exact .conditional checked bound (.whole yes) (.whole no)

/-- The annotation of a conditional type goes. -/
theorem erase_annotated_conditional :
    erase ("let x: ".toList ++
      ("T extends (new (a: A) => keyof typeof b.c)[K] ? | -1 & \"s\" : M.N<[], \x7b\x7d>".toList ++
        " = 0;".toList)) =
      .ok ("let x".toList ++ (List.replicate 74 ' ' ++ " = 0;".toList)) := by
  have legible : isLegible conditionalPieces [] = true := by decide +kernel
  have oneLine : (spell conditionalPieces []).all (fun c => !isLineEnd c) = true := by decide +kernel
  have tight : (tokensOf 0 conditionalPieces).toArray.back?.any
      (fun t => t.stop == (spell conditionalPieces []).length) = true := by decide +kernel
  have text : spell conditionalPieces [] =
      "T extends (new (a: A) => keyof typeof b.c)[K] ? | -1 & \"s\" : M.N<[], \x7b\x7d>".toList := by
    decide +kernel
  have isType := isTypeAt_conditionalPieces
  rw [← map_symbol_tokensOf 0] at isType
  rw [List.all_eq_true] at oneLine
  obtain ⟨t, last, stop⟩ := (Option.any_eq_true _ _).mp tight
  have erased := erase_annotated (scan_spell legible rfl) isType (fun c mem => by simpa using oneLine c mem)
    ⟨t, last, beq_iff_eq.mp stop⟩
  rw [text] at erased
  exact erased

end ModuleLinker
