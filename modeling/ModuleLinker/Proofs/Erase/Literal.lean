import Mathlib
import ModuleLinker.Proofs.Erase.Behind.Text
import ModuleLinker.Proofs.Erase.Inside
import ModuleLinker.Proofs.Erase.Passes
import ModuleLinker.Proofs.Erase.TypedWalk
import ModuleLinker.Proofs.Source.Literal

/-!
# Template literals are erased piece by piece

A template literal is erased by erasing its substitutions where they stand (`erase_literal`). The edits
of a substitution are those of its text, further on, and edits of texts that stand one behind the other
do to them together what they do to each alone (`Edits.applyTo_append`).
-/

set_option autoImplicit false

namespace ModuleLinker

namespace Erase

/-! ## Edits of texts that stand one behind the other -/

/-- What is sorted in two parts, none of the second part before the first, is sorted as a whole. -/
theorem mergeSort_append {α : Type} {le : α → α → Bool}
    (trans : ∀ a b c, le a b = true → le b c = true → le a c = true)
    (total : ∀ a b, (le a b || le b a) = true) {xs ys : List α}
    (before : ∀ x ∈ xs, ∀ y ∈ ys, le x y = true) :
    (xs ++ ys).mergeSort le = xs.mergeSort le ++ ys.mergeSort le := by
  induction xs with
  | nil => rw [List.nil_append, List.mergeSort_nil, List.nil_append]
  | cons x xs ih =>
    rw [List.forall_mem_cons] at before
    obtain ⟨front, back, part, rest, less⟩ := List.mergeSort_cons trans total x xs
    obtain ⟨front', back', whole, rest', less'⟩ := List.mergeSort_cons trans total x (xs ++ ys)
    rw [ih before.2, rest, List.append_assoc] at rest'
    -- Both times `x` comes in front of the first element that is not smaller.
    have sorted := List.pairwise_mergeSort trans total (x :: xs)
    have sorted' := List.pairwise_mergeSort trans total (x :: (xs ++ ys))
    rw [part, List.pairwise_append, List.pairwise_cons] at sorted
    rw [whole, List.pairwise_append, List.pairwise_cons] at sorted'
    have cut {l m : List α} (less : ∀ b ∈ l, (!le x b) = true) (more : ∀ b ∈ m, le x b = true) :
        (l ++ m).takeWhile (fun b => !le x b) = l := by
      rw [List.takeWhile_append_of_pos less]
      cases m with
      | nil => exact List.append_nil l
      | cons b m => rw [List.takeWhile_cons_of_neg (by simp [more b List.mem_cons_self]), List.append_nil]
    have more : ∀ b ∈ back ++ ys.mergeSort le, le x b = true := by
      intro b mem
      rcases List.mem_append.mp mem with mem | mem
      · exact sorted.2.1.1 b mem
      · exact before.1 b ((List.mergeSort_perm ys le).mem_iff.mp mem)
    have same : front = front' := by rw [← cut less more, rest', cut less' sorted'.2.1.1]
    subst same
    rw [List.cons_append, whole, part, ← List.append_cancel_left rest', List.append_assoc, List.cons_append]

namespace Edits

/-- The edits of a text behind another one come behind those of the other. -/
theorem inOrder_append {edits later : Edits} (before : ∀ e ∈ edits, ∀ e' ∈ later, e.start ≤ e'.start) :
    Edits.inOrder (later ++ edits) = edits.inOrder ++ later.inOrder := by
  unfold inOrder
  rw [List.reverse_append]
  refine mergeSort_append (fun a b c ab bc => ?_) (fun a b => ?_) fun e mem e' mem' => ?_
  · rw [decide_eq_true_eq] at ab bc ⊢
    exact Nat.le_trans ab bc
  · rw [Bool.or_eq_true, decide_eq_true_eq, decide_eq_true_eq]
    exact Nat.le_total ..
  · exact decide_eq_true (before e (List.mem_reverse.mp mem) e' (List.mem_reverse.mp mem'))

theorem inOrder_shifted (edits : Edits) (n : Nat) :
    Edits.inOrder (edits.map (·.shifted n)) = edits.inOrder.map (·.shifted n) := by
  unfold inOrder
  rw [← List.map_reverse]
  refine (List.map_mergeSort fun a _ b _ => ?_).symm
  simp [Edit.shifted]

/-- Edits of a text do not reach into the text behind it. -/
theorem applyFrom_inside {n : Nat} {cs : List Char} {es : List Edit}
    (inside : ∀ e ∈ es, e.IsInside (n + cs.length)) (tail : List Char) (later : List Edit) :
    applyFrom n (cs ++ tail) (es ++ later.map (·.shifted (n + cs.length))) =
      applyFrom n cs es ++ applyFrom 0 tail later := by
  induction es generalizing n cs with
  | nil => exact applyFrom_append n cs tail later
  | cons e es ih =>
    rw [List.forall_mem_cons] at inside
    obtain ⟨⟨inOrder, within⟩, inside⟩ := inside
    rw [List.cons_append, applyFrom, applyFrom]
    split
    case isTrue => exact ih inside
    case isFalse after =>
    have first : e.start - n ≤ cs.length := by omega
    have size : e.stop - e.start ≤ (cs.drop (e.start - n)).length := by
      rw [List.length_drop]
      omega
    have place : n + cs.length = e.stop + ((cs.drop (e.start - n)).drop (e.stop - e.start)).length := by
      rw [List.length_drop, List.length_drop]
      omega
    dsimp only
    rw [place] at inside ⊢
    rw [List.take_append_of_le_length first, List.drop_append_of_le_length first,
      List.take_append_of_le_length size, List.drop_append_of_le_length size, ih inside,
      List.append_assoc]
    simp only [List.append_assoc]

/-- Edits of two texts, one behind the other, do to each what they do to it alone. -/
theorem applyTo_append {edits : Edits} {cs : List Char} (inside : ∀ e ∈ edits, e.IsInside cs.length)
    (later : Edits) (tail : List Char) :
    Edits.applyTo (later.map (·.shifted cs.length) ++ edits) (cs ++ tail) =
      edits.applyTo cs ++ later.applyTo tail := by
  unfold applyTo
  rw [inOrder_append, inOrder_shifted]
  · have split := @applyFrom_inside 0 cs edits.inOrder
      (by rw [Nat.zero_add]; exact fun e mem => inside e (mem_inOrder.mp mem)) tail later.inOrder
    rwa [Nat.zero_add] at split
  · intro e mem e' mem'
    obtain ⟨e', -, rfl⟩ := List.mem_map.mp mem'
    have within := inside e mem
    exact Nat.le_trans within.inOrder (Nat.le_trans within.within (Nat.le_add_left ..))

/-- Edits that move on twice. -/
theorem map_shifted (edits : Edits) (m n : Nat) :
    (edits.map (·.shifted m)).map (·.shifted n) = edits.map (·.shifted (m + n)) := by
  rw [List.map_map]
  refine List.map_congr_left fun e _ => ?_
  simp [Edit.shifted, Nat.add_assoc]

/-- Edits of a text leave what stands in front of it alone. -/
theorem applyTo_front (front cs : List Char) (edits : Edits) :
    Edits.applyTo (edits.map (·.shifted front.length)) (front ++ cs) = front ++ edits.applyTo cs := by
  have split := @applyTo_append [] front (fun _ mem => by cases mem) edits cs
  rwa [List.append_nil, applyTo_nil] at split

end Edits

theorem Edit.IsInside.shifted {e : Edit} {length : Nat} (inside : e.IsInside length) (n : Nat) :
    (e.shifted n).IsInside (n + length) := by
  obtain ⟨inOrder, within⟩ := inside
  exact ⟨Nat.add_le_add_right inOrder n, by change e.stop + n ≤ n + length; omega⟩

end Erase

open Erase Lexeme

/-! ## Template literals -/

/-- A template literal with every substitution erased, if they all can be. -/
def Literal.erased : Literal → Except Failure Literal
  | .last plain => .ok (.last plain)
  | .hole plain inside rest => do
    let inside ← erase inside
    let rest ← rest.erased
    .ok (.hole plain inside rest)

/-- The edits of a text in a literal and of what follows it. -/
theorem applyTo_hole {edits : Edits} {plain inside : List Char}
    (within : ∀ e ∈ edits, e.IsInside inside.length) (later : Edits) (rest : Literal) :
    Edits.applyTo (later.map (·.shifted (plain.length + 2 + inside.length + 1)) ++
        edits.map (·.shifted (plain.length + 2))) (Literal.hole plain inside rest).body =
      plain ++ '$' :: '{' :: (edits.applyTo inside ++ '}' :: later.applyTo rest.body) := by
  let front := plain ++ ['$', '{']
  have length : plain.length + 2 = front.length := by simp [front]
  have inside' : ∀ e ∈ edits.map (·.shifted front.length), e.IsInside (front ++ inside).length := by
    intro e mem
    obtain ⟨e', mem', rfl⟩ := List.mem_map.mp mem
    have further := (within e' mem').shifted front.length
    rwa [← List.length_append] at further
  have split := Edits.applyTo_append inside' (later.map (·.shifted 1)) ('}' :: rest.body)
  have brace : Edits.applyTo (later.map (·.shifted 1)) ('}' :: rest.body) = '}' :: later.applyTo rest.body :=
    Edits.applyTo_front ['}'] rest.body later
  have place : 1 + (front ++ inside).length = plain.length + 2 + inside.length + 1 := by
    rw [List.length_append, ← length]
    omega
  rw [Edits.applyTo_front, brace, Edits.map_shifted, place] at split
  rw [length, Literal.body]
  simpa [front] using split

/-- The edits of all substitutions of a literal erase them where they stand. -/
theorem stepHoles_literal {w : Walker} {l l' : Literal} (done : l.erased = .ok l') {pos : Nat}
    (holes : ∀ h ∈ l.holesFrom pos, w.hole h = editsOf h.text) (s : State) :
    ∃ edits : Edits, Program.stepHoles w s (l.holesFrom pos) =
        .ok { s with edits := edits.map (·.shifted pos) ++ s.edits } ∧
      edits.applyTo l.body = l'.body := by
  induction l generalizing l' pos s with
  | last plain =>
    cases done
    exact ⟨[], rfl, Edits.applyTo_nil _⟩
  | hole plain inside rest ih =>
    obtain ⟨inside', insideDone, done⟩ := bind_eq_ok.mp done
    obtain ⟨rest', restDone, done⟩ := bind_eq_ok.mp done
    cases done
    obtain ⟨edits, found, insideDone⟩ := bind_eq_ok.mp insideDone
    cases insideDone
    rw [Literal.holesFrom, List.forall_mem_cons] at holes
    rw [found] at holes
    obtain ⟨later, walked, erases⟩ := ih restDone holes.2
      { s with edits := s.edits.adopt edits (pos + plain.length + 2) }
    refine ⟨later.map (·.shifted (plain.length + 2 + inside.length + 1)) ++
      edits.map (·.shifted (plain.length + 2)), ?_, ?_⟩
    · rw [Literal.holesFrom, Program.stepHoles, holes.1]
      dsimp only
      have place : plain.length + 2 + inside.length + 1 + pos = pos + plain.length + 2 + inside.length + 1 := by
        omega
      have place' : plain.length + 2 + pos = pos + plain.length + 2 := by omega
      rw [walked, List.map_append, Edits.map_shifted, Edits.map_shifted, Edits.adopt, place, place',
        List.append_assoc]
    · rw [applyTo_hole (editsOf_inside found), erases, Literal.body]

theorem exists_erase_of_erased {l l' : Literal} (done : l.erased = .ok l') :
    ∀ t ∈ l.insides, ∃ o, erase t = .ok o := by
  induction l generalizing l' with
  | last => exact fun _ mem => by cases mem
  | hole plain inside rest ih =>
    obtain ⟨inside', insideDone, done⟩ := bind_eq_ok.mp done
    obtain ⟨rest', restDone, done⟩ := bind_eq_ok.mp done
    rw [Literal.insides, List.forall_mem_cons]
    exact ⟨⟨inside', insideDone⟩, ih restDone⟩

/-- A text without slashes that can be erased fills a substitution. -/
theorem fillsHole_of_erase {text out : List Char} (noSlash : '/' ∉ text) (plain : ¬ ['#', '!'] <+: text)
    (done : erase text = .ok out) : FillsHole text := by
  obtain ⟨edits, done, -⟩ := bind_eq_ok.mp done
  rw [editsOf] at done
  split at done
  case h_1 => cases done
  case h_2 p read =>
  obtain ⟨tokens, scanned, read⟩ := bind_eq_ok.mp read
  obtain ⟨partners, matched, -⟩ := bind_eq_ok.mp read
  exact fillsHole_of_noSlash (interpreterLineLength_eq_zero plain) scanned matched noSlash

/-- A template literal whose substitutions can be erased, and have no slash, is erased by erasing each
of them. -/
theorem erase_literal {l l' : Literal} (plain : ∀ t ∈ l.plains, ∀ c ∈ t, isTemplatePlain c = true)
    (fit : ∀ t ∈ l.insides, '/' ∉ t ∧ ¬ ['#', '!'] <+: t) (done : l.erased = .ok l') :
    erase l.text = .ok l'.text := by
  have fills : ∀ t ∈ l.insides, FillsHole t := by
    intro t mem
    obtain ⟨o, erases⟩ := exists_erase_of_erased done t mem
    exact fillsHole_of_erase (fit t mem).1 (fit t mem).2 erases
  let token : Token := ⟨.template, 0, String.ofList l.text, false, l.holesFrom 1⟩
  have read : Program.ofSource l.text = .ok ⟨l.text, #[token], #[none]⟩ := by
    rw [Program.ofSource, scan_literal plain fills]
    rfl
  obtain ⟨hole, holes, editsOf_eq⟩ := Program.editsOf_eq_walk read
  let p : Program := ⟨l.text, #[token], #[none]⟩
  obtain ⟨edits, walked, erases⟩ :=
    stepHoles_literal (w := p.walkerAt hole 0) done (holes token (by simp)) ⟨1, []⟩
  have whole : p.walk hole 1 nowhere ⟨0, []⟩ = .ok ⟨1, edits.map (·.shifted 1)⟩ := by
    rw [List.append_nil] at walked
    rw [Program.walk_eq_step (p := p) (s := ⟨0, []⟩) Nat.zero_lt_one Nat.zero_lt_one rfl walked Nat.zero_lt_one,
      Program.walk]
    exact dif_neg (Nat.lt_irrefl 1)
  have found : editsOf l.text = .ok (edits.map (·.shifted 1)) := by
    rw [editsOf_eq]
    exact congrArg (Except.map (·.edits)) whole
  rw [erase, found]
  refine congrArg Except.ok ?_
  rw [Literal.text, Literal.text, ← erases]
  exact Edits.applyTo_front [templateMark] l.body edits

/-- An enum, a parameter property and a further template literal in the substitutions of a literal. -/
theorem erase_literal_nested :
    erase (Literal.text (.hole ['a'] "enum E \x7b A \x7d".toList
        (.hole ['b'] "class C \x7b constructor(private x) \x7b\x7d \x7d".toList
          (.hole [] "\x60$\x7bx!\x7d\x60".toList (.last ['c']))))) =
      .ok (Literal.text (.hole ['a']
        "var E; (function (E) \x7b E[E[\"A\"] = 0] = \"A\"; \x7d)(E || (E = \x7b\x7d));".toList
        (.hole ['b'] "class C \x7b constructor(        x) \x7b this.x = x;\x7d \x7d".toList
          (.hole [] "\x60$\x7bx \x7d\x60".toList (.last ['c']))))) :=
  erase_literal (by simp [Literal.plains, isTemplatePlain, templateMark]) (by simp [Literal.insides])
    (by cbv)

end ModuleLinker
