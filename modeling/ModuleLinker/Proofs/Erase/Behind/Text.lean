import Mathlib
import ModuleLinker.Proofs.Erase.Behind.Walk
import ModuleLinker.Proofs.Erase.Program
import ModuleLinker.Proofs.Source.Brackets

/-!
# A text behind an erased line

Where the first line of a text is one construct that goes as a whole, the text behind it is erased as
it is alone, and spaces stand for the line (`erase_behind`). The edits of the text behind the line are
those it has alone, further on (`Edits.applyTo_behind`).
-/

set_option autoImplicit false

namespace ModuleLinker.Erase

namespace Edits

/-- Edits do the same to a text that lies further on. -/
theorem applyFrom_shifted (m n : Nat) (cs : List Char) (es : List Edit) :
    applyFrom (n + m) cs (es.map (·.shifted m)) = applyFrom n cs es := by
  induction es generalizing n cs with
  | nil => rfl
  | cons e es ih =>
    have start : (e.shifted m).start = e.start + m := rfl
    have stop : (e.shifted m).stop = e.stop + m := rfl
    rw [List.map_cons, applyFrom, applyFrom]
    simp only [start, stop, Nat.add_lt_add_iff_right, Nat.add_sub_add_right, ih]
    rfl

/-- Edits behind a piece of a text leave it alone. -/
theorem applyFrom_append (n : Nat) (front cs : List Char) (es : List Edit) :
    applyFrom n (front ++ cs) (es.map (·.shifted (n + front.length))) = front ++ applyFrom 0 cs es := by
  cases es with
  | nil => rfl
  | cons e es =>
    have start : (e.shifted (n + front.length)).start = n + (front.length + e.start) := by
      change e.start + (n + front.length) = _
      omega
    have stop : (e.shifted (n + front.length)).stop = e.stop + (n + front.length) := rfl
    have size : e.stop + (n + front.length) - (n + (front.length + e.start)) = e.stop - e.start := by
      omega
    rw [List.map_cons, applyFrom, applyFrom, start, stop, size, if_neg (by omega),
      if_neg (Nat.not_lt_zero _), Nat.add_sub_cancel_left]
    dsimp only
    rw [applyFrom_shifted, ← List.drop_drop, List.drop_left, List.take_length_add_append,
      Nat.sub_zero, List.append_assoc, List.append_assoc, List.append_assoc]
    rfl

/-- The edits of a text that lies further on come behind an edit at the start. -/
theorem inOrder_behind (edits : Edits) (m : Nat) {first : Edit} (start : first.start = 0) :
    Edits.inOrder (edits.map (·.shifted m) ++ [first]) = first :: edits.inOrder.map (·.shifted m) := by
  let le (a b : Edit) : Bool := a.start ≤ b.start
  have trans (a b c : Edit) (ab : le a b = true) (bc : le b c = true) : le a c = true := by
    simp only [le, decide_eq_true_eq] at ab bc ⊢
    omega
  have total (a b : Edit) : (le a b || le b a) = true := by
    simp only [le, Bool.or_eq_true, decide_eq_true_eq]
    omega
  obtain ⟨l, l', whole, rest, before⟩ :=
    List.mergeSort_cons trans total first (edits.reverse.map (·.shifted m))
  have none : l = [] := by
    cases l with
    | nil => rfl
    | cons b l =>
      have less := before b List.mem_cons_self
      simp [le, start] at less
  subst none
  have sorted : (edits.reverse.map (·.shifted m)).mergeSort le = (edits.reverse.mergeSort le).map (·.shifted m) := by
    refine (List.map_mergeSort fun a _ b _ => ?_).symm
    simp [le, Edit.shifted]
  unfold inOrder
  rw [List.reverse_append, List.reverse_singleton, List.singleton_append, ← List.map_reverse]
  rw [List.nil_append] at whole rest
  rw [sorted] at rest
  exact whole.trans (congrArg (first :: ·) rest.symm)

/-- A line that goes as a whole, and the edits of the text behind it. -/
theorem applyTo_behind (edits : Edits) (line source : List Char) :
    applyTo (edits.map (·.shifted (line.length + 1)) ++ [⟨0, line.length, none⟩]) (line ++ '\n' :: source) =
      line.map Edit.blankOut ++ '\n' :: edits.applyTo source := by
  have behind := applyFrom_append line.length ['\n'] source edits.inOrder
  unfold applyTo
  rw [inOrder_behind _ _ rfl, applyFrom, if_neg (Nat.not_lt_zero _)]
  simp only [Nat.sub_zero, List.take_zero, List.nil_append, List.drop_zero, List.take_left,
    List.drop_left]
  exact congrArg (line.map Edit.blankOut ++ ·) behind

end Edits

namespace Program

/-- The edits of a text are those of a walk through its program, in which every substitution has the
edits of its own text. -/
theorem editsOf_eq_walk {source : List Char} {p : Program} (read : ofSource source = .ok p) :
    ∃ hole : Hole → Except Failure Edits,
      (∀ t ∈ p.tokens, ∀ h ∈ t.holes, hole h = editsOf h.text) ∧
        editsOf source = (p.walk hole p.tokens.size nowhere ⟨0, []⟩).map (·.edits) := by
  refine ⟨fun h => if h.text.length < source.length then editsOf h.text else .ok [], ?_, ?_⟩
  · intro t token h inside
    have piece := (isRead_of_ofSource read).piece token
    have stops := (isRead_of_ofSource read).stop_le_length token
    obtain ⟨starts, ends, text⟩ := piece.holes h inside
    have length := text.length_le
    rw [(ofSource_eq_ok read).1] at length stops
    rw [List.length_drop] at length
    exact if_pos (by omega)
  · rw [editsOf, read]

/-- A text whose first line gives some tokens and has all brackets of it closed is read as these tokens
and the program of the other lines behind them. -/
theorem ofSource_behind {line source : List Char} {front : Array Token} {p : Program} {first : Token}
    (cut : scan (line ++ '\n' :: source) = scanFrom front line.length ('\n' :: source))
    (nested : Nested (front.toList.map Token.symbol)) (read : ofSource source = .ok p)
    (found : p.tokens[0]? = some first) (start : first.start = 0) (opens : first.opensStatement = true) :
    ∃ p', ofSource (line ++ '\n' :: source) = .ok p' ∧
      (∀ i < front.size, p'.tokens[i]? = front[i]?) ∧
      p'.Behind ⟨front.size, line.length + 1, [⟨0, line.length, none⟩]⟩ p := by
  obtain ⟨tokens, scanned, rest⟩ := bind_eq_ok.mp read
  obtain ⟨partners, matched, same⟩ := bind_eq_ok.mp rest
  cases same
  have noRegex : first.kind ≠ .regex := by
    obtain ⟨kind, start, text, newline, holes⟩ := first
    rintro rfl
    cases opens
  rw [scanFrom_lineFeed scanned found start noRegex] at cut
  have symbols : (tokens.mapIdx fun i t => t.placed (line.length + 1) i).toList.map Token.symbol =
      tokens.toList.map Token.symbol := by
    apply List.ext_getElem?
    intro i
    rw [List.getElem?_map, List.getElem?_map, Array.getElem?_toList, Array.getElem?_toList,
      Array.getElem?_mapIdx, Option.map_map]
    rfl
  obtain ⟨partners', matched', partner⟩ := matchBrackets_behind nested symbols matched
  let behind := tokens.mapIdx fun i t => t.placed (line.length + 1) i
  refine ⟨⟨line ++ '\n' :: source, front ++ behind, partners'⟩, ?_, ?_, ?_⟩
  · rw [ofSource, cut]
    exact bind_eq_ok.mpr ⟨_, rfl, bind_eq_ok.mpr ⟨_, matched', rfl⟩⟩
  · intro i less
    exact Array.getElem?_append_left less
  · refine ⟨fun i => ?_, ?_, partner, ?_, ?_, ?_⟩
    · rw [Array.getElem?_append_right (Nat.le_add_right ..), Nat.add_sub_cancel_left,
        Array.getElem?_mapIdx]
    · simp [behind]
    · simp
    · simp
      omega
    · simp

end Program

open Program

/-- Where the first step in a text overwrites its first line, and the text behind it starts with a
token that is taken for the same there as alone, that text is erased as it is alone. -/
theorem erase_behind {line source out : List Char} {n : Nat} {p p' : Program} {first : Token}
    (some : 0 < n) (read' : ofSource (line ++ '\n' :: source) = .ok p')
    (behind : p'.Behind ⟨n, line.length + 1, [⟨0, line.length, none⟩]⟩ p)
    (read : ofSource source = .ok p) (found : p.tokens[0]? = .some first)
    (opens : first.opensStatement = true)
    (joins : p'.Joins ⟨n, line.length + 1, [⟨0, line.length, none⟩]⟩ p)
    (goes : ∀ w limit, p'.step w limit ⟨0, []⟩ = .ok ⟨n, [⟨0, line.length, none⟩]⟩)
    (done : erase source = .ok out) :
    erase (line ++ '\n' :: source) = .ok (line.map Edit.blankOut ++ '\n' :: out) := by
  obtain ⟨hole, holes, editsOf_eq⟩ := editsOf_eq_walk read
  obtain ⟨hole', holes', editsOf_eq'⟩ := editsOf_eq_walk read'
  obtain ⟨edits, alone, done⟩ := bind_eq_ok.mp done
  cases done
  let f : Front := ⟨n, line.length + 1, [⟨0, line.length, none⟩]⟩
  have further : p'.walk hole' p'.tokens.size nowhere ⟨n, [⟨0, line.length, none⟩]⟩ =
      f.result f.lift (p.walk hole p.tokens.size nowhere ⟨0, []⟩) := by
    refine walk_behind_first found opens joins (fun t token h inside => ?_) []
    obtain ⟨i, less, same⟩ := Array.mem_iff_getElem.mp token
    have place : p'.tokens[n + i]? = .some (t.placed (line.length + 1) i) := by
      rw [behind.token i, Array.getElem?_eq_getElem less, same]
      rfl
    rw [holes t token h inside]
    exact holes' _ (Array.mem_of_getElem? place) _ (List.mem_map_of_mem inside)
  have inside : 0 < p'.tokens.size := by
    have size : p'.tokens.size = n + p.tokens.size := behind.size
    omega
  have whole : p'.walk hole' p'.tokens.size nowhere ⟨0, []⟩ =
      p'.walk hole' p'.tokens.size nowhere ⟨n, [⟨0, line.length, none⟩]⟩ := by
    have past : State.past ⟨n, [⟨0, line.length, none⟩]⟩ 0 = ⟨n, [⟨0, line.length, none⟩]⟩ :=
      congrArg (State.mk · _) (Nat.max_eq_left some)
    rw [walk, dif_pos inside, nowhere, Bool.not_false, Bool.and_true, if_pos (decide_eq_true inside)]
    dsimp only
    rw [goes]
    dsimp only
    rw [past]
  rw [alone] at editsOf_eq
  rw [whole, further] at editsOf_eq'
  rw [erase, editsOf_eq']
  cases walked : p.walk hole p.tokens.size nowhere ⟨0, []⟩ with
  | error e =>
    rw [walked] at editsOf_eq
    cases editsOf_eq
  | ok s =>
    rw [walked] at editsOf_eq
    cases editsOf_eq
    exact congrArg Except.ok (Edits.applyTo_behind s.edits line source)

end ModuleLinker.Erase
