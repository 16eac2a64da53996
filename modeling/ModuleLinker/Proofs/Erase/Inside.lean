import ModuleLinker.Proofs.Erase.Grows

/-!
# Edits lie in the text

Whatever a walk overwrites, replaces or inserts lies in the text, and no edit stops before it starts
(`editsOf_inside`). Of an enum only the first token and the brace that closes it matter for that, and
an edit of a substitution lies in its template literal.
-/

set_option autoImplicit false

namespace ModuleLinker.Erase

/-- Whether an edit changes a range of a text of some length. -/
structure Edit.IsInside (e : Edit) (length : Nat) : Prop where
  /-- The range does not stop before it starts. -/
  inOrder : e.start ≤ e.stop
  /-- It stops within the text. -/
  within : e.stop ≤ length

namespace Program

variable {p : Program}

theorem IsRead.inside_tokens (read : p.IsRead) {first last : Nat} {a z : Token} (before : first ≤ last)
    (opens : p.tokens[first]? = some a) (ends : p.tokens[last]? = some z) (code : Option String) :
    Edit.IsInside ⟨a.start, z.stop, code⟩ p.source.length := by
  have less := (read.piece (Array.mem_of_getElem? opens)).less
  have ordered := (read.stop_le_stop before opens ends).2
  exact ⟨by change a.start ≤ z.stop; omega, read.stop_le_length (Array.mem_of_getElem? ends)⟩

theorem IsRead.inside_enumeration (read : p.IsRead) {i : Nat} {s s' : State}
    (before : ∀ e ∈ s.edits, e.IsInside p.source.length) (done : p.enumeration i s = .ok s') :
    ∀ e ∈ s'.edits, e.IsInside p.source.length := by
  have later := p.lt_close (p.enumKeyword i + 2)
  have keyword : i ≤ p.enumKeyword i := by
    unfold enumKeyword
    split <;> omega
  unfold enumeration at done
  rw [← enumKeyword] at done
  dsimp only at done
  split at done
  case isFalse => cases done
  case isTrue named =>
    obtain ⟨written, -, done⟩ := bind_eq_ok.mp done
    cases done
    rw [Bool.and_eq_true] at named
    have inside := p.lt_size_of_is named.1
    have first := Array.getElem?_eq_getElem (Nat.lt_of_le_of_lt (by omega : i ≤ _) inside)
    intro e mem
    rcases List.mem_cons.mp mem with rfl | mem
    · cases last : p.tokens[p.close (p.enumKeyword i + 2)]? with
      | none => exact ⟨Nat.le_refl _, read.offset_le_length i⟩
      | some z =>
        rw [offset, first]
        exact read.inside_tokens (by omega) first last _
    · exact before e (List.mem_of_mem_filter mem)

theorem IsRead.inside_shifted (read : p.IsRead) {t : Token} {h : Hole} {e : Edit} (token : t ∈ p.tokens)
    (hole : h ∈ t.holes) (inside : e.IsInside h.text.length) :
    (e.shifted h.start).IsInside p.source.length := by
  have before := ((read.piece token).holes h hole).2.1
  have stop := read.stop_le_length token
  unfold Hole.stop at before
  refine ⟨Nat.add_le_add_right inside.inOrder _, ?_⟩
  have within := inside.within
  change e.stop + h.start ≤ p.source.length
  omega

/-- A walk keeps its edits in the text. -/
theorem Grows.inside {hole : Hole → Except Failure Edits} {edits edits' : Edits} (read : p.IsRead)
    (substitutions : ∀ t ∈ p.tokens, ∀ h ∈ t.holes, ∀ inner, hole h = .ok inner →
      ∀ e ∈ inner, e.IsInside h.text.length)
    (grows : p.Grows hole edits edits') (before : ∀ e ∈ edits, e.IsInside p.source.length) :
    ∀ e ∈ edits', e.IsInside p.source.length := by
  induction grows with
  | blank _ less opens ends =>
    intro e mem
    rcases List.mem_cons.mp mem with rfl | mem
    · exact read.inside_tokens (Nat.le_sub_one_of_lt less) opens ends _
    · exact before e (List.mem_of_mem_filter mem)
  | replace _ done => exact read.inside_enumeration before done
  | assign brace =>
    rw [List.forall_mem_cons]
    refine ⟨⟨Nat.le_refl _, ?_⟩, before⟩
    obtain ⟨t, found, punct⟩ := (Option.any_eq_true ..).mp brace
    have stop := read.stop_le_length (Array.mem_of_getElem? found)
    rwa [stop_of_brace found punct] at stop
  | adopt token inside done =>
    intro e mem
    rcases List.mem_append.mp mem with mem | mem
    · obtain ⟨e', mem', rfl⟩ := List.mem_map.mp mem
      exact read.inside_shifted token inside (substitutions _ token _ inside _ done e' mem')
    · exact before e mem
  | refl => exact before
  | trans _ _ ih ih' => exact ih' (ih before)

end Program

/-- Every edit of a text lies in it. -/
theorem editsOf_inside {source : List Char} {edits : Edits} (done : editsOf source = .ok edits) :
    ∀ e ∈ edits, e.IsInside source.length := by
  rw [editsOf] at done
  split at done
  · cases done
  case h_2 p opened =>
    have read := Program.isRead_of_ofSource opened
    obtain ⟨rfl, -⟩ := Program.ofSource_eq_ok opened
    dsimp only at done
    generalize walked : p.walk _ _ _ _ = result at done
    cases result with
    | error e => cases done
    | ok s =>
      cases done
      refine (Program.walk_grows walked).inside read ?_ (fun _ mem => by cases mem)
      intro t token h hole inner given
      split at given
      case isTrue shorter => exact editsOf_inside given
      case isFalse =>
        cases given
        exact fun _ mem => by cases mem
termination_by source.length

end ModuleLinker.Erase
