import ModuleLinker.Proofs.Source.Lexeme

/-!
# Substitutions stand between their marks

Each substitution of a template literal has a dollar sign and an opening brace in front and a closing
brace behind it, all inside the literal, and the next one starts after that brace (`template_marks`).
-/

set_option autoImplicit false

namespace ModuleLinker

/-- Whether a substitution stands between its marks, before the offset `stop`, in the text `cs` that
lies at the offset `pos`. -/
structure Hole.IsMarked (h : Hole) (pos stop : Nat) (cs : List Char) : Prop where
  /-- The mark in front of it belongs to the text. -/
  after : pos + 2 ≤ h.start
  /-- Something comes after the mark behind it. -/
  before : h.stop + 2 ≤ stop
  /-- Its text stands there with the marks around it. -/
  piece : '$' :: '\x7b' :: (h.text ++ ['\x7d']) <+: cs.drop (h.start - 2 - pos)

/-- What is marked in the rest of a text is marked in the text. -/
theorem Hole.IsMarked.of_drop {h : Hole} {pos stop n : Nat} {cs : List Char}
    (marked : h.IsMarked (pos + n) stop (cs.drop n)) : h.IsMarked pos stop cs := by
  obtain ⟨after, before, piece⟩ := marked
  refine ⟨by omega, before, ?_⟩
  have place : h.start - 2 - pos = n + (h.start - 2 - (pos + n)) := by omega
  rwa [place, ← List.drop_drop]

namespace Lexeme

/-- A substitution ends at a closing brace. -/
theorem getElem?_of_substitution {start pos depth close : Nat} {cs : List Char}
    (done : substitution start pos depth cs = .ok close) : cs[close - pos]? = some '\x7d' := by
  cases cs with
  | nil =>
    rw [substitution] at done
    cases done
  | cons c cs =>
    have further {n depth : Nat} (closes : substitution start (pos + 1 + n) depth (cs.drop n) =
        .ok close) : (c :: cs)[close - pos]? = some '\x7d' := by
      have le := (substitution_spec closes).1
      have place : close - pos = n + (close - (pos + 1 + n)) + 1 := by omega
      rw [place, List.getElem?_cons_succ, ← List.getElem?_drop]
      exact getElem?_of_substitution closes
    unfold substitution at done
    dsimp only at done
    split at done
    · exact further (n := 0) done
    split at done
    case isTrue brace =>
      cases depth with
      | zero =>
        cases done
        rw [Nat.sub_self, List.getElem?_cons_zero, brace]
      | succ outer => exact further (n := 0) done
    split at done
    · split at done
      · cases done
      · exact further done
    split at done
    · obtain ⟨⟨stop, holes⟩, ends, done⟩ := bind_eq_ok.mp done
      obtain ⟨less, le, -⟩ := template_spec ends
      have place : stop = pos + 1 + (stop - (pos + 1)) := by omega
      dsimp only at done
      rw [place, Nat.add_sub_cancel_left] at done
      exact further done
    split at done
    · exact further done
    split at done
    · exact further done
    · exact further (n := 0) done
termination_by cs.length

/-- The substitutions that a template literal adds stand between their marks, one after another. -/
theorem template_marks {start pos : Nat} {holes holes' : List Hole} {cs : List Char} {stop : Nat}
    (done : template start pos holes cs = .ok (stop, holes')) :
    ∃ new, holes' = holes.reverse ++ new ∧ (∀ h ∈ new, h.IsMarked pos stop cs) ∧
      new.Pairwise fun h h' => h.stop < h'.start := by
  cases cs with
  | nil =>
    rw [template] at done
    cases done
  | cons c cs =>
    have further {n : Nat} {more : List Hole} (ends : template start (pos + (n + 1)) more (cs.drop n) =
        .ok (stop, holes')) : ∃ new, holes' = more.reverse ++ new ∧
          (∀ h ∈ new, h.IsMarked (pos + (n + 1)) stop ((c :: cs).drop (n + 1))) ∧
          new.Pairwise fun h h' => h.stop < h'.start := template_marks ends
    have whole {n : Nat} {more : List Hole} (ends : template start (pos + (n + 1)) more (cs.drop n) =
        .ok (stop, holes')) : ∃ new, holes' = more.reverse ++ new ∧
          (∀ h ∈ new, h.IsMarked pos stop (c :: cs)) ∧
          new.Pairwise fun h h' => h.stop < h'.start := by
      obtain ⟨new, same, marked, inOrder⟩ := further ends
      exact ⟨new, same, fun h mem => (marked h mem).of_drop, inOrder⟩
    rw [template] at done
    split at done
    · cases done
      exact ⟨[], by simp, by simp, .nil⟩
    split at done
    · exact whole (n := 1) done
    split at done
    case isTrue opens =>
      obtain ⟨close, closes, done⟩ := bind_eq_ok.mp done
      obtain ⟨le, less⟩ := substitution_spec closes
      have brace := getElem?_of_substitution closes
      rw [Bool.and_eq_true, decide_eq_true_eq, beq_iff_eq] at opens
      obtain ⟨rfl, second⟩ := opens
      obtain ⟨first, rfl⟩ := List.head?_eq_some_iff.mp second
      rw [List.drop_succ_cons, List.drop_zero] at brace less done
      have place : close + 1 = pos + (close - pos + 1) := by omega
      have size : close - (pos + 2) + 1 + 1 = close - pos := by omega
      dsimp only at done
      have rest : first.drop (close - (pos + 2) + 1) = ('\x7b' :: first).drop (close - pos) := by
        rw [← size, List.drop_succ_cons]
      rw [place, rest] at done
      have past := (template_spec done).1
      obtain ⟨new, same, marked, inOrder⟩ := further done
      have stops : Hole.stop ⟨pos + 2, first.take (close - (pos + 2))⟩ = close := by
        rw [Hole.stop, List.length_take]
        change pos + 2 + _ = close
        omega
      refine ⟨⟨pos + 2, first.take (close - (pos + 2))⟩ :: new, ?_, ?_, ?_⟩
      · rw [same, List.reverse_cons, List.append_assoc, List.singleton_append]
      · rw [List.forall_mem_cons]
        refine ⟨⟨Nat.le_refl _, by rw [stops]; omega, ?_⟩, fun h mem => (marked h mem).of_drop⟩
        change _ <+: ('$' :: '\x7b' :: first).drop (pos + 2 - 2 - pos)
        rw [Nat.add_sub_cancel, Nat.sub_self, List.drop_zero, List.cons_prefix_cons,
          List.cons_prefix_cons]
        have closed := List.take_add_one (l := first) (i := close - (pos + 2))
        rw [brace, Option.toList_some] at closed
        rw [← closed]
        exact ⟨rfl, rfl, List.take_prefix ..⟩
      · rw [List.pairwise_cons]
        refine ⟨fun h mem => ?_, inOrder⟩
        have after := (marked h mem).after
        rw [stops]
        omega
    · exact whole (n := 0) done
termination_by cs.length

end Lexeme

end ModuleLinker
