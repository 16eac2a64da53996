import Mathlib.Data.List.TakeWhile
import ModuleLinker.Source.Scan
import ModuleLinker.Proofs.Source.Lexeme

/-!
# The tokens of a text lie in it

Every token that scanning gives is a piece of the text (`Token.IsPieceOf`), with its substitutions
inside it, and every token starts after the ones before it have stopped (`scan_pieces`).
-/

set_option autoImplicit false

namespace ModuleLinker

open Lexeme Text

/-- Whether a token is what scanning cuts off a text at its place. -/
def Token.IsCutFrom (t : Token) (source : List Char) : Prop :=
  ∃ regexAllowed c more found, source.drop t.start = c :: more ∧
    extent regexAllowed t.start c more = .ok found ∧ t.kind = found.kind ∧
    t.text.toList = c :: more.take found.more

/-- Whether a token and its substitutions are pieces of a text. -/
structure Token.IsPieceOf (t : Token) (source : List Char) : Prop where
  /-- The token is cut off the text. -/
  cut : t.IsCutFrom source
  /-- The token stands where it says. -/
  piece : t.text.toList <+: source.drop t.start
  /-- It takes at least one character. -/
  less : t.start < t.stop
  /-- Its substitutions lie inside it. -/
  holes : ∀ h ∈ t.holes, t.start < h.start ∧ h.stop < t.stop ∧ h.text <+: source.drop h.start
  /-- Only a template literal has any. -/
  plain : t.kind ≠ .template → t.holes = []

/-- Whether tokens are pieces of a text that follow each other. -/
structure ArePieces (tokens : List Token) (source : List Char) : Prop where
  /-- Every token is a piece. -/
  pieces : ∀ t ∈ tokens, t.IsPieceOf source
  /-- Every token starts after the ones before it have stopped. -/
  inOrder : tokens.Pairwise fun t t' => t.stop ≤ t'.start

namespace Lexeme

/-- Only a template literal has substitutions. -/
theorem extent_holes {regexAllowed : Bool} {pos : Nat} {c : Char} {cs : List Char} {found : Extent}
    (done : extent regexAllowed pos c cs = .ok found) :
    (found.kind ≠ .template ∧ found.holes = []) ∨
      (found.kind = .template ∧ ∃ stop, template pos (pos + 1) [] cs = .ok (stop, found.holes) ∧
        found.more = stop - (pos + 1)) := by
  unfold extent at done
  dsimp only at done
  split at done
  · split at done
    · cases done
    · cases done
      exact .inl ⟨by simp, rfl⟩
  split at done
  · obtain ⟨⟨stop, holes⟩, ends, done⟩ := bind_eq_ok.mp done
    cases done
    exact .inr ⟨rfl, stop, ends, rfl⟩
  split at done
  · cases done
    exact .inl ⟨by simp, rfl⟩
  split at done
  · split at done
    · cases done
      exact .inl ⟨by simp, rfl⟩
    · cases done
  split at done
  · split at done
    · cases done
    · cases done
      exact .inl ⟨by simp, rfl⟩
  split at done
  · cases done
    exact .inl ⟨by simp, rfl⟩
  split at done
  · cases done
  · cases done
    exact .inl ⟨by simp, rfl⟩

/-- No token starts with a space or a line end. -/
theorem extent_ne_blank {regexAllowed : Bool} {pos : Nat} {c : Char} {cs : List Char} {found : Extent}
    (done : extent regexAllowed pos c cs = .ok found) : c ≠ ' ' ∧ c ≠ '\n' ∧ c ≠ '\r' := by
  refine ⟨?_, ?_, ?_⟩ <;> rintro rfl <;> cases regexAllowed <;> cases done

/-- A name is cut off where its characters end. -/
theorem extent_ident {regexAllowed : Bool} {pos : Nat} {c : Char} {cs : List Char} {found : Extent}
    (done : extent regexAllowed pos c cs = .ok found) (ident : found.kind = .ident) :
    (isNameStart c = true ∨ c = '\\') ∧ found.more = nameLength cs := by
  unfold extent at done
  dsimp only at done
  split at done
  · split at done <;> cases done
    cases ident
  split at done
  · obtain ⟨⟨stop, holes⟩, -, done⟩ := bind_eq_ok.mp done
    cases done
    cases ident
  split at done
  · cases done
    cases ident
  split at done
  · split at done <;> cases done
    cases ident
  split at done
  · split at done <;> cases done
    cases ident
  split at done
  case isTrue starts =>
    cases done
    rw [Bool.or_eq_true, decide_eq_true_eq] at starts
    exact ⟨starts, rfl⟩
  · split at done <;> cases done
    cases ident

/-- A token that is cut off a text is a piece of it. -/
theorem isPieceOf_of_extent {regexAllowed : Bool} (newline : Bool) {start : Nat} {c : Char}
    {source more : List Char} {found : Extent} (place : source.drop start = c :: more)
    (done : extent regexAllowed start c more = .ok found) :
    Token.IsPieceOf ⟨found.kind, start, String.ofList (c :: more.take found.more), newline,
      found.holes⟩ source := by
  have length : (String.ofList (c :: more.take found.more)).length =
      min found.more more.length + 1 := by
    rw [String.length_ofList, List.length_cons, List.length_take]
  constructor
  · exact ⟨regexAllowed, c, more, found, place, done, rfl, String.toList_ofList⟩
  · rw [String.toList_ofList]
    change c :: _ <+: source.drop start
    rw [place, List.cons_prefix_cons]
    exact ⟨rfl, List.take_prefix ..⟩
  · rw [Token.stop, length]
    change start < start + _
    omega
  · intro h mem
    obtain ⟨-, none⟩ | ⟨-, stop, ends, size⟩ := extent_holes done
    · change h ∈ found.holes at mem
      rw [none] at mem
      cases mem
    · have ⟨less, le, new, same, lie⟩ := template_spec ends
      change h ∈ found.holes at mem
      rw [same, List.reverse_nil, List.nil_append] at mem
      obtain ⟨after, before, piece⟩ := lie h mem
      have rest : more = source.drop (start + 1) := by
        rw [← List.drop_drop, place, List.drop_succ_cons, List.drop_zero]
      rw [Token.stop, length, size]
      refine ⟨?_, ?_, ?_⟩
      · change start < h.start
        omega
      · change h.stop < start + _
        omega
      · rw [rest, List.drop_drop] at piece
        have there : start + 1 + (h.start - (start + 1)) = h.start := by omega
        rwa [there] at piece
  · intro other
    obtain ⟨-, none⟩ | ⟨isTemplate, -⟩ := extent_holes done
    · exact none
    · exact absurd isTemplate other

end Lexeme

/-- A name consists of the characters of names and of escapes. -/
theorem Token.IsCutFrom.mem_name {t : Token} {source : List Char} (cut : t.IsCutFrom source)
    (ident : t.kind = .ident) {c : Char} (mem : c ∈ t.text.toList) :
    isNamePart c = true ∨ c = '\\' := by
  obtain ⟨regexAllowed, first, more, found, -, done, kind, text⟩ := cut
  obtain ⟨starts, length⟩ := extent_ident done (kind.symm.trans ident)
  rw [text] at mem
  rcases List.mem_cons.mp mem with rfl | mem
  · exact starts.imp_left isNamePart_of_isNameStart
  · rw [length, nameLength, ← List.prefix_iff_eq_take.mp (List.takeWhile_prefix _)] at mem
    have part := List.mem_takeWhile_imp mem
    rwa [Bool.or_eq_true, beq_iff_eq] at part

/-- A token starts with a character of the text that is neither a space nor a line end. -/
theorem Token.IsCutFrom.first {t : Token} {source : List Char} (cut : t.IsCutFrom source) :
    ∃ c, source[t.start]? = some c ∧ c ≠ ' ' ∧ c ≠ '\n' ∧ c ≠ '\r' := by
  obtain ⟨regexAllowed, c, more, found, place, done, -, -⟩ := cut
  refine ⟨c, ?_, extent_ne_blank done⟩
  rw [← Nat.add_zero t.start, ← List.getElem?_drop, place, List.getElem?_cons_zero]

theorem ArePieces.nil (source : List Char) : ArePieces [] source :=
  ⟨fun _ mem => (by cases mem), .nil⟩

/-- A further piece follows the ones before it. -/
theorem ArePieces.concat {tokens : List Token} {source : List Char} {t : Token}
    (pieces : ArePieces tokens source) (piece : t.IsPieceOf source)
    (after : ∀ t' ∈ tokens, t'.stop ≤ t.start) : ArePieces (tokens ++ [t]) source := by
  constructor
  · intro t' mem
    rcases List.mem_append.mp mem with mem | mem
    · exact pieces.pieces t' mem
    · rw [List.mem_singleton.mp mem]
      exact piece
  · rw [List.pairwise_append]
    refine ⟨pieces.inOrder, List.pairwise_singleton .., fun t' mem t'' mem' => ?_⟩
    rw [List.mem_singleton.mp mem']
    exact after t' mem

/-- Scanning goes on with pieces behind those that it has. -/
theorem scanFrom_pieces {source cs : List Char} {pos : Nat} {done tokens : Array Token}
    (pieces : ArePieces done.toList source) (before : ∀ t ∈ done.toList, t.stop ≤ pos)
    (rest : cs = source.drop pos) (scanned : scanFrom done pos cs = .ok tokens) :
    ArePieces tokens.toList source := by
  rw [scanFrom] at scanned
  obtain ⟨space, -, scanned⟩ := bind_eq_ok.mp scanned
  split at scanned
  · cases scanned
    exact pieces
  case h_2 c more more_eq =>
    obtain ⟨found, cut, scanned⟩ := bind_eq_ok.mp scanned
    have place : source.drop (pos + space.length) = c :: more := by
      rw [← List.drop_drop, ← rest, more_eq]
    have piece := isPieceOf_of_extent space.newline place cut
    have shorter : (more.drop found.more).length < cs.length := by
      have length := congrArg List.length more_eq
      rw [List.length_drop, List.length_cons] at length
      rw [List.length_drop]
      omega
    refine scanFrom_pieces ?_ ?_ ?_ scanned
    · rw [Array.toList_push]
      refine pieces.concat piece fun t mem => ?_
      have stopped := before t mem
      change t.stop ≤ pos + space.length
      omega
    · rw [Array.toList_push]
      intro t mem
      rcases List.mem_append.mp mem with mem | mem
      · have stopped := before t mem
        omega
      · rw [List.mem_singleton.mp mem, Token.stop, String.length_ofList, List.length_cons,
          List.length_take]
        change pos + space.length + _ ≤ _
        omega
    · have after : source.drop (pos + space.length + 1) = more := by
        rw [← List.drop_drop, place, List.drop_succ_cons, List.drop_zero]
      rw [← after, List.drop_drop]
termination_by cs.length
decreasing_by exact shorter

/-- The tokens of a text are pieces of it, one after another. -/
theorem scan_pieces {source : List Char} {tokens : Array Token} (scanned : scan source = .ok tokens) :
    ArePieces tokens.toList source :=
  scanFrom_pieces (ArePieces.nil source) (fun _ mem => by cases mem) rfl scanned

end ModuleLinker
