import ModuleLinker.Proofs.Erase.Blame
import ModuleLinker.Proofs.Erase.Program
import ModuleLinker.Proofs.Source.Complaints
import ModuleLinker.Proofs.Source.Location
import ModuleLinker.Transpile

/-!
# Where complaints point

A complaint about a source text is one about the text itself or about a substitution in it, at any depth
(`exists_isComplaint`), and it points to the place where the fault lies, that of a substitution included:
the place in the substitution is moved by the characters, and so by the bytes, in front of it. Main
statement: `complaints_are_located`.
-/

set_option autoImplicit false

namespace ModuleLinker

namespace Erase

/-! ## Substitutions in a text -/

/-- The texts of the substitutions in a text, in their own substitutions too, and how many characters
come before each. -/
inductive IsWithin (source : List Char) : Nat → List Char → Prop
  /-- The text itself. -/
  | whole : IsWithin source 0 source
  /-- A substitution in a template literal of such a text. -/
  | substitution {start : Nat} {text : List Char} {p : Program} {t : Token} {h : Hole} :
    IsWithin source start text → Program.ofSource text = .ok p → t ∈ p.tokens → h ∈ t.holes →
      IsWithin source (start + h.start) h.text

theorem IsWithin.trans {source mid text : List Char} {start start' : Nat}
    (outer : IsWithin source start mid) (inner : IsWithin mid start' text) :
    IsWithin source (start + start') text := by
  induction inner with
  | whole => exact outer
  | substitution _ opened token inside ih =>
    rw [← Nat.add_assoc]
    exact .substitution ih opened token inside

/-- A substitution is a piece of the text that it lies in. -/
theorem IsWithin.isPiece {source text : List Char} {start : Nat} (within : IsWithin source start text) :
    text <+: source.drop start ∧ start + text.length ≤ source.length := by
  induction within with
  | whole => exact ⟨List.prefix_rfl, Nat.le_of_eq (Nat.zero_add _)⟩
  | @substitution start text p t h _ opened token inside ih =>
    obtain ⟨piece, fits⟩ := ih
    have read := Program.isRead_of_ofSource opened
    obtain ⟨rfl, -⟩ := Program.ofSource_eq_ok opened
    obtain ⟨-, before, hole⟩ := (read.piece token).holes h inside
    have stop := read.stop_le_length token
    unfold Hole.stop at before
    refine ⟨?_, by omega⟩
    rw [← List.drop_drop]
    exact hole.trans (piece.drop _)

/-! ## Complaints -/

/-- The complaints about a text that are not about one of its substitutions: of the scanner, about a
bracket, and of the eraser, about a token or the end of the text. -/
inductive IsComplaint (text : List Char) : SourceError → Prop
  /-- The text cannot be scanned. -/
  | unreadable {e : SourceError} : scan text = .error e → IsComplaint text e
  /-- The brackets of the text do not match. -/
  | unmatched {tokens : Array Token} {e : SourceError} :
    scan text = .ok tokens → matchBrackets tokens = .error e → IsComplaint text e
  /-- A construct of the text cannot be erased. -/
  | refused {p : Program} (i : Nat) (complaint : Complaint) :
    Program.ofSource text = .ok p → IsComplaint text ⟨p.offset i, complaint⟩

theorem isComplaint_of_ofSource {text : List Char} {e : SourceError}
    (failed : Program.ofSource text = .error e) : IsComplaint text e := by
  unfold Program.ofSource at failed
  cases scanned : scan text with
  | error e' =>
    rw [scanned] at failed
    cases failed
    exact .unreadable scanned
  | ok tokens =>
    rw [scanned] at failed
    cases paired : matchBrackets tokens with
    | error e' =>
      change (matchBrackets tokens >>= _) = _ at failed
      rw [paired] at failed
      cases failed
      exact .unmatched scanned paired
    | ok partners =>
      change (matchBrackets tokens >>= _) = _ at failed
      rw [paired] at failed
      cases failed

theorem IsComplaint.offset_le {text : List Char} {e : SourceError} (h : IsComplaint text e) :
    e.offset ≤ text.length := by
  cases h with
  | unreadable failed => exact scan_pointsInto text e failed
  | unmatched scanned failed => exact matchBrackets_pointsInto (scan_pieces scanned) e failed
  | refused i complaint opened =>
    have within := (Program.isRead_of_ofSource opened).offset_le_length i
    rwa [(Program.ofSource_eq_ok opened).1] at within

/-- What is said about a substitution is said about the text that it lies in. -/
theorem IsWithin.offset_le {source text : List Char} {start : Nat} {e : SourceError}
    (within : IsWithin source start text) (complaint : IsComplaint text e) :
    (e.shifted start).offset ≤ source.length := by
  have fits := within.isPiece.2
  have le := complaint.offset_le
  change e.offset + start ≤ _
  omega

/-- A complaint of the eraser is one about the text or a substitution in it, as it is in the text. -/
theorem exists_isComplaint {source : List Char} {e : SourceError}
    (failed : editsOf source = .error (.rejected e)) :
    ∃ start text e', IsWithin source start text ∧ IsComplaint text e' ∧ e = e'.shifted start := by
  rw [editsOf] at failed
  split at failed
  case h_1 e' opened =>
    cases failed
    exact ⟨0, source, e, .whole, isComplaint_of_ofSource opened, rfl⟩
  case h_2 p opened =>
    dsimp only at failed
    have blames := Program.walk_blames p (fun h =>
      if h.text.length < source.length then editsOf h.text else .ok []) p.tokens.size nowhere ⟨0, []⟩
    generalize Program.walk p _ _ _ _ = walked at failed blames
    cases walked with
    | ok s => cases failed
    | error failure =>
      cases failed
      cases blames e rfl with
      | token i complaint => exact ⟨0, source, _, .whole, .refused i complaint opened, rfl⟩
      | @substitution t h e' token inside refused =>
        split at refused
        case isFalse => cases refused
        case isTrue shorter =>
          obtain ⟨start, text, e'', within, complaint, rfl⟩ := exists_isComplaint refused
          have hole := IsWithin.substitution .whole opened token inside
          refine ⟨0 + h.start + start, text, e'', hole.trans within, complaint, ?_⟩
          simp only [SourceError.shifted, Nat.zero_add, Nat.add_comm start, Nat.add_assoc]
termination_by source.length

end Erase

open Erase

/-! ## Places -/

/-- Whether an offset is a place of a text: it lies between two characters or at an end, and its bytes
do not end inside a character. -/
structure IsPlace (source : List Char) (offset : Nat) : Prop where
  within : offset ≤ source.length
  bytes : byteOffset source offset ≤ byteLength source
  boundary : charOffset? source (byteOffset source offset) = some offset

theorem isPlace_of_le {source : List Char} {offset : Nat} (within : offset ≤ source.length) :
    IsPlace source offset where
  within := within
  bytes := by
    rw [← Checked.byteOffset_length source]
    exact Checked.byteOffset_le source within
  boundary := charOffset?_byteOffset within

/-- What a source text can be rejected by. -/
inductive IsRejected (source : List Char) : SourceError → Prop
  /-- The scanner. -/
  | scanned {e : SourceError} : scan source = .error e → IsRejected source e
  /-- The search for partners of brackets. -/
  | matched {tokens : Array Token} {e : SourceError} :
    scan source = .ok tokens → matchBrackets tokens = .error e → IsRejected source e
  /-- The search for static imports. -/
  | imported {e : SourceError} :
    staticImports (String.ofList source) = .error e → IsRejected source e
  /-- The eraser. -/
  | erased {e : SourceError} : erase source = .error (.rejected e) → IsRejected source e

theorem editsOf_of_erase {source : List Char} {failure : Failure} (failed : erase source = .error failure) :
    editsOf source = .error failure := by
  unfold erase at failed
  cases found : editsOf source with
  | error failure' =>
    rw [found] at failed
    exact congrArg Except.error (Except.error.inj failed)
  | ok edits =>
    rw [found] at failed
    cases failed

theorem scan_of_staticImports {source : List Char} {e : SourceError}
    (failed : staticImports (String.ofList source) = .error e) : scan source = .error e := by
  unfold staticImports at failed
  rw [String.toList_ofList] at failed
  cases scanned : scan source with
  | error e' =>
    rw [scanned] at failed
    exact congrArg Except.error (Except.error.inj failed)
  | ok tokens =>
    rw [scanned] at failed
    cases failed

theorem IsRejected.offset_le {source : List Char} {e : SourceError} (h : IsRejected source e) :
    e.offset ≤ source.length := by
  cases h with
  | scanned failed => exact scan_pointsInto source e failed
  | matched scanned failed => exact matchBrackets_pointsInto (scan_pieces scanned) e failed
  | imported failed => exact scan_pointsInto source e (scan_of_staticImports failed)
  | erased failed =>
    obtain ⟨start, text, e', within, complaint, rfl⟩ := exists_isComplaint (editsOf_of_erase failed)
    exact within.offset_le complaint

/-- A place in a piece of a text, as one of the text: the bytes in front of the piece are added, and the
same characters follow. -/
theorem shifted_place {source text : List Char} {start offset : Nat} (piece : text <+: source.drop start)
    (le : offset ≤ text.length) :
    byteOffset source (offset + start) = byteOffset source start + byteOffset text offset ∧
      text.drop offset <+: source.drop (offset + start) := by
  constructor
  · have front : (source.drop start).take offset = text.take offset :=
      (List.prefix_iff_eq_take.mp ((List.take_prefix offset text).trans piece)).symm ▸ by
        rw [List.length_take, Nat.min_eq_left le]
    rw [Checked.byteOffset_eq_add source (Nat.le_add_left start offset), Nat.add_sub_cancel, front]
    rfl
  · rw [Nat.add_comm, ← List.drop_drop]
    exact piece.drop offset

/-- Complaints point at places of the text. One of the scanner, about brackets, of the search for imports
or of the eraser has an offset in the text that lies between two characters; one of the eraser is about the
text or about a substitution in it, at any depth, and points to where it lies there; and a module is
refused with the line and the column of the place. The line counts the line ends before the place, and the
column the characters since the last of them; places come in the order of the offsets. -/
theorem complaints_are_located (source : List Char) :
    (∀ e, IsRejected source e → IsPlace source e.offset) ∧
    (∀ e, erase source = .error (.rejected e) →
      (∃ start text e', IsWithin source start text ∧ IsComplaint text e' ∧ e = e'.shifted start ∧
        byteOffset source e.offset = byteOffset source start + byteOffset text e'.offset ∧
        text.drop e'.offset <+: source.drop e.offset) ∧
      ∀ specifier, transpile specifier (String.ofList source) .typeScript =
        .error (.transpile specifier (.ofByteOffset source (byteOffset source e.offset))
          e.complaint.message)) ∧
    (∀ offset, offset ≤ source.length →
      Location.ofByteOffset source (byteOffset source offset) =
        ⟨(source.take offset).count '\n' + 1,
          ((source.take offset).reverse.takeWhile (· != '\n')).length + 1⟩) ∧
    ∀ bytes bytes' m n, charOffset? source bytes = some m → charOffset? source bytes' = some n →
      bytes < bytes' →
        (Location.ofByteOffset source bytes).Precedes (Location.ofByteOffset source bytes') := by
  refine ⟨fun e rejected => isPlace_of_le rejected.offset_le, fun e failed => ⟨?_, fun specifier => ?_⟩,
    fun offset within => ?_, fun _ _ _ _ => Location.precedes_ofByteOffset⟩
  · obtain ⟨start, text, e', within, complaint, rfl⟩ := exists_isComplaint (editsOf_of_erase failed)
    have place := shifted_place within.isPiece.1 complaint.offset_le
    exact ⟨start, text, e', within, complaint, rfl, place⟩
  · have within := (IsRejected.erased failed).offset_le
    unfold transpile
    dsimp only
    rw [String.toList_ofList, failed, Location.ofByteOffset_byteOffset within]
  · rw [Location.ofByteOffset_byteOffset within, Location.ofOffset_eq]

set_option maxRecDepth 10000 in
/-- A type that is missing at the end of a substitution in a substitution is missed where that one ends. -/
theorem complaints_are_located_nested :
    transpile "a.ts" "é\n`$\x7b`é$\x7bb as\x7d`\x7d`" .typeScript =
      .error (.transpile "a.ts" ⟨2, 12⟩ "Type expected") := by
  have failed : erase "é\n`$\x7b`é$\x7bb as\x7d`\x7d`".toList =
      .error (.rejected ⟨13, .typeExpected⟩) := by
    cbv
  have place : Location.ofByteOffset "é\n`$\x7b`é$\x7bb as\x7d`\x7d`".toList
      (byteOffset "é\n`$\x7b`é$\x7bb as\x7d`\x7d`".toList 13) = ⟨2, 12⟩ := by
    decide
  have located := ((complaints_are_located _).2.1 _ failed).2 "a.ts"
  rw [String.ofList_toList, place] at located
  exact located

end ModuleLinker
