import Mathlib.Data.List.Basic
import Mathlib.Data.List.Induction
import ModuleLinker.Proofs.Url.Path
import ModuleLinker.Specifier

/-!
# Ways through directories

The names that are left of a path when each pair of dots takes the name before it away (`lexical`), and
those that are left when the path is read as one of a file URL (`Way.walk`): there a drive letter is
never taken away, and one at the root is written with a colon once the path has led above the root. The
two are the same exactly where a path does neither (`Way.names_walk_iff`): a drive letter that should have
gone stays for good.
-/

set_option autoImplicit false

namespace ModuleLinker.Specifier

open Url

/-- The name that stands for the directory above. -/
def dots : List Char := ['.', '.']

/-- What a name adds to a path, or takes away from it. -/
def lexicalStep (names : List (List Char)) (name : List Char) : List (List Char) :=
  if name = dots then names.dropLast else names ++ [name]

/-- The names that are left of a path when each pair of dots takes the name before it away. -/
def lexical (path : List (List Char)) : List (List Char) := path.foldl lexicalStep []

/-- How far a path of a file URL has been read. -/
structure Way where
  /-- The names that are left. -/
  names : List (List Char)
  /-- Whether the path has led above the root. -/
  above : Bool

namespace Way

/-- The start of a path. -/
def root : Way := ⟨[], false⟩

/-- Reads a name. -/
def step (w : Way) (name : List Char) : Way :=
  if name = dots then
    match w.names.getLast? with
    | none => { w with above := true }
    | some last => if Path.isDriveLetter last then w else { w with names := w.names.dropLast }
  else if w.above && w.names.isEmpty && Path.isDriveLetter name then
    { w with names := [name.take 1 ++ [':']] }
  else { w with names := w.names ++ [name] }

/-- Reads the names of a path. -/
def walk (path : List (List Char)) : Way := path.foldl step root

/-- Whether a name is read as it is: no drive letter is to be taken away or written with a colon. -/
def keeps (w : Way) (name : List Char) : Bool :=
  if name = dots then !w.names.getLast?.any Path.isDriveLetter
  else !(w.above && w.names.isEmpty && Path.isDriveLetter name && !Path.isNormalDriveLetter name)

/-- Whether all names of a path are read as they are. -/
def isSteady (w : Way) : List (List Char) → Bool
  | [] => true
  | name :: path => w.keeps name && (w.step name).isSteady path

variable {w : Way} {name : List Char} {path : List (List Char)}

/-! ## Paths that are read as they are -/

theorem names_step_of_keeps (h : w.keeps name = true) :
    (w.step name).names = lexicalStep w.names name := by
  unfold keeps at h
  unfold step lexicalStep
  split
  case isTrue here =>
    rw [if_pos here] at h
    cases last : w.names.getLast? with
    | none => rw [List.getLast?_eq_none_iff.mp last, List.dropLast_nil]
    | some drive =>
      rw [last] at h
      have other : Path.isDriveLetter drive = false := by simpa using h
      simp only [other, Bool.false_eq_true, if_false]
  case isFalse here =>
    rw [if_neg here] at h
    split
    case isFalse => rfl
    case isTrue drive =>
      rw [drive, Bool.true_and, Bool.not_not] at h
      simp only [Bool.and_eq_true, List.isEmpty_iff] at drive
      obtain ⟨letter, rfl, -⟩ := Path.exists_of_isNormalDriveLetter h
      rw [drive.1.2]
      rfl

theorem names_foldl_of_isSteady (h : w.isSteady path = true) :
    (path.foldl step w).names = path.foldl lexicalStep w.names := by
  induction path generalizing w with
  | nil => rfl
  | cons name path ih =>
    rw [isSteady, Bool.and_eq_true] at h
    rw [List.foldl_cons, List.foldl_cons, ih h.2, names_step_of_keeps h.1]

/-! ## Paths that are not -/

/-- Some names are more than others, or they begin with others, up to a drive letter. -/
structure IsApart (front : List (List Char)) (drive : List Char) (names names' : List (List Char)) :
    Prop where
  begins : front ++ [drive] <+: names
  isDrive : Path.isDriveLetter drive = true
  length : names'.length ≤ names.length
  other : names'.length = names.length → ¬ front ++ [drive] <+: names'

theorem IsApart.ne {front : List (List Char)} {drive : List Char} {names names' : List (List Char)}
    (h : IsApart front drive names names') : names ≠ names' := by
  rintro rfl
  exact h.other rfl h.begins

/-- Names that are apart stay so: the drive letter is not taken away. -/
theorem IsApart.step {front names' : List (List Char)} {drive : List Char}
    (h : IsApart front drive w.names names') (name : List Char) :
    IsApart front drive (w.step name).names (lexicalStep names' name) := by
  have begins := h.begins
  have length := h.length
  have long := begins.length_le
  rw [List.length_append, List.length_singleton] at long
  unfold Way.step lexicalStep
  split
  case isTrue =>
    rcases List.eq_nil_or_concat' w.names with none | ⟨init, last, same⟩
    · rw [none, List.length_nil] at long
      omega
    · rw [same, List.length_append, List.length_singleton] at length long
      rw [same, List.prefix_concat_iff] at begins
      have other := h.other
      rw [same, List.length_append, List.length_singleton] at other
      rw [same, List.getLast?_concat]
      dsimp only
      split
      case isTrue =>
        rw [same]
        refine ⟨List.prefix_concat_iff.mpr begins, h.isDrive, ?_, fun all => ?_⟩
        · rw [List.length_dropLast, List.length_append, List.length_singleton]
          omega
        · rw [List.length_dropLast, List.length_append, List.length_singleton] at all
          omega
      case isFalse away =>
        -- The last name is not the drive letter, so that the drive letter is before it.
        have before : front ++ [drive] <+: init := by
          refine begins.resolve_left fun whole => away ?_
          rw [← (List.append_inj_right' whole rfl |> List.singleton_inj.mp), h.isDrive]
        rw [List.dropLast_concat]
        refine ⟨before, h.isDrive, ?_, fun all inside => ?_⟩
        · rw [List.length_dropLast]
          dsimp only
          omega
        · rw [List.length_dropLast] at all
          dsimp only at all
          have room := before.length_le
          rw [List.length_append, List.length_singleton] at room
          exact other (by omega) (inside.trans (List.dropLast_prefix _))
  case isFalse =>
    have filled : w.names.isEmpty = false := by
      rw [List.isEmpty_eq_false_iff, ← List.length_pos_iff]
      omega
    rw [filled, Bool.and_false, Bool.false_and, if_neg Bool.false_ne_true]
    refine ⟨begins.trans (List.prefix_append _ _), h.isDrive, ?_, fun all inside => ?_⟩
    · simpa using length
    · dsimp only at all
      rw [List.length_append, List.length_append, List.length_singleton,
        Nat.add_right_cancel_iff] at all
      refine h.other all (List.prefix_of_prefix_length_le inside (List.prefix_append _ _) ?_)
      rw [all]
      exact h.begins.length_le

theorem IsApart.foldl {front names' : List (List Char)} {drive : List Char}
    (h : IsApart front drive w.names names') :
    IsApart front drive (path.foldl Way.step w).names (path.foldl lexicalStep names') := by
  induction path generalizing w names' with
  | nil => exact h
  | cons name path ih => exact ih (h.step name)

/-- A name that is not read as it is leaves names that are apart. -/
theorem exists_isApart (h : w.keeps name = false) :
    ∃ front drive, IsApart front drive (w.step name).names (lexicalStep w.names name) := by
  unfold keeps at h
  unfold Way.step lexicalStep
  split
  case isTrue here =>
    rw [if_pos here] at h
    rcases List.eq_nil_or_concat' w.names with none | ⟨init, last, same⟩
    · rw [none] at h
      cases h
    · rw [same, List.getLast?_concat, Option.any_some, Bool.not_eq_false'] at h
      rw [same, List.getLast?_concat, List.dropLast_concat]
      dsimp only
      rw [if_pos h, same]
      refine ⟨init, last, List.prefix_rfl, h, ?_, fun all => ?_⟩
      · simp
      · simp at all
  case isFalse here =>
    rw [if_neg here, Bool.not_eq_false', Bool.and_eq_true] at h
    obtain ⟨drive, bar⟩ := h
    rw [if_pos drive]
    simp only [Bool.and_eq_true, List.isEmpty_iff] at drive
    obtain ⟨letter, mark, rfl, alpha⟩ := Path.exists_of_isDriveLetter drive.2
    have other : mark ≠ ':' := by
      rintro rfl
      simp [Path.isNormalDriveLetter, drive.2] at bar
    rw [drive.1.2]
    refine ⟨[], [letter, ':'], ⟨List.prefix_rfl, ?_, le_rfl, fun _ inside => ?_⟩⟩
    · simp [Path.isDriveLetter, alpha]
    · have same := List.singleton_inj.mp (inside.eq_of_length rfl)
      simp only [List.cons.injEq, and_true, true_and] at same
      exact other same.symm

/-- The names that are left of a path are those of its lexical form exactly where each name is read as it
is. -/
theorem names_foldl_iff :
    (path.foldl step w).names = path.foldl lexicalStep w.names ↔ w.isSteady path = true := by
  refine ⟨fun same => ?_, names_foldl_of_isSteady⟩
  induction path generalizing w with
  | nil => rfl
  | cons name path ih =>
    rw [List.foldl_cons, List.foldl_cons] at same
    rw [isSteady, Bool.and_eq_true]
    cases kept : w.keeps name with
    | true =>
      rw [← names_step_of_keeps kept] at same
      exact ⟨rfl, ih same⟩
    | false =>
      obtain ⟨front, drive, apart⟩ := exists_isApart kept
      exact absurd same apart.foldl.ne

theorem names_walk_iff : (walk path).names = lexical path ↔ root.isSteady path = true :=
  names_foldl_iff

/-! ## Names that are left -/

theorem mem_lexical (mem : name ∈ lexical path) : name ∈ path ∧ name ≠ dots := by
  induction path using List.reverseRecOn with
  | nil => cases mem
  | append_singleton path last ih =>
    rw [lexical, List.foldl_concat, lexicalStep] at mem
    split at mem
    case isTrue =>
      exact (ih (List.dropLast_subset _ mem)).imp_left (List.mem_append_left _)
    case isFalse other =>
      rcases List.mem_append.mp mem with mem | mem
      · exact (ih mem).imp_left (List.mem_append_left _)
      · rw [List.mem_singleton.mp mem]
        exact ⟨List.mem_concat_self, other⟩

/-- Names without dots are left as they are. -/
theorem walk_of_forall (h : ∀ name ∈ path, name ≠ dots) : walk path = ⟨path, false⟩ := by
  induction path using List.reverseRecOn with
  | nil => rfl
  | append_singleton path last ih =>
    rw [List.forall_mem_append, List.forall_mem_singleton] at h
    have before := ih h.1
    unfold walk at before ⊢
    rw [List.foldl_concat, before, step, if_neg h.2]
    rfl

/-- The names that are left of a path are not empty. -/
theorem filled_walk (filled : ∀ name ∈ path, name ≠ []) :
    ∀ name ∈ (walk path).names, name ≠ [] := by
  induction path using List.reverseRecOn with
  | nil => simp [walk, root]
  | append_singleton path last ih =>
    rw [List.forall_mem_append, List.forall_mem_singleton] at filled
    have before := ih filled.1
    unfold walk at before ⊢
    rw [List.foldl_concat, step]
    split
    · split
      · exact before
      · split
        · exact before
        · exact fun name mem => before name (List.dropLast_subset _ mem)
    · split
      · simp
      · rw [List.forall_mem_append, List.forall_mem_singleton]
        exact ⟨before, filled.2⟩

end Way

end ModuleLinker.Specifier
