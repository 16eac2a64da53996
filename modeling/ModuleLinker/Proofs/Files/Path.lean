import Mathlib.Data.List.Basic
import ModuleLinker.Files.Volume
import ModuleLinker.Proofs.Text.Split

/-!
# Paths below a directory

The path of something in a directory has the names of the directory and one more, and the directory is
the parent of it. This is said of ordinary names: those that a directory can have an entry under. The
path that several names make has them as its components (`components_joinAll`).
-/

set_option autoImplicit false

namespace ModuleLinker.Files

open Text

/-- A name that stands for an entry of a directory. -/
structure IsName (name : String) : Prop where
  filled : name ≠ ""
  dot : name ≠ "."
  dots : name ≠ ".."
  slash : '/' ∉ name.toList
  nul : '\x00' ∉ name.toList

/-- Whether a path can have a name behind it: it is not empty and does not end in a slash. -/
structure IsClosed (path : String) : Prop where
  filled : path ≠ ""
  slash : path.toList.getLast? ≠ some '/'

section Join

variable {directory name : String}

theorem IsName.toList_ne_nil (h : IsName name) : name.toList ≠ [] :=
  fun none => h.filled (String.toList_eq_nil_iff.mp none)

theorem isAbsolute_of_not_mem (slash : '/' ∉ name.toList) : isAbsolute name = false := by
  unfold isAbsolute
  cases first : name.toList with
  | nil => rfl
  | cons c cs =>
    rw [first, List.mem_cons, not_or] at slash
    simpa using Ne.symm slash.1

theorem IsName.not_isAbsolute (h : IsName name) : isAbsolute name = false :=
  isAbsolute_of_not_mem h.slash

/-- A name without a slash is the path of itself. -/
theorem join_empty (slash : '/' ∉ name.toList) : join "" name = name := by
  unfold join
  rw [if_neg (by rw [isAbsolute_of_not_mem slash]; exact Bool.false_ne_true), if_pos (by decide)]
  exact String.empty_append

/-- The path of something in a directory: there is one slash between them. -/
theorem toList_join (h : IsName name) (directory : String) :
    (join directory name).toList = directory.toList ++ name.toList ∧
        (directory = "" ∨ directory.toList.getLast? = some '/') ∨
      (join directory name).toList = directory.toList ++ '/' :: name.toList := by
  unfold join
  rw [if_neg (by rw [h.not_isAbsolute]; exact Bool.false_ne_true)]
  split
  case isTrue open_ =>
    left
    rw [String.toList_append]
    refine ⟨rfl, ?_⟩
    simpa using open_
  case isFalse =>
    right
    rw [String.toList_append, String.toList_append, List.append_assoc]
    rfl

theorem toList_join_of_isClosed (h : IsName name) (closed : IsClosed directory) :
    (join directory name).toList = directory.toList ++ '/' :: name.toList := by
  rcases toList_join h directory with ⟨-, none | slash⟩ | same
  · exact absurd none closed.filled
  · exact absurd slash closed.slash
  · exact same

theorem isClosed_join (h : IsName name) (directory : String) : IsClosed (join directory name) := by
  obtain ⟨start, split⟩ : ∃ start, (join directory name).toList = start ++ name.toList := by
    rcases toList_join h directory with ⟨same, -⟩ | same
    · exact ⟨_, same⟩
    · exact ⟨directory.toList ++ ['/'], by rw [same, List.append_assoc]; rfl⟩
  constructor
  · intro none
    rw [none] at split
    exact h.toList_ne_nil (List.append_eq_nil_iff.mp split.symm).2
  · rw [split, List.getLast?_append_of_ne_nil _ h.toList_ne_nil]
    intro last
    exact h.slash (List.mem_of_getLast? last)

theorem names_append_cons (a b : List Char) :
    Volume.names (String.ofList (a ++ '/' :: b)) =
      Volume.names (String.ofList a) ++ Volume.names (String.ofList b) := by
  unfold Volume.names
  rw [String.toList_ofList, String.toList_ofList, String.toList_ofList, splitAt_append_cons,
    List.map_append, List.filter_append]

theorem names_of_isName (h : IsName name) : Volume.names name = [name] := by
  have kept : (!(name.isEmpty || name == ".")) = true := by
    simp [h.filled, h.dot]
  unfold Volume.names
  rw [splitAt_of_not_mem h.slash, List.map_singleton, String.ofList_toList, List.filter_cons,
    if_pos kept, List.filter_nil]

/-- The names of something in a directory are those of the directory and one more. -/
theorem names_join (h : IsName name) (directory : String) :
    Volume.names (join directory name) = Volume.names directory ++ [name] := by
  have last := names_of_isName h
  rcases toList_join h directory with ⟨same, rfl | slash⟩ | same
  · rw [join_empty h.slash, last]
    rfl
  · obtain ⟨start, split⟩ : ∃ start, directory.toList = start ++ ['/'] := by
      exact List.getLast?_eq_some_iff.mp slash
    have whole : join directory name = String.ofList (start ++ '/' :: name.toList) := by
      rw [← String.toList_inj, String.toList_ofList, same, split, List.append_assoc]
      rfl
    have part : directory = String.ofList (start ++ '/' :: []) := by
      rw [← String.toList_inj, String.toList_ofList, split]
    have empty : Volume.names (String.ofList []) = [] := by decide
    rw [whole, names_append_cons, String.ofList_toList, last, part, names_append_cons, empty,
      List.append_nil]
  · have whole : join directory name = String.ofList (directory.toList ++ '/' :: name.toList) := by
      rw [← String.toList_inj, String.toList_ofList, same]
    rw [whole, names_append_cons, String.ofList_toList, String.ofList_toList, last]

/-- Something in a directory starts from where the directory starts. -/
theorem isAbsolute_join (h : IsName name) (directory : String) :
    isAbsolute (join directory name) = isAbsolute directory := by
  by_cases none : directory = ""
  · subst none
    rw [join_empty h.slash, h.not_isAbsolute]
    rfl
  · have some : directory.toList ≠ [] := fun empty => none (String.toList_eq_nil_iff.mp empty)
    unfold isAbsolute
    rcases toList_join h directory with ⟨same, -⟩ | same <;>
      rw [same, List.head?_append_of_ne_nil _ some]

theorem namesDirectory_join (h : IsName name) (directory : String) :
    Volume.namesDirectory (join directory name) = false := by
  obtain ⟨start, split⟩ : ∃ start, splitAt '/' (join directory name).toList =
      start ++ [name.toList] := by
    have last := splitAt_of_not_mem h.slash
    rcases toList_join h directory with ⟨same, rfl | slash⟩ | same
    · exact ⟨[], by rw [same]; exact last⟩
    · obtain ⟨front, split⟩ : ∃ front, directory.toList = front ++ ['/'] :=
        List.getLast?_eq_some_iff.mp slash
      refine ⟨splitAt '/' front, ?_⟩
      rw [same, split, List.append_assoc, List.singleton_append, splitAt_append_cons, last]
    · refine ⟨splitAt '/' directory.toList, ?_⟩
      rw [same, splitAt_append_cons, last]
  unfold Volume.namesDirectory
  rw [split, List.getLast?_concat]
  split
  case h_1 same => exact absurd (Option.some.inj same) h.toList_ne_nil
  case h_2 same => exact absurd (String.toList_inj.mp (Option.some.inj same)) h.dot
  case h_3 same => exact absurd (String.toList_inj.mp (Option.some.inj same)) h.dots
  case h_4 => rfl

/-- The parent of something in a directory is the directory. -/
theorem parent_join (h : IsName name) (closed : IsClosed directory) :
    parent (join directory name) = directory := by
  have some : directory.toList ≠ [] :=
    fun empty => closed.filled (String.toList_eq_nil_iff.mp empty)
  have plain : ∀ c ∈ name.toList.reverse, (!(c == '/')) = true := by
    intro c mem
    rw [List.mem_reverse] at mem
    have other : c ≠ '/' := by
      rintro rfl
      exact h.slash mem
    simpa using other
  have first {cs : List Char} (rest : List Char) (last : cs.getLast? ≠ .some '/') (filled : cs ≠ []) :
      (cs.reverse ++ rest).dropWhile (· == '/') = cs.reverse ++ rest := by
    obtain ⟨front, c, rfl⟩ : ∃ front c, cs = front ++ [c] :=
      ⟨_, _, (List.dropLast_append_getLast filled).symm⟩
    rw [List.getLast?_concat] at last
    have other : c ≠ '/' := fun same => last (by rw [same])
    simp [other]
  have nameLast : name.toList.getLast? ≠ .some '/' := fun last =>
    h.slash (List.mem_of_getLast? last)
  unfold parent
  rw [toList_join_of_isClosed h closed]
  dsimp only
  rw [List.reverse_append, List.reverse_cons, List.append_assoc, List.singleton_append,
    first _ nameLast h.toList_ne_nil, List.dropWhile_append_of_pos plain]
  have slash : ('/' :: directory.toList.reverse).dropWhile (fun c => !(c == '/')) =
      '/' :: directory.toList.reverse := by simp
  rw [slash]
  have rest : ('/' :: directory.toList.reverse).dropWhile (· == '/') = directory.toList.reverse := by
    rw [List.dropWhile_cons_of_pos (by decide)]
    simpa using first [] closed.slash some
  rw [rest]
  cases back : directory.toList.reverse with
  | nil => exact absurd (List.reverse_eq_nil_iff.mp back) some
  | cons c cs =>
    dsimp only
    rw [← back, List.reverse_reverse, String.ofList_toList]

end Join

/-! ## Several names -/

theorem joinAll_spec {names : List String} (h : ∀ name ∈ names, IsName name) {directory : String}
    (closed : IsClosed directory) : IsClosed (joinAll directory names) ∧
      isAbsolute (joinAll directory names) = isAbsolute directory ∧
      Volume.names (joinAll directory names) = Volume.names directory ++ names := by
  induction names generalizing directory with
  | nil => exact ⟨closed, rfl, (List.append_nil _).symm⟩
  | cons name names ih =>
    have first := h name List.mem_cons_self
    have rest := ih (fun name' mem => h name' (List.mem_cons_of_mem name mem))
      (isClosed_join first directory)
    rw [isAbsolute_join first, names_join first, List.append_assoc] at rest
    exact rest

theorem joinAll_concat (directory name : String) (names : List String) :
    joinAll directory (names ++ [name]) = join (joinAll directory names) name :=
  List.foldl_concat ..

/-- The pieces of the path that some names lead to from a directory. -/
theorem splitAt_joinAll {names : List String} (h : ∀ name ∈ names, IsName name) {directory : String}
    (closed : IsClosed directory) : splitAt '/' (joinAll directory names).toList =
      splitAt '/' directory.toList ++ names.map String.toList := by
  induction names generalizing directory with
  | nil => exact (List.append_nil _).symm
  | cons name names ih =>
    have first := h name List.mem_cons_self
    have rest := ih (fun name' mem => h name' (List.mem_cons_of_mem name mem))
      (isClosed_join first directory)
    rw [toList_join_of_isClosed first closed, splitAt_append_cons,
      splitAt_of_not_mem first.slash, List.append_assoc] at rest
    exact rest

/-- A name without a slash can have others behind it. -/
theorem isClosed_of_not_mem {name : String} (filled : name ≠ "") (slash : '/' ∉ name.toList) :
    IsClosed name :=
  ⟨filled, fun last => slash (List.mem_of_getLast? last)⟩

/-- Names are the components of the path that they make. The first one can be a single dot. -/
theorem components_joinAll {name : String} {names : List String} (filled : name ≠ "")
    (slash : '/' ∉ name.toList) (h : ∀ name ∈ names, IsName name) :
    components (joinAll "" (name :: names)) = name :: names := by
  have path : joinAll "" (name :: names) = joinAll name names := by
    rw [joinAll, List.foldl_cons, join_empty slash, joinAll]
  have closed := isClosed_of_not_mem filled slash
  have pieces : (splitAt '/' (joinAll name names).toList).map String.ofList = name :: names := by
    rw [splitAt_joinAll h closed, splitAt_of_not_mem slash, List.map_append, List.map_map]
    simp [Function.comp_def]
  have root : isAbsolute (joinAll name names) = false := by
    rw [(joinAll_spec h closed).2.1, isAbsolute_of_not_mem slash]
  have kept : names.filter (fun name => !(name.isEmpty || name == ".")) = names := by
    rw [List.filter_eq_self]
    intro name mem
    simp [(h name mem).filled, (h name mem).dot]
  unfold components
  dsimp only
  rw [path, pieces, root, List.filter_cons, kept]
  by_cases dot : name = "."
  · simp [dot]
  · simp [dot, filled]

end ModuleLinker.Files
