import Mathlib
import ModuleLinker.Proofs.Files.Volume

/-!
# Taking away, making again and listing

What is left of a tree of directories and files when a part of it is taken away. Making the directories
on a path brings back exactly those that are missing (`Volume.makeBelow_restores`). Where no place has two entries
(`Volume.IsTable`), the files below a directory are listed once each (`Volume.mem_filesFrom`,
`Volume.nodup_filesFrom`), and every change of a file system keeps it so.
-/

set_option autoImplicit false

namespace ModuleLinker.Files

namespace Volume

variable {u v w : Volume} {place : List String}

/-! ## Taking away -/

theorem IsTree.erase (tree : v.IsTree) (some : place ≠ []) : (v.erase place).IsTree := by
  intro q name found
  rw [get?_erase v some] at found ⊢
  have apart : ¬ place <+: q ++ [name] := by
    intro below
    rw [if_pos below] at found
    exact found rfl
  rw [if_neg apart] at found
  rw [if_neg]
  · exact tree q name found
  · intro below
    exact apart (below.trans (List.prefix_append q [name]))

/-- There is nothing below an empty directory. -/
theorem IsTree.get?_below (tree : v.IsTree) (empty : ∀ name, v.get? (place ++ [name]) = none)
    {below : List String} (some : below ≠ []) : v.get? (place ++ below) = none := by
  obtain ⟨first, rest, rfl⟩ := List.exists_cons_of_ne_nil some
  by_contra found
  by_cases last : rest = []
  · rw [last] at found
    exact found (empty first)
  · rw [List.append_cons] at found
    have directory := tree.isDirectory last found
    rw [empty first] at directory
    cases directory

theorem IsTree.get?_below_file (tree : v.IsTree) {content : ByteArray}
    (file : v.get? place = some (.file content)) {below : List String} (some : below ≠ []) :
    v.get? (place ++ below) = none := by
  by_contra found
  have directory := tree.isDirectory some found
  rw [file] at directory
  cases directory

/-- Nothing but a file is gone when it is taken away. -/
theorem get?_erase_file (tree : v.IsTree) {content : ByteArray}
    (file : v.get? place = some (.file content)) (q : List String) :
    (v.erase place).get? q = if q = place then none else v.get? q := by
  have some : place ≠ [] := by
    rintro rfl
    cases file
  rw [get?_erase v some]
  by_cases same : q = place
  · rw [if_pos same, if_pos (same ▸ List.prefix_rfl)]
  · rw [if_neg same]
    split
    case isTrue below =>
      obtain ⟨rest, rfl⟩ := below
      symm
      apply tree.get?_below_file file
      rintro rfl
      simp at same
    case isFalse => rfl

theorem keeps_erase_file (tree : v.IsTree) {content : ByteArray}
    (file : v.get? place = some (.file content)) : v.Keeps (v.erase place) := by
  refine ⟨rfl, rfl, fun q found => ?_⟩
  rw [get?_erase_file tree file, if_neg, found]
  rintro rfl
  rw [file] at found
  cases found

/-- A file can be written over. -/
theorem IsTree.set_file (tree : v.IsTree) {content : ByteArray}
    (file : v.get? place = some (.file content)) (content' : ByteArray) :
    (v.set place (.file content')).IsTree ∧ v.Keeps (v.set place (.file content')) := by
  have filled : place ≠ [] := by
    rintro rfl
    cases file
  have kept (q : List String) (directory : v.get? q = some .directory) :
      (v.set place (.file content')).get? q = some .directory := by
    rw [get?_set v filled, if_neg, directory]
    rintro rfl
    rw [file] at directory
    cases directory
  refine ⟨fun q name found => kept q (tree q name ?_), rfl, rfl, kept⟩
  rw [get?_set v filled] at found
  split at found
  case isTrue here => simp [here, file]
  case isFalse => exact found

/-! ## Making directories again -/

/-- Where some directories of a file system are missing and nothing else is in their place, the directory
that names lead to in that file system can be made, and no other directories than those are new. -/
theorem makeBelow_restores {names q : List String} (limits : w.limits = u.limits)
    (free : ∀ q, u.get? q = some .directory → w.get? q = some .directory ∨ w.get? q = none)
    (followed : u.follow place names = .ok q) (directory : u.get? q = some .directory)
    (here : names = [] → w.get? place = some .directory) :
    ∃ x, w.makeBelow place names = (.ok (), x) ∧
      w.Extends x (fun p e => e = .directory ∧ u.get? p = some .directory) ∧
      x.get? q = some .directory := by
  induction names generalizing w place with
  | nil =>
    cases followed
    exact ⟨w, rfl, .refl w _, here rfl⟩
  | cons name names ih =>
    rw [Volume.follow] at followed
    cases found : u.get? place with
    | none => simp [found] at followed
    | some entry =>
      cases entry with
      | file content => simp [found] at followed
      | directory =>
        simp only [found] at followed
        split at followed
        · cases followed
        case isFalse short =>
          rw [makeBelow, limits, if_neg short]
          dsimp only
          generalize (if (name == "..") = true then place.dropLast else place ++ [name]) = next
            at followed
          have target : u.get? next = some .directory := by
            cases names with
            | nil =>
              cases followed
              exact directory
            | cons name' names =>
              rw [Volume.follow] at followed
              cases found' : u.get? next with
              | none => simp [found'] at followed
              | some entry =>
                cases entry with
                | file content => simp [found'] at followed
                | directory => rfl
          rcases free next target with there | missing
          · rw [there]
            exact ih limits free followed fun _ => there
          · have filled : next ≠ [] := by
              rintro rfl
              cases missing
            have extended := extends_set filled missing .directory
            have there : (w.set next .directory).get? next = some .directory := by
              rw [get?_set w filled, if_pos rfl]
            have again (p : List String) (found : u.get? p = some .directory) :
                (w.set next .directory).get? p = some .directory ∨
                  (w.set next .directory).get? p = none := by
              rw [get?_set w filled]
              split
              · exact .inl rfl
              · exact free p found
            have limits' : (w.set next .directory).limits = u.limits := limits
            obtain ⟨x, made, extended', found⟩ := ih limits' again followed fun _ => there
            rw [missing]
            refine ⟨x, made, Extends.trans (extended.mono ?_) extended', found⟩
            rintro p e ⟨rfl, rfl⟩
            exact ⟨rfl, target⟩

/-- A tree in which a directory has been made empty is a tree. -/
theorem IsTree.emptied (tree : v.IsTree) (directory : v.get? place = some .directory)
    (same : ∀ q, w.get? q =
      if q = place then some .directory else if place <+: q then none else v.get? q) : w.IsTree := by
  intro q name found
  rw [same] at found ⊢
  by_cases here : q ++ [name] = place
  · -- The directory above the one that has been made empty.
    have above : v.get? q = some .directory := by
      apply tree q name
      rw [here, directory]
      exact Option.some_ne_none _
    have apart : ¬ place <+: q := by
      intro below
      have short := below.length_le
      rw [← here, List.length_append, List.length_singleton] at short
      omega
    rw [if_neg apart]
    split
    · rfl
    · exact above
  · rw [if_neg here] at found
    split at found
    · exact absurd rfl found
    case isFalse apart =>
      have apart' : ¬ place <+: q := fun below => apart (below.trans (List.prefix_append q [name]))
      rw [if_neg apart']
      split
      · rfl
      · exact tree q name found

theorem isEmpty_of_checkPath {path : String} (allowed : v.checkPath path = .ok ()) :
    path.isEmpty = false := by
  unfold checkPath at allowed
  split at allowed
  · cases allowed
  case isFalse filled => simpa using filled

/-- A directory that is taken away and made again is empty, and nothing else is different. The path leads
there in another file system, which has nothing but directories that are there, and nothing in this
one. -/
theorem makeDirectories_erase {path : String} (keeps : u.Keeps v) (tree : v.IsTree)
    (found : u.find path = .ok (place, .directory)) (filled : place ≠ []) (named : names path ≠ [])
    (bare : ∀ below, below ≠ [] → u.get? (place ++ below) = none) :
    ∃ w, (v.erase place).makeDirectories path = (.ok (), w) ∧ w.IsTree ∧ u.Keeps w ∧
      ∀ q, w.get? q =
        if q = place then some .directory else if place <+: q then none else v.get? q := by
  obtain ⟨allowed, followed, directory⟩ := locate_of_find found
  have checked : (v.erase place).checkPath path = .ok () := (keeps.checkPath path).trans allowed
  have origin : (v.erase place).origin path = u.origin path := keeps.origin path
  have free (q : List String) (found : u.get? q = some .directory) :
      (v.erase place).get? q = some .directory ∨ (v.erase place).get? q = none := by
    rw [get?_erase v filled]
    split
    · exact .inr rfl
    · exact .inl (keeps.directory q found)
  obtain ⟨w, made, extended, there⟩ :=
    makeBelow_restores (w := v.erase place) keeps.limits free followed directory
      fun none => absurd none named
  have apart {q : List String} (old : u.get? q = some .directory) (other : q ≠ place) :
      ¬ place <+: q := by
    rintro ⟨rest, rfl⟩
    rw [bare rest] at old
    · cases old
    · rintro rfl
      simp at other
  have same (q : List String) : w.get? q =
      if q = place then some .directory else if place <+: q then none else v.get? q := by
    by_cases here : q = place
    · rw [here, if_pos rfl, there]
    · rw [if_neg here, ← get?_erase v filled]
      rcases extended.get? q with same | ⟨missing, e, -, -, old⟩
      · exact same
      · rw [get?_erase v filled, if_neg (apart old here), keeps.directory q old] at missing
        cases missing
  refine ⟨w, ?_, tree.emptied (keeps.directory _ directory) same, ?_, same⟩
  · unfold makeDirectories
    rw [if_neg (by simp [isEmpty_of_checkPath allowed]), checked, origin]
    exact made
  · refine ⟨extended.limits.trans keeps.limits, extended.start.trans keeps.start, ?_⟩
    intro q old
    rw [same]
    split
    · rfl
    case isFalse other => rw [if_neg (apart old other), keeps.directory q old]

/-! ## One entry for each place -/

/-- Whether no place has two entries. -/
def IsTable (v : Volume) : Prop := (v.entries.map Prod.fst).Nodup

theorem IsTable.set (h : v.IsTable) (place : List String) (entry : Entry) :
    (v.set place entry).IsTable := by
  rw [IsTable, Volume.set, List.map_cons, List.nodup_cons]
  constructor
  · intro mem
    obtain ⟨e, kept, same⟩ := List.mem_map.mp mem
    have other := (List.mem_filter.mp kept).2
    simp [same] at other
  · exact h.sublist (List.filter_sublist.map _)

theorem IsTable.erase (h : v.IsTable) (place : List String) : (v.erase place).IsTable :=
  h.sublist (List.filter_sublist.map _)

theorem IsTable.makeBelow (h : v.IsTable) (place names : List String) :
    (v.makeBelow place names).2.IsTable := by
  induction names generalizing v place with
  | nil => exact h
  | cons name names ih =>
    rw [Volume.makeBelow]
    split
    · exact h
    · dsimp only
      split
      · exact ih h _
      · exact h
      · exact ih (h.set _ _) _

theorem IsTable.makeDirectories (h : v.IsTable) (path : String) :
    (v.makeDirectories path).2.IsTable := by
  unfold Volume.makeDirectories
  split
  · exact h
  · split
    · exact h
    · exact h.makeBelow _ _

theorem IsTable.stage (h : v.IsTable) (directory : String) (content : ByteArray) :
    (v.stage directory content).2.IsTable := by
  unfold Volume.stage
  split
  · exact h
  · exact h
  · exact h.set _ _

theorem IsTable.publish (h : v.IsTable) (staged path : String) :
    (v.publish staged path).2.IsTable := by
  unfold Volume.publish
  split
  · exact h
  · exact h
  · split
    · exact h
    · exact (h.erase _).set _ _

theorem IsTable.removeFile (h : v.IsTable) (path : String) : (v.removeFile path).2.IsTable := by
  unfold Volume.removeFile
  split
  · exact h
  · exact h
  · exact h.erase _

theorem IsTable.removeDirectory (h : v.IsTable) (path : String) :
    (v.removeDirectory path).2.IsTable := by
  unfold Volume.removeDirectory
  split
  · exact h
  · exact h
  · exact h.erase _

theorem IsTable.mem_entries (h : v.IsTable) {q : List String} (some : q ≠ []) {e : Entry} :
    (q, e) ∈ v.entries ↔ v.get? q = .some e := by
  rw [get?_of_ne_nil v some]
  unfold IsTable at h
  generalize v.entries = entries at h
  induction entries with
  | nil => simp
  | cons entry entries ih =>
    obtain ⟨q', e'⟩ := entry
    rw [List.map_cons, List.nodup_cons] at h
    rw [List.mem_cons, List.lookup_cons]
    by_cases same : q = q'
    · subst same
      have apart : (q, e) ∉ entries := fun mem => h.1 (List.mem_map.mpr ⟨_, mem, rfl⟩)
      simp [apart, eq_comm]
    · have other : (q == q') = false := beq_eq_false_iff_ne.mpr same
      simp [same, other, ih h.2]

/-! ## Listing -/

theorem namesFrom?_eq_some {q below : List String} :
    namesFrom? place q = some below ↔ q = place ++ below ∧ below ≠ [] := by
  unfold namesFrom?
  constructor
  · intro h
    split at h
    case isTrue inside =>
      rw [Bool.and_eq_true, List.isPrefixOf_iff_prefix, decide_eq_true_eq] at inside
      obtain ⟨⟨rest, rfl⟩, short⟩ := inside
      rw [List.drop_left] at h
      cases h
      refine ⟨rfl, ?_⟩
      rintro rfl
      simp at short
    case isFalse => cases h
  · rintro ⟨rfl, some⟩
    have positive := List.length_pos_iff.mpr some
    rw [if_pos, List.drop_left]
    simp [positive]

/-- The files that are listed are those that are there. -/
theorem mem_filesFrom (h : v.IsTable) {below : List String} {size : Nat} :
    (below, size) ∈ v.filesFrom place ↔
      below ≠ [] ∧ ∃ content, v.get? (place ++ below) = some (.file content) ∧
        size = content.size := by
  unfold filesFrom
  rw [List.mem_filterMap]
  constructor
  · rintro ⟨⟨q, entry⟩, mem, listed⟩
    cases entry with
    | directory => cases listed
    | file content =>
      obtain ⟨names, named, same⟩ := Option.map_eq_some_iff.mp listed
      obtain ⟨rfl, some⟩ := namesFrom?_eq_some.mp named
      cases same
      exact ⟨some, content, (h.mem_entries (by simp [some])).mp mem, rfl⟩
  · rintro ⟨some, content, file, rfl⟩
    refine ⟨(place ++ below, .file content), (h.mem_entries (by simp [some])).mpr file, ?_⟩
    simp [namesFrom?_eq_some.mpr ⟨rfl, some⟩]

/-- No file is listed twice. -/
theorem nodup_filesFrom (h : v.IsTable) (place : List String) :
    ((v.filesFrom place).map Prod.fst).Nodup := by
  unfold IsTable at h
  unfold filesFrom
  generalize v.entries = entries at h
  induction entries with
  | nil => simp
  | cons entry entries ih =>
    obtain ⟨q, e⟩ := entry
    rw [List.map_cons, List.nodup_cons] at h
    have rest := ih h.2
    cases e with
    | directory => exact rest
    | file content =>
      cases named : namesFrom? place q with
      | none => simpa [named] using rest
      | some below =>
        simp only [List.filterMap_cons, named, Option.map_some, List.map_cons, List.nodup_cons]
        refine ⟨fun mem => ?_, rest⟩
        obtain ⟨⟨names, size⟩, listed, rfl⟩ := List.mem_map.mp mem
        obtain ⟨⟨q', e'⟩, inside, listed⟩ := List.mem_filterMap.mp listed
        cases e' with
        | directory => cases listed
        | file content' =>
          obtain ⟨names', named', same⟩ := Option.map_eq_some_iff.mp listed
          cases same
          obtain ⟨rfl, -⟩ := namesFrom?_eq_some.mp named
          obtain ⟨rfl, -⟩ := namesFrom?_eq_some.mp named'
          exact h.1 (List.mem_map.mpr ⟨_, inside, rfl⟩)

end Volume

end ModuleLinker.Files
