import ModuleLinker.Proofs.Cache.Store
import ModuleLinker.Proofs.Files.Removal

/-!
# A cache that nothing else touches

What is in the directory of a cache that has been made on a file system without limits, as long as
nothing but the cache writes there: below the directory of the files there are only files of modules and
directories on the way to them (`Store.IsKept`). A file of a module is then never in the way of a
directory and a directory never in the place of a file, so that nothing can go wrong: the source of
every module is looked up (`Store.IsKept.get_eq`) and put (`Store.IsKept.put_eq`) without a failure.
-/

set_option autoImplicit false

namespace ModuleLinker.Files.Volume

variable {v : Volume} {directory name : String} {place : List String}

/-! ## Paths on a file system without limits -/

theorem not_exceeds (unlimited : v.limits = .none) (text : String) :
    exceeds v.limits.name text = false ∧ exceeds v.limits.path text = false := by
  rw [unlimited]
  exact ⟨rfl, rfl⟩

theorem checkPath_eq_ok (unlimited : v.limits = .none) {path : String} :
    v.checkPath path = .ok () ↔ path ≠ "" ∧ '\x00' ∉ path.toList := by
  unfold checkPath
  rw [(not_exceeds unlimited path).2]
  by_cases empty : path = ""
  · simp [empty]
  · by_cases nul : '\x00' ∈ path.toList <;> simp [empty, nul]

theorem checkPath_join (unlimited : v.limits = .none) (isName : IsName name)
    (allowed : v.checkPath directory = .ok ()) : v.checkPath (join directory name) = .ok () := by
  rw [checkPath_eq_ok unlimited] at allowed ⊢
  refine ⟨(isClosed_join isName directory).filled, ?_⟩
  have nul := isName.nul
  rcases toList_join isName directory with ⟨same, -⟩ | same <;> simp [same, allowed.2, nul]

theorem checkPath_joinAll (unlimited : v.limits = .none) {names : List String}
    (areNames : ∀ name ∈ names, IsName name) (allowed : v.checkPath directory = .ok ()) :
    v.checkPath (joinAll directory names) = .ok () := by
  induction names generalizing directory with
  | nil => exact allowed
  | cons name names ih =>
    apply ih
    · intro name' mem
      exact areNames name' (List.mem_cons_of_mem name mem)
    · exact checkPath_join unlimited (areNames name List.mem_cons_self) allowed

/-- What is in a directory is found. -/
theorem find_join (unlimited : v.limits = .none) (isName : IsName name)
    (found : v.find directory = .ok (place, .directory)) {entry : Entry}
    (inside : v.get? (place ++ [name]) = some entry) :
    v.find (join directory name) = .ok (place ++ [name], entry) := by
  obtain ⟨allowed, followed, above⟩ := locate_of_find found
  have plain : (name == "..") = false := beq_eq_false_iff_ne.mpr isName.dots
  have origin : v.origin (join directory name) = v.origin directory := by
    simp only [origin, isAbsolute_join isName]
  have way : v.follow (v.origin (join directory name)) (Volume.names (join directory name)) =
      .ok (place ++ [name]) := by
    rw [origin, names_join isName, follow_append, followed]
    simp [Except.bind, follow, above, not_exceeds unlimited, plain]
  simp only [find, locate, checkPath_join unlimited isName allowed, way, bind, Except.bind, inside,
    namesDirectory_join isName]
  cases entry <;> rfl

/-- A directory is made in a directory where there is nothing. -/
theorem makeDirectories_join (tree : v.IsTree) (table : v.IsTable) (unlimited : v.limits = .none)
    (isName : IsName name) (found : v.find directory = .ok (place, .directory))
    (nothing : v.get? (place ++ [name]) = none) :
    ∃ w, v.makeDirectories (join directory name) = (.ok (), w) ∧
      v.Extends w (fun q e => q = place ++ [name] ∧ e = .directory) ∧ w.IsTree ∧ w.IsTable ∧
      w.find (join directory name) = .ok (place ++ [name], .directory) := by
  obtain ⟨allowed, followed, above⟩ := locate_of_find found
  have plain : (name == "..") = false := beq_eq_false_iff_ne.mpr isName.dots
  have filled : (join directory name).isEmpty = false := by
    simpa using (isClosed_join isName directory).filled
  have origin : v.origin (join directory name) = v.origin directory := by
    simp only [origin, isAbsolute_join isName]
  have some : place ++ [name] ≠ [] := by simp
  have extended := extends_set some nothing .directory
  refine ⟨v.set (place ++ [name]) .directory, ?_, extended, tree.set above nothing _, table.set _ _, ?_⟩
  · simp only [makeDirectories, filled, checkPath_join unlimited isName allowed, origin,
      names_join isName, makeBelow_append [name] followed above]
    simp [makeBelow, not_exceeds unlimited, plain, nothing]
  · apply find_join (extended.limits.trans unlimited) isName (extended.find found)
    rw [get?_set v some, if_pos rfl]

/-- Directories that are there are made without a change. -/
theorem makeDirectories_of_find {path : String} (found : v.find path = .ok (place, .directory)) :
    v.makeDirectories path = (.ok (), v) := by
  obtain ⟨allowed, followed, directory⟩ := locate_of_find found
  have same := makeBelow_append [] followed directory
  rw [List.append_nil] at same
  unfold makeDirectories
  rw [allowed, same]
  split <;> rfl

end ModuleLinker.Files.Volume

namespace ModuleLinker.Cache

open Files

theorem textOf_toUTF8 (source : String) : textOf source.toUTF8 = .ok source := by
  have valid : source.toUTF8.IsValidUTF8 := source.isValidUTF8
  simp only [textOf, String.fromUTF8?, dif_pos valid]
  rfl

namespace Store

/-- A file system without limits in which a cache has been made: its two directories are there, and
there is nothing in them. -/
structure IsFresh (c : Store) (root : List String) (u : Volume) : Prop where
  tree : u.IsTree
  table : u.IsTable
  limits : u.limits = .none
  base : u.find c.base = .ok (basePlace root, .directory)
  staging : u.find c.staging = .ok (stagingPlace root, .directory)
  noFiles : ∀ name, u.get? (basePlace root ++ [name]) = none
  noStaged : ∀ name, u.get? (stagingPlace root ++ [name]) = none

/-- A file system that has come from one in which a cache was made. Every directory of then is there, and
below the directory of the files nothing is in a place where it could be in the way of the file of a
module: files are where the keys of modules say, and directories have the names of directories. -/
structure IsKept (c : Store) (root : List String) (u v : Volume) : Prop where
  fresh : c.IsFresh root u
  tree : v.IsTree
  keeps : u.Keeps v
  keys : ∀ below content, v.get? (basePlace root ++ below) = some (.file content) →
    ∃ s : Specifier, below = encodeKey s.text
  inner : ∀ below name, v.get? (basePlace root ++ (below ++ [name])) = some .directory →
    isDirectoryName name = true

variable {c : Store} {root : List String} {u v w : Volume} {s t : Specifier}

theorem IsFresh.isKept (h : c.IsFresh root u) : c.IsKept root u u := by
  constructor
  case fresh => exact h
  case tree => exact h.tree
  case keeps => exact .refl u
  case keys =>
    intro below content file
    by_cases empty : below = []
    · rw [empty, List.append_nil, (Volume.locate_of_find h.base).2.2] at file
      cases file
    · rw [h.tree.get?_below h.noFiles empty] at file
      cases file
  case inner =>
    intro below name directory
    rw [h.tree.get?_below h.noFiles (by simp)] at directory
    cases directory

/-! ## Making a cache -/

theorem create_apply (path : String) (v : Volume) :
    (create path : ExceptT LoadError (StateM Volume) Store) v =
      match v.makeDirectories (Store.base ⟨path⟩) with
      | (.error fault, w) => (.error (.io (Store.base ⟨path⟩) fault), w)
      | (.ok _, w) =>
        match w.makeDirectories (Store.staging ⟨path⟩) with
        | (.error fault, w) => (.error (.io (Store.staging ⟨path⟩) fault), w)
        | (.ok _, w) => (.ok ⟨path⟩, w) := by
  unfold create makeDirectory
  have made (path : String) (v : Volume) : (Disk.makeDirectories path : StateM Volume _) v =
    v.makeDirectories path := rfl
  rw [bind_apply, orIo_apply, made]
  rcases v.makeDirectories (Store.base ⟨path⟩) with ⟨_ | _, w⟩
  · rfl
  · simp only [Except.mapError]
    rw [bind_apply, orIo_apply, made]
    rcases w.makeDirectories (Store.staging ⟨path⟩) with ⟨_ | _, x⟩ <;> rfl

/-- A cache is made in an empty directory. -/
theorem create_isFresh {path : String} (tree : v.IsTree) (table : v.IsTable)
    (unlimited : v.limits = .none) (found : v.find path = .ok (root, .directory))
    (empty : ∀ name, v.get? (root ++ [name]) = none) :
    ∃ w, (create path : ExceptT LoadError (StateM Volume) Store) v = (.ok ⟨path⟩, w) ∧
      IsFresh ⟨path⟩ root w := by
  have whole := tree
  have noBase : v.get? (basePlace root) = none := empty "v1"
  have noStaging : v.get? (stagingPlace root) = none := empty "tmp"
  obtain ⟨w, made, extended, tree, table, base⟩ :=
    Volume.makeDirectories_join tree table unlimited isName_v1 found noBase
  have noStaging' : w.get? (stagingPlace root) = none := by
    rw [extended.get?_eq_of_not_new, noStaging]
    simp [stagingPlace]
  obtain ⟨x, made', extended', tree, table, staging⟩ :=
    Volume.makeDirectories_join tree table (extended.limits.trans unlimited) isName_tmp
      (extended.find found) noStaging'
  -- There was nothing below a place where there was nothing.
  have inside {place : List String} (nothing : v.get? place = none) (deep : root.length < place.length)
      (name : String) : x.get? (place ++ [name]) = none := by
    have apart (last : String) (e : Entry) : ¬ (place ++ [name] = root ++ [last] ∧ e = .directory) := by
      rintro ⟨same, -⟩
      have lengths := congrArg List.length same
      simp only [List.length_append, List.length_singleton] at lengths
      omega
    rw [extended'.get?_eq_of_not_new (apart _), extended.get?_eq_of_not_new (apart _)]
    by_contra some
    rw [whole place name some] at nothing
    cases nothing
  refine ⟨x, ?_, tree, table, extended'.limits.trans (extended.limits.trans unlimited),
    extended'.find base, staging, ?_, ?_⟩
  · rw [create_apply]
    unfold Store.base Store.staging
    simp only [made, made']
  · exact inside noBase (by simp [basePlace])
  · exact inside noStaging (by simp [stagingPlace])

/-- A cache is made at the root of a file system with nothing in it. -/
theorem exists_isFresh : ∃ u, (create "/" : ExceptT LoadError (StateM Volume) Store)
    (.empty [] .none) = (.ok ⟨"/"⟩, u) ∧ IsFresh ⟨"/"⟩ [] u := by
  have tree : (Volume.empty [] .none).IsTree := by
    intro place name found
    exact absurd (Volume.get?_of_ne_nil _ (by simp)) found
  have found : (Volume.empty [] .none).find "/" = .ok ([], .directory) :=
    Volume.find_directory (by decide) (by decide) rfl
  exact create_isFresh tree List.nodup_nil rfl found fun name => rfl

/-! ## What is where -/

theorem filePlace_eq_iff {s t : Specifier} : filePlace root s = filePlace root t ↔ s.text = t.text := by
  constructor
  · intro same
    exact encodeKey_injective (List.append_cancel_left same)
  · intro same
    rw [filePlace, same, filePlace]

theorem IsKept.unlimited (h : c.IsKept root u v) : v.limits = .none :=
  h.keeps.limits.trans h.fresh.limits

theorem IsKept.find_base (h : c.IsKept root u v) :
    v.find c.base = .ok (basePlace root, .directory) := h.keeps.find h.fresh.base

theorem IsKept.find_staging (h : c.IsKept root u v) :
    v.find c.staging = .ok (stagingPlace root, .directory) := h.keeps.find h.fresh.staging

theorem IsKept.isOpen (h : c.IsKept root u v) : c.IsOpen root v where
  tree := h.tree
  base := h.find_base
  staging := h.find_staging
  names name _ := (Volume.not_exceeds h.unlimited name).1
  stagedName := (Volume.not_exceeds h.unlimited _).1
  stagedPath := (Volume.not_exceeds h.unlimited _).2

theorem IsKept.checkPath_path (h : c.IsKept root u v) (s : Specifier) :
    v.checkPath (c.path s) = .ok () :=
  Volume.checkPath_joinAll h.unlimited (fun _ mem => isName_encodeKey s mem)
    (Volume.locate_of_find h.find_base).1

theorem IsKept.checkPath_directory (h : c.IsKept root u v) (s : Specifier) :
    v.checkPath (c.directory s) = .ok () :=
  Volume.checkPath_joinAll h.unlimited
    (fun _ mem => isName_encodeKey s (List.dropLast_subset _ mem))
    (Volume.locate_of_find h.find_base).1

/-- No file is on the way to that of a module. -/
theorem IsKept.not_file (h : c.IsKept root u v) {front back : List String}
    (key : encodeKey s.text = front ++ back) (some : back ≠ []) (content : ByteArray) :
    v.get? (basePlace root ++ front) ≠ .some (.file content) := by
  intro file
  obtain ⟨t, here⟩ := h.keys front content file
  rw [here] at key
  have same : t.text = s.text := eq_of_encodeKey_isPrefix ⟨back, key.symm⟩
  rw [same] at key
  exact some (List.append_right_eq_self.mp key.symm)

/-- No directory is in the place of the file of a module. -/
theorem IsKept.not_directory (h : c.IsKept root u v) (s : Specifier) :
    v.get? (filePlace root s) ≠ some .directory := by
  intro directory
  obtain ⟨name, key, -⟩ := exists_key s
  have isFile := isDirectoryName_of_last key
  rw [filePlace, key] at directory
  have isDirectory := h.inner _ name directory
  rw [isFile] at isDirectory
  cases isDirectory

/-- The path of a module leads to the place of its file. -/
theorem IsKept.find_path (h : c.IsKept root u v) (s : Specifier) :
    v.find (c.path s) = (v.get? (filePlace root s)).elim (.error .notFound)
      fun entry => .ok (filePlace root s, entry) := by
  rcases h.isOpen.find_path s (h.checkPath_path s) with ⟨blocked, -⟩ | ⟨-, found⟩
  · obtain ⟨front, back, content, key, some, file⟩ := blocked
    exact absurd file (h.not_file key some content)
  · exact found

/-- A cache is kept as long as there is nothing new in the directory of the files. -/
theorem IsKept.of_old (h : c.IsKept root u v) (tree : w.IsTree) (keeps : u.Keeps w)
    (old : ∀ below entry, below ≠ [] → w.get? (basePlace root ++ below) = some entry →
      v.get? (basePlace root ++ below) = some entry) : c.IsKept root u w where
  fresh := h.fresh
  tree := tree
  keeps := keeps
  keys below content file := by
    apply h.keys below content
    apply old below _ _ file
    rintro rfl
    have base := (Volume.locate_of_find (keeps.find h.fresh.base)).2.2
    rw [List.append_nil, base] at file
    cases file
  inner below name directory := h.inner below name (old _ _ (by simp) directory)

/-- Nothing is different in the directory of the files that are being written when a file of a module is
added. -/
theorem get?_staging (extended : v.Extends w (Adds root s)) (below : List String) :
    w.get? (stagingPlace root ++ below) = v.get? (stagingPlace root ++ below) := by
  apply extended.get?_eq_of_not_new
  intro e adds
  obtain ⟨front, same⟩ := adds_base adds
  exact ne_staging root front below same.symm

/-! ## Looking up and putting -/

/-- The source that is in the file of a module is looked up. -/
theorem IsKept.get_eq (h : c.IsKept root u v) {stored : Option String}
    (file : v.get? (filePlace root s) = stored.map fun source => .file source.toUTF8) :
    (c.get s : ExceptT LoadError (StateM Volume) (Option String)) v = (.ok stored, v) := by
  rw [get_apply]
  unfold Volume.read
  rw [h.find_path, file]
  cases stored with
  | none => rfl
  | some source =>
    simp only [Option.map_some, Option.elim_some, bind, Except.bind]
    rw [textOf_toUTF8]

/-- A cache is kept when the file of a module is added with the directories on the way to it. -/
theorem IsKept.extends (h : c.IsKept root u v) (extended : v.Extends w (Adds root s))
    (tree : w.IsTree) : c.IsKept root u w where
  fresh := h.fresh
  tree := tree
  keeps := h.keeps.trans extended.keeps
  keys below content file := by
    rcases extended.get? (basePlace root ++ below) with same | ⟨-, e, found, adds⟩
    · rw [same] at file
      exact h.keys below content file
    · rw [file] at found
      cases found
      rcases adds with ⟨directory, -⟩ | ⟨same, -⟩
      · cases directory
      · exact ⟨s, List.append_cancel_left same⟩
  inner below name directory := by
    rcases extended.get? (basePlace root ++ (below ++ [name])) with same | ⟨-, e, found, adds⟩
    · rw [same] at directory
      exact h.inner below name directory
    · rw [directory] at found
      cases found
      rcases adds with ⟨-, front, ⟨back, key⟩, same⟩ | ⟨-, content, file⟩
      · obtain ⟨last, split, -⟩ := exists_key s
        rw [← key, List.append_assoc] at split
        apply isDirectoryName_of_mem_front split
        · simp
        · rw [← List.append_cancel_left same]
          simp
      · cases file

/-- The directories on the way to the file of a module can be made. -/
theorem IsKept.makeBelow (h : c.IsKept root u v) (s : Specifier) :
    ∃ w, v.makeBelow (basePlace root) (encodeKey s.text).dropLast = (.ok (), w) ∧ w.IsTree ∧
      v.Extends w (fun q e => e = .directory ∧
        ∃ front, front <+: (encodeKey s.text).dropLast ∧ q = basePlace root ++ front) ∧
      ∀ front, front <+: (encodeKey s.text).dropLast →
        w.get? (basePlace root ++ front) = some .directory := by
  rcases Volume.makeBelow_cases h.tree h.isOpen.get?_base (h.isOpen.fits_dropLast s) with
    ⟨front, back, content, split, file, -⟩ | made
  · obtain ⟨name, key, -⟩ := exists_key s
    rw [split, List.append_assoc] at key
    exact absurd file (h.not_file key (by simp) content)
  · exact made

/-- A source is put into the cache, unless there is one already. -/
theorem IsKept.put_eq (h : c.IsKept root u v) (s : Specifier) (source : String) :
    ∃ w, (c.put s source : ExceptT LoadError (StateM Volume) Unit) v = (.ok (), w) ∧
      c.IsKept root u w ∧ v.Extends w (Adds root s) ∧
      w.get? (filePlace root s) = some ((v.get? (filePlace root s)).getD (.file source.toUTF8)) := by
  obtain ⟨x, made, -⟩ := h.makeBelow s
  have outcome : c.putOutcome root s v = .ok () := by
    simp only [putOutcome, h.checkPath_directory, made, h.checkPath_path]
  obtain ⟨w, put, opened, extended, file⟩ := put_spec h.isOpen s source
  rw [outcome] at put file
  exact ⟨w, put, h.extends extended opened.tree, extended, file⟩

end Store

end ModuleLinker.Cache
