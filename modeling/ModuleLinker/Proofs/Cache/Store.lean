import ModuleLinker.Cache.Store
import ModuleLinker.Proofs.Cache.Key
import ModuleLinker.Proofs.Files.Volume

/-!
# Looking up in a cache and putting into it

What an open cache does on a file system in memory. Putting a source into the cache adds the file of
the module and the directories on the way to it, and nothing else (`Store.put_spec`). No key starts
with another one, so that modules do not get in the way of each other: what is looked up for a module,
and what comes of putting its source into the cache, does not depend on what has been put into the
cache for others (`Store.get_congr`, `Store.putOutcome_congr`).
-/

set_option autoImplicit false

namespace ModuleLinker.Cache

open Files

theorem IsKeyName.toIsName {name : String} (h : IsKeyName name) : IsName name :=
  ⟨h.filled, h.dot, h.dots, h.slash, h.nul⟩

theorem colon_mem_text (s : Specifier) : ':' ∈ s.text.toList := by
  rw [Specifier.text, String.toList_ofList, Specifier.chars]
  simp

namespace Store

/-- The place of the directory of the files, below that of the directory of the cache. -/
def basePlace (root : List String) : List String := root ++ ["v1"]

/-- The place of the directory of the files that are being written. -/
def stagingPlace (root : List String) : List String := root ++ ["tmp"]

/-- The place of the file of a module. -/
def filePlace (root : List String) (s : Specifier) : List String :=
  basePlace root ++ encodeKey s.text

/-- A file system on which a cache is open, whose directory is at a place: its two directories are
there, the names of keys are not too long, and neither is the path of a file that is being written. -/
structure IsOpen (c : Store) (root : List String) (v : Volume) : Prop where
  tree : v.IsTree
  base : v.find c.base = .ok (basePlace root, .directory)
  staging : v.find c.staging = .ok (stagingPlace root, .directory)
  names : ∀ name : String, name.utf8ByteSize ≤ pieceLength + 1 → exceeds v.limits.name name = false
  stagedName : exceeds v.limits.name (v.freshName (stagingPlace root)) = false
  stagedPath :
    exceeds v.limits.path (join c.staging (v.freshName (stagingPlace root))) = false

/-- What putting the source of a module into the cache adds. -/
def Adds (root : List String) (s : Specifier) (q : List String) (e : Entry) : Prop :=
  (e = .directory ∧ ∃ front, front <+: (encodeKey s.text).dropLast ∧ q = basePlace root ++ front) ∨
    (q = filePlace root s ∧ ∃ content, e = .file content)

variable {c : Store} {root : List String} {v w : Volume} {s t : Specifier}

/-! ## Paths -/

theorem isName_encodeKey (s : Specifier) {name : String} (mem : name ∈ encodeKey s.text) :
    IsName name := (isKeyName (colon_mem_text s) mem).toIsName

theorem isName_v1 : IsName "v1" := by constructor <;> decide

theorem isName_tmp : IsName "tmp" := by constructor <;> decide

theorem isClosed_base (c : Store) : IsClosed c.base := isClosed_join isName_v1 c.root

theorem isClosed_staging (c : Store) : IsClosed c.staging := isClosed_join isName_tmp c.root

/-- The key of a module is the way to a directory and a name in it. -/
theorem exists_key (s : Specifier) :
    ∃ name, encodeKey s.text = (encodeKey s.text).dropLast ++ [name] ∧ IsName name := by
  have some := encodeKey_ne_nil s.text
  exact ⟨_, (List.dropLast_append_getLast some).symm,
    isName_encodeKey s (List.getLast_mem some)⟩

/-- The directory of the file of a module. -/
def directory (c : Store) (s : Specifier) : String := joinAll c.base (encodeKey s.text).dropLast

theorem directory_spec (c : Store) (s : Specifier) : IsClosed (c.directory s) ∧
    isAbsolute (c.directory s) = isAbsolute c.base ∧
    Volume.names (c.directory s) = Volume.names c.base ++ (encodeKey s.text).dropLast :=
  joinAll_spec (fun _ mem => isName_encodeKey s (List.dropLast_subset _ mem)) (isClosed_base c)

theorem path_spec (c : Store) (s : Specifier) : isAbsolute (c.path s) = isAbsolute c.base ∧
    Volume.names (c.path s) = Volume.names c.base ++ encodeKey s.text ∧
    Volume.namesDirectory (c.path s) = false ∧ parent (c.path s) = c.directory s := by
  have all := joinAll_spec (fun _ mem => isName_encodeKey s mem) (isClosed_base c)
  obtain ⟨name, key, isName⟩ := exists_key s
  have path : c.path s = join (c.directory s) name := by
    rw [Store.path, directory, ← joinAll_concat, ← key]
  refine ⟨all.2.1, all.2.2, ?_, ?_⟩
  · rw [path]
    exact namesDirectory_join isName _
  · rw [path]
    exact parent_join isName (directory_spec c s).1

/-! ## Directories of the cache -/

theorem IsOpen.get?_base (h : c.IsOpen root v) : v.get? (basePlace root) = some .directory :=
  (Volume.locate_of_find h.base).2.2

theorem IsOpen.fits (h : c.IsOpen root v) (s : Specifier) : v.Fits (encodeKey s.text) := by
  intro name mem
  have key := isKeyName (colon_mem_text s) mem
  exact ⟨key.dots, h.names name key.short⟩

theorem IsOpen.fits_dropLast (h : c.IsOpen root v) (s : Specifier) :
    v.Fits (encodeKey s.text).dropLast := fun name mem => h.fits s name (List.dropLast_subset _ mem)

/-- What the path of a module leads to. -/
theorem IsOpen.find_path (h : c.IsOpen root v) (s : Specifier)
    (allowed : v.checkPath (c.path s) = .ok ()) :
    (v.Blocks (basePlace root) (encodeKey s.text) ∧ v.find (c.path s) = .error .notDirectory) ∨
      (¬ v.Blocks (basePlace root) (encodeKey s.text) ∧ v.find (c.path s) =
        (v.get? (filePlace root s)).elim (.error .notFound) fun entry =>
          .ok (filePlace root s, entry)) := by
  obtain ⟨absolute, names, plain, -⟩ := path_spec c s
  have origin : v.origin (c.path s) = v.origin c.base := by
    unfold Volume.origin
    rw [absolute]
  refine Volume.find_below h.tree allowed names ?_ (h.fits s) plain
  rw [origin]
  exact (Volume.locate_of_find h.base).2.1

/-- Staged files and files of modules are at different places. -/
theorem ne_staging (root front below : List String) :
    basePlace root ++ front ≠ stagingPlace root ++ below := by
  intro same
  rw [basePlace, stagingPlace, List.append_assoc, List.append_assoc] at same
  have heads := (List.cons.inj (List.append_cancel_left same)).1
  exact absurd heads (by decide)

theorem adds_base {q : List String} {e : Entry} (h : Adds root s q e) :
    ∃ front, q = basePlace root ++ front := by
  rcases h with ⟨-, front, -, rfl⟩ | ⟨rfl, -⟩
  · exact ⟨front, rfl⟩
  · exact ⟨_, rfl⟩

/-- A cache stays open while only its files are added. -/
theorem IsOpen.extends (h : c.IsOpen root v) {new : List String → Entry → Prop}
    (extended : v.Extends w new) (tree : w.IsTree)
    (inside : ∀ q e, new q e → ∃ front, q = basePlace root ++ front) : c.IsOpen root w := by
  have fresh : w.freshName (stagingPlace root) = v.freshName (stagingPlace root) := by
    apply Volume.freshName_congr
    intro n
    apply extended.get?_eq_of_not_new
    intro e new
    obtain ⟨front, same⟩ := inside _ e new
    exact ne_staging root front _ same.symm
  constructor
  case tree => exact tree
  case base => exact extended.find h.base
  case staging => exact extended.find h.staging
  case names => rw [extended.limits]; exact h.names
  case stagedName => rw [fresh, extended.limits]; exact h.stagedName
  case stagedPath => rw [fresh, extended.limits]; exact h.stagedPath

/-! ## Modules apart from each other -/

/-- What is added for one module on the way to another one is a directory. -/
theorem adds_apart (other : s.text ≠ t.text) {front : List String}
    (isPrefix : front <+: encodeKey s.text) {e : Entry}
    (adds : Adds root t (basePlace root ++ front) e) :
    e = .directory ∧ front ≠ encodeKey s.text := by
  rcases adds with ⟨directory, front', isPrefix', same⟩ | ⟨same, -⟩
  · have same := List.append_cancel_left same
    refine ⟨directory, fun whole => other ?_⟩
    apply eq_of_encodeKey_isPrefix
    rw [← whole, same]
    exact isPrefix'.trans (List.dropLast_prefix _)
  · rw [filePlace] at same
    rw [List.append_cancel_left same] at isPrefix
    exact absurd (eq_of_encodeKey_isPrefix isPrefix).symm other

/-- A file system in which modules other than one have been put into the cache. -/
def ApartFrom (root : List String) (s : Specifier) (v w : Volume) : Prop :=
  v.Extends w fun q e => ∃ t : Specifier, s.text ≠ t.text ∧ Adds root t q e

/-- The files on the way to a module are the same. -/
theorem ApartFrom.file_iff (h : ApartFrom root s v w) {front : List String}
    (isPrefix : front <+: encodeKey s.text) (content : ByteArray) :
    w.get? (basePlace root ++ front) = some (.file content) ↔
      v.get? (basePlace root ++ front) = some (.file content) := by
  constructor
  · intro file
    rcases h.get? (basePlace root ++ front) with same | ⟨-, e, found, t, other, adds⟩
    · rw [← same, file]
    · obtain ⟨rfl, -⟩ := adds_apart other isPrefix adds
      rw [file] at found
      cases found
  · exact h.get?_eq_some

theorem ApartFrom.get?_filePlace (h : ApartFrom root s v w) :
    w.get? (filePlace root s) = v.get? (filePlace root s) := by
  apply h.get?_eq_of_not_new
  rintro e ⟨t, other, adds⟩
  exact (adds_apart other List.prefix_rfl adds).2 rfl

/-- What a module's path leads to does not depend on other modules. -/
theorem ApartFrom.find_path (h : ApartFrom root s v w) (opened : c.IsOpen root v)
    (opened' : c.IsOpen root w) : w.find (c.path s) = v.find (c.path s) := by
  cases allowed : v.checkPath (c.path s) with
  | error fault =>
    have allowed' := (h.checkPath (c.path s)).trans allowed
    unfold Volume.find Volume.locate
    simp only [allowed, allowed', bind, Except.bind]
  | ok _ =>
    have allowed' : w.checkPath (c.path s) = .ok () := by rw [h.checkPath, allowed]
    have blocks : w.Blocks (basePlace root) (encodeKey s.text) ↔
        v.Blocks (basePlace root) (encodeKey s.text) := by
      constructor <;> rintro ⟨front, back, content, key, some, file⟩
      · exact ⟨front, back, content, key, some, (h.file_iff ⟨back, key.symm⟩ content).mp file⟩
      · exact ⟨front, back, content, key, some, (h.file_iff ⟨back, key.symm⟩ content).mpr file⟩
    rcases opened.find_path s allowed with ⟨blocked, found⟩ | ⟨clear, found⟩
    · rcases opened'.find_path s allowed' with ⟨-, found'⟩ | ⟨clear, -⟩
      · rw [found, found']
      · exact absurd (blocks.mpr blocked) clear
    · rcases opened'.find_path s allowed' with ⟨blocked, -⟩ | ⟨-, found'⟩
      · exact absurd (blocks.mp blocked) clear
      · rw [found, found', h.get?_filePlace]

/-! ## Looking up -/

/-- Looking a module up changes nothing, and depends on what its path leads to. -/
theorem get_apply (c : Store) (s : Specifier) (v : Volume) :
    (c.get s : ExceptT LoadError (StateM Volume) (Option String)) v =
      (match (v.read (c.path s)).bind textOf with
        | .ok source => .ok (some source)
        | .error .notFound => .ok none
        | .error fault => .error (.cache (c.path s) fault.message), v) := by
  unfold Store.get
  generalize c.path s = path
  show (match (v.read path).bind textOf with
    | .ok source => (pure (some source) : ExceptT LoadError (StateM Volume) (Option String))
    | .error .notFound => pure none
    | .error fault => throw (LoadError.cache path fault.message)) v = _
  generalize (v.read path).bind textOf = found
  cases found with
  | ok source => rfl
  | error fault => cases fault <;> rfl

/-- What is looked up for a module does not depend on other modules. -/
theorem get_congr (h : ApartFrom root s v w) (opened : c.IsOpen root v)
    (opened' : c.IsOpen root w) :
    ((c.get s : ExceptT LoadError (StateM Volume) (Option String)) w).1 =
      ((c.get s : ExceptT LoadError (StateM Volume) (Option String)) v).1 := by
  rw [get_apply, get_apply]
  unfold Volume.read
  rw [h.find_path opened opened']

/-! ## Putting -/

/-- What comes of putting a module into the cache: a path can be too long, and a file can be in the
way of a directory. -/
def putOutcome (c : Store) (root : List String) (s : Specifier) (v : Volume) :
    Except LoadError Unit :=
  match v.checkPath (c.directory s) with
  | .error fault => .error (.io (c.directory s) fault)
  | .ok _ =>
    match (v.makeBelow (basePlace root) (encodeKey s.text).dropLast).1 with
    | .error fault => .error (.io (c.directory s) fault)
    | .ok _ =>
      match v.checkPath (c.path s) with
      | .error fault => .error (.cache (c.path s) fault.message)
      | .ok _ => .ok ()

/-- What comes of putting a module into the cache does not depend on other modules. -/
theorem putOutcome_congr (h : ApartFrom root s v w) (opened : c.IsOpen root v)
    (opened' : c.IsOpen root w) : c.putOutcome root s w = c.putOutcome root s v := by
  have made : (w.makeBelow (basePlace root) (encodeKey s.text).dropLast).1 =
      (v.makeBelow (basePlace root) (encodeKey s.text).dropLast).1 := by
    have part {front back : List String} (split : (encodeKey s.text).dropLast = front ++ back) :
        front <+: encodeKey s.text :=
      List.IsPrefix.trans ⟨back, split.symm⟩ (List.dropLast_prefix _)
    rcases Volume.makeBelow_cases opened.tree opened.get?_base (opened.fits_dropLast s) with
      ⟨front, back, content, split, file, failed⟩ | ⟨v', ok, -, extended, directories⟩
    · have here := (h.file_iff (part split) content).mpr file
      rcases Volume.makeBelow_cases opened'.tree opened'.get?_base (opened'.fits_dropLast s) with
        ⟨front', back', content', split', file', failed'⟩ | ⟨w', -, -, extended', directories'⟩
      · obtain rfl := Volume.file_unique opened'.tree (split.symm.trans split') here file'
        obtain rfl := List.append_cancel_left (split.symm.trans split')
        rw [failed, failed']
      · have directory := directories' front ⟨back, split.symm⟩
        rw [extended'.get?_eq_some here] at directory
        cases directory
    · rcases Volume.makeBelow_cases opened'.tree opened'.get?_base (opened'.fits_dropLast s) with
        ⟨front', back', content', split', file', -⟩ | ⟨w', ok', -⟩
      · have here := (h.file_iff (part split') content').mp file'
        have directory := directories front' ⟨back', split'.symm⟩
        rw [extended.get?_eq_some here] at directory
        cases directory
      · rw [ok, ok']
  unfold putOutcome
  rw [h.checkPath, h.checkPath, made]

/-! ## Actions on a file system -/

theorem bind_apply {α β : Type} (x : ExceptT LoadError (StateM Volume) α)
    (f : α → ExceptT LoadError (StateM Volume) β) (v : Volume) :
    (x >>= f) v = match x v with
      | (.ok a, w) => f a w
      | (.error e, w) => (.error e, w) := by
  simp only [bind, ExceptT.bind, ExceptT.mk, StateT.bind]
  rcases x v with ⟨result, w⟩
  cases result <;> rfl

theorem lift_apply {α : Type} (x : StateM Volume α) (v : Volume) :
    (liftM x : ExceptT LoadError (StateM Volume) α) v = (.ok (x v).1, (x v).2) := rfl

theorem orIo_apply {α : Type} (path : String) (action : StateM Volume (Except FileFault α))
    (v : Volume) : (orIo path action : ExceptT LoadError (StateM Volume) α) v =
      ((action v).1.mapError (.io path), (action v).2) := by
  rw [orIo, bind_apply, lift_apply]
  dsimp only
  cases (action v).1 <;> rfl

theorem orCache_apply {α : Type} (path : String) (action : StateM Volume (Except FileFault α))
    (v : Volume) : (orCache path action : ExceptT LoadError (StateM Volume) α) v =
      ((action v).1.mapError fun fault => .cache path fault.message, (action v).2) := by
  rw [orCache, bind_apply, lift_apply]
  dsimp only
  cases (action v).1 <;> rfl

/-- Writing a file and publishing it under a path. -/
def write (c : Store) (path : String) (content : ByteArray) (v : Volume) :
    Except LoadError Unit × Volume :=
  match v.stage c.staging content with
  | (.error fault, v) => (.error (.cache c.staging fault.message), v)
  | (.ok staged, v) =>
    match v.publish staged path with
    | (.ok _, v) => (.ok (), v)
    | (.error fault, v) =>
      (if fault = .alreadyExists then .ok () else .error (.cache path fault.message),
        (v.removeFile staged).2)

/-- Putting a source into the cache: the directories are made first. -/
theorem put_apply (c : Store) (s : Specifier) (source : String) (v : Volume) :
    (c.put s source : ExceptT LoadError (StateM Volume) Unit) v =
      match v.makeDirectories (parent (c.path s)) with
      | (.error fault, v) => (.error (.io (parent (c.path s)) fault), v)
      | (.ok _, v) => c.write (c.path s) source.toUTF8 v := by
  unfold Store.put makeDirectory
  generalize c.path s = path
  rw [bind_apply, orIo_apply]
  have made : (Disk.makeDirectories (parent path) : StateM Volume _) v =
    v.makeDirectories (parent path) := rfl
  rw [made]
  rcases v.makeDirectories (parent path) with ⟨_ | _, v₁⟩
  · rfl
  · dsimp only [Except.mapError, write]
    rw [bind_apply, orCache_apply]
    have staged : (Disk.stage c.staging source.toUTF8 : StateM Volume _) v₁ =
      v₁.stage c.staging source.toUTF8 := rfl
    rw [staged]
    rcases v₁.stage c.staging source.toUTF8 with ⟨_ | staged, v₂⟩
    · rfl
    · dsimp only [Except.mapError]
      rw [bind_apply, lift_apply]
      have published : (Disk.publish staged path : StateM Volume _) v₂ =
        v₂.publish staged path := rfl
      rw [published]
      rcases v₂.publish staged path with ⟨fault | _, v₃⟩
      · dsimp only
        rw [bind_apply, lift_apply]
        dsimp only
        split <;> rfl
      · rfl

/-! ## What a cache has after putting -/

/-- Making the directories on the way to the file of a module. -/
theorem IsOpen.makeDirectories (h : c.IsOpen root v) (s : Specifier) :
    v.makeDirectories (c.directory s) =
      match v.checkPath (c.directory s) with
      | .error fault => (.error fault, v)
      | .ok _ => v.makeBelow (basePlace root) (encodeKey s.text).dropLast := by
  obtain ⟨closed, absolute, names⟩ := directory_spec c s
  have origin : v.origin (c.directory s) = v.origin c.base := by
    unfold Volume.origin
    rw [absolute]
  obtain ⟨-, followed, directory⟩ := Volume.locate_of_find h.base
  unfold Volume.makeDirectories
  rw [if_neg (by simpa using closed.filled), origin, names]
  cases v.checkPath (c.directory s) with
  | error fault => rfl
  | ok checked => exact Volume.makeBelow_append _ followed directory

/-- Staging a file. -/
theorem IsOpen.stage (h : c.IsOpen root v) (content : ByteArray) :
    v.stage c.staging content = (.ok (join c.staging (v.freshName (stagingPlace root))),
      v.set (stagingPlace root ++ [v.freshName (stagingPlace root)]) (.file content)) := by
  unfold Volume.stage
  rw [h.staging]

/-- A staged file is found. -/
theorem IsOpen.find_staged (h : c.IsOpen root v) (content : ByteArray) :
    (v.set (stagingPlace root ++ [v.freshName (stagingPlace root)]) (.file content)).find
        (join c.staging (v.freshName (stagingPlace root))) =
      .ok (stagingPlace root ++ [v.freshName (stagingPlace root)], .file content) := by
  have isName := v.isName_freshName (stagingPlace root)
  have free := v.get?_freshName (stagingPlace root)
  have shortName := h.stagedName
  have shortPath := h.stagedPath
  generalize v.freshName (stagingPlace root) = name at *
  have filled : stagingPlace root ++ [name] ≠ [] := by simp
  obtain ⟨allowed, followed, directory⟩ := Volume.locate_of_find h.staging
  have extended := Volume.extends_set filled free (.file content)
  have checked : (v.set (stagingPlace root ++ [name]) (.file content)).checkPath
      (join c.staging name) = .ok () := by
    have closed := isClosed_join isName c.staging
    have nul : (join c.staging name).toList.contains '\x00' = false := by
      rw [toList_join_of_isClosed isName (isClosed_staging c)]
      have clean : '\x00' ∉ c.staging.toList := by
        unfold Volume.checkPath at allowed
        split at allowed
        · cases allowed
        · split at allowed
          · cases allowed
          case isFalse clean => simpa using clean
      simpa [clean] using isName.nul
    rw [extended.checkPath]
    unfold Volume.checkPath
    rw [if_neg (by simpa using closed.filled), nul, shortPath]
    rfl
  have located : (v.set (stagingPlace root ++ [name]) (.file content)).follow
      ((v.set (stagingPlace root ++ [name]) (.file content)).origin (join c.staging name))
      (Volume.names (join c.staging name)) = .ok (stagingPlace root ++ [name]) := by
    have origin : v.origin (join c.staging name) = v.origin c.staging := by
      unfold Volume.origin
      rw [isAbsolute_join isName]
    rw [extended.origin, origin, names_join isName]
    apply extended.follow
    rw [Volume.follow_append, followed]
    have plain : (name == "..") = false := beq_eq_false_iff_ne.mpr isName.dots
    show v.follow (stagingPlace root) [name] = _
    rw [Volume.follow, directory]
    dsimp only
    rw [shortName, plain]
    rfl
  unfold Volume.find Volume.locate
  rw [checked]
  simp only [bind, Except.bind, located]
  rw [Volume.get?_set _ filled, if_pos rfl]
  dsimp only
  rw [namesDirectory_join isName]
  rfl

/-- The path of a module leads to the place of its file once there is a directory for it. -/
theorem IsOpen.locate_path (h : c.IsOpen root v) (s : Specifier)
    (directory : v.get? (basePlace root ++ (encodeKey s.text).dropLast) = some .directory) :
    v.locate (c.path s) = (v.checkPath (c.path s)).map fun _ => filePlace root s := by
  obtain ⟨absolute, names, -, -⟩ := path_spec c s
  obtain ⟨name, key, -⟩ := exists_key s
  have origin : v.origin (c.path s) = v.origin c.base := by
    unfold Volume.origin
    rw [absolute]
  obtain ⟨-, followed, -⟩ := Volume.locate_of_find h.base
  have fits := h.fits s
  rw [key] at fits
  have way := Volume.follow_concat h.tree fits directory
  rw [← key] at way
  unfold Volume.locate
  cases v.checkPath (c.path s) with
  | error fault => rfl
  | ok _ =>
    simp only [bind, Except.bind, Except.map]
    rw [origin, names, Volume.follow_append, followed]
    simp only [Except.bind, way, filePlace]

/-- What comes of writing the file of a module for which there is a directory: a file that cannot be
published is taken away again. -/
theorem IsOpen.write_spec (h : c.IsOpen root v) (s : Specifier) (content : ByteArray)
    (directory : v.get? (basePlace root ++ (encodeKey s.text).dropLast) = some .directory) :
    ∃ w, c.write (c.path s) content v = ((match v.checkPath (c.path s) with
        | .error fault => .error (.cache (c.path s) fault.message)
        | .ok _ => .ok ()), w) ∧ c.IsOpen root w ∧ v.Extends w (Adds root s) ∧
      w.get? (filePlace root s) = match v.checkPath (c.path s) with
        | .error _ => v.get? (filePlace root s)
        | .ok _ => some ((v.get? (filePlace root s)).getD (.file content)) := by
  obtain ⟨name, key, -⟩ := exists_key s
  have free := v.get?_freshName (stagingPlace root)
  have found := h.find_staged content
  have made := h.stage content
  have located := h.locate_path s directory
  generalize v.freshName (stagingPlace root) = fresh at free found made
  have filled : stagingPlace root ++ [fresh] ≠ [] := by simp
  have extended := Volume.extends_set filled free (.file content)
  have erased := Volume.get?_erase_set h.tree free (.file content)
  generalize v.set (stagingPlace root ++ [fresh]) (.file content) = v₁ at found made extended erased
  have tree := Volume.IsTree.congr h.tree erased
  have left : v.Extends (v₁.erase (stagingPlace root ++ [fresh])) (Adds root s) :=
    ⟨extended.limits, extended.start, fun q => .inl (erased q)⟩
  have removed : v₁.removeFile (join c.staging fresh) =
      (.ok (), v₁.erase (stagingPlace root ++ [fresh])) := by
    unfold Volume.removeFile
    rw [found]
  have present : v₁.get? (filePlace root s) = v.get? (filePlace root s) := by
    apply extended.get?_eq_of_not_new
    rintro e ⟨same, -⟩
    exact ne_staging root _ _ same
  unfold write Volume.publish
  rw [made]
  dsimp only
  rw [found]
  cases allowed : v.checkPath (c.path s) with
  | error fault =>
    have refused : v₁.locate (c.path s) = .error fault := by
      unfold Volume.locate
      rw [extended.checkPath, allowed]
      rfl
    rw [refused]
    dsimp only
    rw [if_neg (Volume.checkPath_ne_alreadyExists allowed), removed]
    exact ⟨_, rfl, h.extends left tree fun q e => adds_base, left, erased _⟩
  | ok _ =>
    rw [allowed] at located
    have located : v₁.locate (c.path s) = .ok (filePlace root s) := extended.locate located
    rw [located]
    dsimp only
    rw [present]
    cases inPlace : v.get? (filePlace root s) with
    | some entry =>
      rw [Option.isSome_some, if_pos rfl]
      dsimp only
      rw [if_pos rfl, removed]
      exact ⟨_, rfl, h.extends left tree fun q e => adds_base, left, (erased _).trans inPlace⟩
    | none =>
      rw [Option.isSome_none, if_neg Bool.false_ne_true]
      dsimp only
      have none := (erased (filePlace root s)).trans inPlace
      have way := (erased _).trans directory
      have some : filePlace root s ≠ [] := by
        rw [filePlace, key]
        simp
      have published := Volume.extends_set some none (.file content)
      have new : (v₁.erase (stagingPlace root ++ [fresh])).Extends _ (Adds root s) :=
        published.mono fun q e ⟨here, file⟩ => .inr ⟨here, content, file⟩
      have last : filePlace root s = basePlace root ++ (encodeKey s.text).dropLast ++ [name] := by
        rw [List.append_assoc, ← key, filePlace]
      have tree' : ((v₁.erase (stagingPlace root ++ [fresh])).set (filePlace root s)
          (.file content)).IsTree := by
        rw [last] at none ⊢
        exact tree.set way none _
      refine ⟨_, rfl, h.extends (left.trans new) tree' fun q e => adds_base, left.trans new, ?_⟩
      rw [Volume.get?_set _ some, if_pos rfl]
      rfl

/-- What comes of putting a source into an open cache, and what is in the file system afterwards: the
cache is open, nothing but the file of the module and the directories on the way to it is new, and the
file of the module has the source in it, unless there was something in its place. -/
theorem put_spec (h : c.IsOpen root v) (s : Specifier) (source : String) :
    ∃ w, (c.put s source : ExceptT LoadError (StateM Volume) Unit) v = (c.putOutcome root s v, w) ∧
      c.IsOpen root w ∧ v.Extends w (Adds root s) ∧
      w.get? (filePlace root s) = match c.putOutcome root s v with
        | .error _ => v.get? (filePlace root s)
        | .ok _ => some ((v.get? (filePlace root s)).getD (.file source.toUTF8)) := by
  obtain ⟨name, key, -⟩ := exists_key s
  rw [put_apply, (path_spec c s).2.2.2, h.makeDirectories]
  unfold putOutcome
  cases allowed : v.checkPath (c.directory s) with
  | error fault => exact ⟨v, rfl, h, .refl v _, rfl⟩
  | ok _ =>
    dsimp only
    rcases Volume.makeBelow_cases h.tree h.get?_base (h.fits_dropLast s) with
      ⟨front, back, content, -, -, failed⟩ | ⟨v₁, made, tree₁, extended, directories⟩
    · rw [failed]
      exact ⟨v, rfl, h, .refl v _, rfl⟩
    · rw [made]
      dsimp only
      have adds : v.Extends v₁ (Adds root s) := extended.mono fun q e new => .inl new
      have opened := h.extends adds tree₁ fun q e => adds_base
      have present : v₁.get? (filePlace root s) = v.get? (filePlace root s) := by
        apply extended.get?_eq_of_not_new
        rintro e ⟨-, front, isPrefix, same⟩
        rw [filePlace] at same
        have same := List.append_cancel_left same
        have short := isPrefix.length_le
        rw [← same, key, List.dropLast_concat, List.length_append, List.length_singleton] at short
        omega
      obtain ⟨w, written, opened', adds', file⟩ :=
        opened.write_spec s source.toUTF8 (directories _ List.prefix_rfl)
      rw [adds.checkPath] at written file
      rw [present] at file
      rw [written]
      refine ⟨w, rfl, opened', adds.trans adds', ?_⟩
      rw [file]
      cases v.checkPath (c.path s) <;> rfl

end Store

end ModuleLinker.Cache
