import ModuleLinker.Proofs.Cache.Kept

/-!
# The steps of a writer

Putting a source into a cache takes several steps on the file system: the directories are made, a file
with a name of its own is made, the source is written into it, the file is published, and it is taken
away where there is something in its place already. A writer that takes its steps on its own does what
`Store.put` does (`Writer.alone`).

What each step does to the files is said for a cache that is kept, whatever other writers have in the
directory of the files that are being written: one lemma for each phase, with the phase that comes next,
so that nothing later opens the steps again.
-/

set_option autoImplicit false

namespace ModuleLinker

open Files

namespace Files.Volume

/-- Writes a content into a file that is there. -/
def fill (v : Volume) (path : String) (content : ByteArray) : Except FileFault Unit × Volume :=
  match v.find path with
  | .error fault => (.error fault, v)
  | .ok (_, .directory) => (.error .isDirectory, v)
  | .ok (place, .file _) => (.ok (), v.set place (.file content))

end Files.Volume

namespace Cache

/-! ## Writers -/

/-- How far a writer has come. -/
inductive Phase where
  /-- It has done nothing yet. -/
  | waiting
  /-- There are directories for the file. -/
  | ready
  /-- It has made a file, with nothing in it. -/
  | staged (path : String)
  /-- It has written the source into its file. -/
  | written (path : String)
  /-- Its file was not published and has to be taken away. -/
  | refused (path : String) (outcome : Except LoadError Bool)
  /-- It has ended; the outcome says whether its file was published. -/
  | done (outcome : Except LoadError Bool)

namespace Phase

/-- How many steps there are left. -/
def left : Phase → Nat
  | waiting => 5
  | ready => 4
  | staged _ => 3
  | written _ => 2
  | refused _ _ => 1
  | done _ => 0

/-- Whether the step in which the file is published has been taken. -/
def hasTried : Phase → Bool
  | refused _ _ | done _ => true
  | _ => false

theorem exists_done {phase : Phase} (ended : phase.left = 0) : ∃ outcome, phase = .done outcome := by
  cases phase with
  | done outcome => exact ⟨outcome, rfl⟩
  | _ => simp [left] at ended

theorem left_le (phase : Phase) : phase.left ≤ 5 := by
  cases phase <;> simp [left]

end Phase

/-- Somebody who puts the source of a module into a cache. -/
structure Writer where
  specifier : Specifier
  source : String
  phase : Phase

namespace Writer

/-- The path of the file of a writer that is not published yet, and what is in it. -/
def staged? (w : Writer) : Option (String × ByteArray) :=
  match w.phase with
  | .staged path => some (path, .empty)
  | .written path | .refused path _ => some (path, w.source.toUTF8)
  | _ => none

/-- What comes of the next step of a writer. -/
def advance (c : Store) (w : Writer) (v : Volume) : Phase × Volume :=
  match w.phase with
  | .waiting =>
    match v.makeDirectories (parent (c.path w.specifier)) with
    | (.ok _, v) => (.ready, v)
    | (.error fault, v) => (.done (.error (.io (parent (c.path w.specifier)) fault)), v)
  | .ready =>
    match v.stage c.staging .empty with
    | (.ok path, v) => (.staged path, v)
    | (.error fault, v) => (.done (.error (.cache c.staging fault.message)), v)
  | .staged path =>
    match v.fill path w.source.toUTF8 with
    | (.ok _, v) => (.written path, v)
    | (.error fault, v) => (.refused path (.error (.cache path fault.message)), v)
  | .written path =>
    match v.publish path (c.path w.specifier) with
    | (.ok _, v) => (.done (.ok true), v)
    | (.error fault, v) =>
      (.refused path (if fault = .alreadyExists then .ok false
        else .error (.cache (c.path w.specifier) fault.message)), v)
  | .refused path outcome => (.done outcome, (v.removeFile path).2)
  | .done outcome => (.done outcome, v)

/-- The next step of a writer. -/
def step (c : Store) (w : Writer) (v : Volume) : Writer × Volume :=
  ({ w with phase := (w.advance c v).1 }, (w.advance c v).2)

/-- Some steps of a writer, with nobody else in between. -/
def steps (c : Store) : Nat → Writer × Volume → Writer × Volume
  | 0, state => state
  | n + 1, state => steps c n (state.1.step c state.2)

/-- Every step leaves fewer steps. -/
theorem left_advance (c : Store) (w : Writer) (v : Volume) :
    (w.advance c v).1.left ≤ w.phase.left - 1 := by
  unfold advance
  cases w.phase with
  | waiting | ready | staged path | written path =>
    dsimp only
    split <;> simp [Phase.left]
  | refused path outcome => simp [Phase.left]
  | done outcome => simp [Phase.left]

theorem steps_done (c : Store) (n : Nat) {w : Writer} {outcome : Except LoadError Bool}
    (ended : w.phase = .done outcome) (v : Volume) : steps c n (w, v) = (w, v) := by
  obtain ⟨s, source, phase⟩ := w
  cases ended
  induction n with
  | zero => rfl
  | succ n ih => exact ih

variable {c : Store} {root : List String} {u v w : Volume}

theorem steps_succ {writer : Writer} {phase : Phase} (h : writer.advance c v = (phase, w)) (n : Nat) :
    steps c (n + 1) (writer, v) = steps c n ({ writer with phase := phase }, w) := by
  rw [steps, step, h]

theorem set_set (v : Volume) (place : List String) (entry entry' : Entry) :
    (v.set place entry).set place entry' = v.set place entry' := by
  simp [Volume.set, List.filter_filter]

/-- The directories on the way to the file of a module are made in an open cache. -/
theorem isOpen_makeDirectories (h : c.IsOpen root v) {s : Specifier}
    (made : v.makeDirectories (c.directory s) = (.ok (), w)) : c.IsOpen root w := by
  rw [h.makeDirectories] at made
  split at made
  · cases made
  · rcases Volume.makeBelow_cases h.tree h.get?_base (h.fits_dropLast s) with
      ⟨front, back, content, -, -, failed⟩ | ⟨x, made', tree, extended, -⟩
    · rw [failed] at made
      cases made
    · rw [made'] at made
      cases made
      apply h.extends extended tree
      rintro q e ⟨-, front, -, same⟩
      exact ⟨front, same⟩

/-- A writer that takes its steps on its own does what putting the source into the cache does. -/
theorem alone (h : c.IsOpen root v) (s : Specifier) (source : String) :
    ∃ outcome x, (c.put s source : ExceptT LoadError (StateM Volume) Unit) v =
        (outcome.map fun _ => (), x) ∧
      steps c 5 (⟨s, source, .waiting⟩, v) = (⟨s, source, .done outcome⟩, x) := by
  have parent : parent (c.path s) = c.directory s := (Store.path_spec c s).2.2.2
  rw [Store.put_apply]
  rcases made : v.makeDirectories (Files.parent (c.path s)) with ⟨fault | _, v₁⟩
  · have first : advance c ⟨s, source, .waiting⟩ v =
        (.done (.error (.io (Files.parent (c.path s)) fault)), v₁) := by
      simp only [advance, made]
    refine ⟨.error (.io (Files.parent (c.path s)) fault), v₁, rfl, ?_⟩
    rw [steps_succ first]
    exact steps_done c 4 rfl v₁
  · have opened : c.IsOpen root v₁ := isOpen_makeDirectories h (parent ▸ made)
    have first : advance c ⟨s, source, .waiting⟩ v = (.ready, v₁) := by
      simp only [advance, made]
    have stage := opened.stage
    have found := opened.find_staged
    generalize join c.staging (v₁.freshName (Store.stagingPlace root)) = path at stage found
    generalize Store.stagingPlace root ++ [v₁.freshName (Store.stagingPlace root)] = place
      at stage found
    have second : advance c ⟨s, source, .ready⟩ v₁ =
        (.staged path, v₁.set place (.file .empty)) := by
      simp only [advance, stage]
    have third : advance c ⟨s, source, .staged path⟩ (v₁.set place (.file .empty)) =
        (.written path, v₁.set place (.file source.toUTF8)) := by
      simp only [advance, Volume.fill, found, set_set]
    dsimp only [Store.write]
    rw [stage]
    dsimp only
    rcases published : (v₁.set place (.file source.toUTF8)).publish path (c.path s) with
      ⟨fault | _, v₂⟩
    · have fourth : advance c ⟨s, source, .written path⟩ (v₁.set place (.file source.toUTF8)) =
          (.refused path (if fault = .alreadyExists then .ok false
            else .error (.cache (c.path s) fault.message)), v₂) := by
        simp only [advance, published]
      have fifth (outcome : Except LoadError Bool) : advance c ⟨s, source, .refused path outcome⟩ v₂ =
          (.done outcome, (v₂.removeFile path).2) := rfl
      rw [steps_succ first, steps_succ second, steps_succ third, steps_succ fourth,
        steps_succ (fifth _)]
      refine ⟨_, (v₂.removeFile path).2, ?_, rfl⟩
      by_cases there : fault = .alreadyExists <;> simp [there, Except.map]
    · have fourth : advance c ⟨s, source, .written path⟩ (v₁.set place (.file source.toUTF8)) =
          (.done (.ok true), v₂) := by
        simp only [advance, published]
      rw [steps_succ first, steps_succ second, steps_succ third, steps_succ fourth]
      exact ⟨.ok true, v₂, rfl, steps_done c 1 rfl v₂⟩

/-! ## What one step does -/

/-- The file of a writer that is not published yet is in its place. -/
def HasFile (c : Store) (root : List String) (v : Volume) (path name : String) (content : ByteArray) :
    Prop :=
  IsName name ∧ path = join c.staging name ∧
    v.get? (Store.stagingPlace root ++ [name]) = some (.file content)

/-- The directories on the way to the file are there. -/
def HasDirectory (root : List String) (v : Volume) (s : Specifier) : Prop :=
  v.get? (Store.basePlace root ++ (encodeKey s.text).dropLast) = some .directory

variable {writer : Writer} {s : Specifier} {path name : String} {content : ByteArray}
  {outcome : Except LoadError Bool}

theorem HasFile.find (h : HasFile c root v path name content) (kept : c.IsKept root u v) :
    v.find path = .ok (Store.stagingPlace root ++ [name], .file content) := by
  obtain ⟨isName, rfl, file⟩ := h
  exact Volume.find_join kept.unlimited isName kept.find_staging file

/-- A cache is kept when something in the directory of the files that are being written changes. -/
theorem isKept_of_staging (h : c.IsKept root u v) (tree : w.IsTree) (keeps : v.Keeps w)
    (same : ∀ q, q ≠ Store.stagingPlace root ++ [name] → w.get? q = v.get? q) :
    c.IsKept root u w := by
  apply h.of_old tree (h.keeps.trans keeps)
  intro below entry _ found
  rwa [same _ (Store.ne_staging root below [name])] at found

theorem advance_waiting (h : c.IsKept root u v) (phase : writer.phase = .waiting) :
    ∃ x, writer.advance c v = (.ready, x) ∧ c.IsKept root u x ∧
      v.Extends x (Store.Adds root writer.specifier) ∧ HasDirectory root x writer.specifier ∧
      ∀ t, x.get? (Store.filePlace root t) = v.get? (Store.filePlace root t) := by
  obtain ⟨x, made, tree, extended, directories⟩ := h.makeBelow writer.specifier
  have adds : v.Extends x (Store.Adds root writer.specifier) := extended.mono fun q e new => .inl new
  have kept := h.extends adds tree
  have parent : parent (c.path writer.specifier) = c.directory writer.specifier :=
    (Store.path_spec c writer.specifier).2.2.2
  refine ⟨x, ?_, kept, adds, directories _ List.prefix_rfl, fun t => ?_⟩
  · simp only [advance, phase, parent, h.isOpen.makeDirectories, h.checkPath_directory, made]
  · rcases extended.get? (Store.filePlace root t) with same | ⟨-, e, found, rfl, -⟩
    · exact same
    · exact absurd found (kept.not_directory t)

theorem advance_ready (h : c.IsKept root u v) (phase : writer.phase = .ready) :
    ∃ name x, writer.advance c v = (.staged (join c.staging name), x) ∧ c.IsKept root u x ∧
      v.Keeps x ∧ IsName name ∧ v.get? (Store.stagingPlace root ++ [name]) = none ∧
      ∀ q, x.get? q =
        if q = Store.stagingPlace root ++ [name] then some (.file .empty) else v.get? q := by
  have free := v.get?_freshName (Store.stagingPlace root)
  have filled (name : String) : Store.stagingPlace root ++ [name] ≠ [] := by simp
  have directory := (Volume.locate_of_find h.find_staging).2.2
  have keeps := (Volume.extends_set (filled _) free (.file .empty)).keeps
  refine ⟨v.freshName (Store.stagingPlace root), _, ?_, ?_, keeps, v.isName_freshName _, free,
    Volume.get?_set v (filled _) _⟩
  · simp only [advance, phase, h.isOpen.stage]
  · apply isKept_of_staging h (h.tree.set directory free _) keeps
    intro q other
    rw [Volume.get?_set v (filled _), if_neg other]

theorem advance_staged (h : c.IsKept root u v) (phase : writer.phase = .staged path)
    (file : HasFile c root v path name content) :
    ∃ x, writer.advance c v = (.written path, x) ∧ c.IsKept root u x ∧ v.Keeps x ∧
      ∀ q, x.get? q = if q = Store.stagingPlace root ++ [name]
        then some (.file writer.source.toUTF8) else v.get? q := by
  have filled : Store.stagingPlace root ++ [name] ≠ [] := by simp
  have same := Volume.get?_set v filled (.file writer.source.toUTF8)
  obtain ⟨tree, keeps⟩ := h.tree.set_file file.2.2 writer.source.toUTF8
  refine ⟨_, ?_, ?_, keeps, same⟩
  · simp only [advance, phase, Volume.fill, file.find h]
  · apply isKept_of_staging h tree keeps
    intro q other
    rw [same, if_neg other]

theorem locate_path (h : c.IsKept root u v) (directory : HasDirectory root v s) :
    v.locate (c.path s) = .ok (Store.filePlace root s) := by
  rw [h.isOpen.locate_path s directory, h.checkPath_path]
  rfl

theorem advance_written_of_none (h : c.IsKept root u v) (phase : writer.phase = .written path)
    (file : HasFile c root v path name writer.source.toUTF8)
    (directory : HasDirectory root v writer.specifier)
    (none : v.get? (Store.filePlace root writer.specifier) = none) :
    ∃ x, writer.advance c v = (.done (.ok true), x) ∧ c.IsKept root u x ∧ v.Keeps x ∧
      ∀ q, x.get? q = if q = Store.filePlace root writer.specifier
        then some (.file writer.source.toUTF8)
        else if q = Store.stagingPlace root ++ [name] then .none else v.get? q := by
  have located := locate_path h directory
  obtain ⟨s, source, _⟩ := writer
  dsimp only at phase file directory none located ⊢
  obtain ⟨last, key, -⟩ := Store.exists_key s
  -- The staged file is gone first, and the file of the module is there then.
  have erased := Volume.get?_erase_file h.tree file.2.2
  have keeps := Volume.keeps_erase_file h.tree file.2.2
  have kept : c.IsKept root u (v.erase (Store.stagingPlace root ++ [name])) := by
    apply isKept_of_staging h (h.tree.erase (by simp)) keeps
    intro q other
    rw [erased, if_neg other]
  have absent : (v.erase (Store.stagingPlace root ++ [name])).get? (Store.filePlace root s) = .none := by
    rw [erased, none, ite_self]
  have filled : Store.filePlace root s ≠ [] := by simp [Store.filePlace, Store.basePlace]
  have place : Store.filePlace root s =
      Store.basePlace root ++ (encodeKey s.text).dropLast ++ [last] := by
    rw [List.append_assoc, ← key, Store.filePlace]
  have extended := Volume.extends_set filled absent (.file source.toUTF8)
  have tree : ((v.erase (Store.stagingPlace root ++ [name])).set (Store.filePlace root s)
      (.file source.toUTF8)).IsTree := by
    rw [place] at absent ⊢
    exact kept.tree.set (keeps.directory _ directory) absent _
  have adds : Volume.Extends _ _ (Store.Adds root s) := extended.mono fun q e new =>
    .inr ⟨new.1, source.toUTF8, new.2⟩
  refine ⟨_, ?_, kept.extends adds tree, keeps.trans extended.keeps, fun q => ?_⟩
  · simp only [advance, phase, Volume.publish, file.find h, located, none]
    rfl
  · rw [Volume.get?_set _ filled, erased]

theorem advance_written_of_some (h : c.IsKept root u v) (phase : writer.phase = .written path)
    (file : HasFile c root v path name writer.source.toUTF8)
    (directory : HasDirectory root v writer.specifier)
    (some : v.get? (Store.filePlace root writer.specifier) ≠ none) :
    writer.advance c v = (.refused path (.ok false), v) := by
  simp only [advance, phase, Volume.publish, file.find h, locate_path h directory]
  rw [if_pos (Option.isSome_iff_ne_none.mpr some)]
  rfl

theorem advance_refused (h : c.IsKept root u v) (phase : writer.phase = .refused path outcome)
    (file : HasFile c root v path name content) :
    ∃ x, writer.advance c v = (.done outcome, x) ∧ c.IsKept root u x ∧ v.Keeps x ∧
      ∀ q, x.get? q = if q = Store.stagingPlace root ++ [name] then none else v.get? q := by
  have same := Volume.get?_erase_file h.tree file.2.2
  have keeps := Volume.keeps_erase_file h.tree file.2.2
  refine ⟨_, ?_, ?_, keeps, same⟩
  · simp only [advance, phase, Volume.removeFile, file.find h]
  · apply isKept_of_staging h (h.tree.erase (by simp)) keeps
    intro q other
    rw [same, if_neg other]

/-- A writer that did not publish its file, or is about to end so, has found one in its place; the file
of one that did is in its place. -/
def Settled (root : List String) (v : Volume) (w : Writer) : Prop :=
  match w.phase with
  | .refused _ outcome =>
    outcome = .ok false ∧ v.get? (Store.filePlace root w.specifier) ≠ none
  | .done outcome =>
    outcome = .ok false ∧ v.get? (Store.filePlace root w.specifier) ≠ none ∨
      outcome = .ok true ∧ v.get? (Store.filePlace root w.specifier) = some (.file w.source.toUTF8)
  | _ => True

/-- Whether a writer has published its file. -/
def Won (w : Writer) : Prop := w.phase = .done (.ok true)

theorem Settled.congr {writer : Writer} (h : writer.Settled root v)
    (same : w.get? (Store.filePlace root writer.specifier) =
      v.get? (Store.filePlace root writer.specifier)) : writer.Settled root w := by
  unfold Settled at h ⊢
  rwa [same]

/-- A writer whose file is not there has not tried to publish it. -/
theorem Settled.not_hasTried {writer : Writer} (h : writer.Settled root v)
    (none : v.get? (Store.filePlace root writer.specifier) = none) :
    writer.phase.hasTried = false := by
  unfold Settled at h
  rw [none] at h
  cases phase : writer.phase <;> simp_all [Phase.hasTried]

theorem Settled.of_not_hasTried {writer : Writer} (waiting : writer.phase.hasTried = false) :
    writer.Settled root v := by
  unfold Settled
  cases phase : writer.phase <;> simp_all [Phase.hasTried]

end Writer

end Cache

end ModuleLinker
