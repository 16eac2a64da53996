import ModuleLinker.Proofs.Cache.Writers

/-!
# Several writers of one cache

Any number of writers take their steps in any order, and modules are looked up at any time in between
(`System.Step`). `System.IsSound` is what every step keeps. It has three parts: the cache is one in which
no file is in the way of another one, every file that is being written belongs to one writer, and for
every module whose file is there exactly one writer has published it. From this it follows that nobody
sees a part of a source, that what has been seen stays, and that every writer succeeds
(`System.publication_is_atomic`).
-/

set_option autoImplicit false

namespace ModuleLinker

open Files

namespace Cache

/-! ## Writers side by side -/

/-- A file system with a cache on it, and those who write into the cache. -/
structure System (ι : Type) where
  volume : Volume
  writers : ι → Writer

namespace System

variable {ι : Type} [DecidableEq ι]

/-- The system after a step of one writer. -/
def next (c : Store) (i : ι) (σ : System ι) : System ι :=
  ⟨((σ.writers i).advance c σ.volume).2,
    Function.update σ.writers i { σ.writers i with phase := ((σ.writers i).advance c σ.volume).1 }⟩

/-- One step of a writer, or one look into the cache. -/
inductive Step (c : Store) (σ : System ι) : System ι → Prop where
  | write (i : ι) : Step c σ (σ.next c i)
  | read (s : Specifier) : Step c σ { σ with
      volume := ((c.get s : ExceptT LoadError (StateM Volume) (Option String)) σ.volume).2 }

/-- Any number of steps, in any order. -/
def Reaches (c : Store) : System ι → System ι → Prop := Relation.ReflTransGen (Step c)

/-- Every file that is being written belongs to one writer. -/
structure Owned (c : Store) (root : List String) (v : Volume)
    (staged? : ι → Option (String × ByteArray)) : Prop where
  file : ∀ i path content, staged? i = some (path, content) →
    ∃ name, Writer.HasFile c root v path name content
  owner : ∀ name, v.get? (Store.stagingPlace root ++ [name]) ≠ none →
    ∃ i path content, staged? i = some (path, content) ∧ Writer.HasFile c root v path name content
  apart : ∀ i j path content content', staged? i = some (path, content) →
    staged? j = some (path, content') → i = j

/-- For every module whose file is there, exactly one writer has published it. -/
structure Published (root : List String) (v : Volume) (writers : ι → Writer) : Prop where
  settled : ∀ i, (writers i).Settled root v
  winner : ∀ s, v.get? (Store.filePlace root s) ≠ none →
    ∃ i, (writers i).specifier.text = s.text ∧ (writers i).Won
  single : ∀ i j, (writers i).Won → (writers j).Won →
    (writers i).specifier.text = (writers j).specifier.text → i = j

/-- What is true of every system that comes from one in which the cache is empty and all writers are
waiting. -/
structure IsSound (c : Store) (root : List String) (u : Volume) (σ : System ι) : Prop where
  kept : c.IsKept root u σ.volume
  directory : ∀ i, (σ.writers i).phase ≠ .waiting →
    Writer.HasDirectory root σ.volume (σ.writers i).specifier
  owned : Owned c root σ.volume fun i => (σ.writers i).staged?
  published : Published root σ.volume σ.writers

variable {c : Store} {root : List String} {u v x : Volume} {σ τ : System ι} {i : ι}

/-! ### Files that are being written -/

omit [DecidableEq ι] in
theorem Owned.same {staged? : ι → Option (String × ByteArray)} (h : Owned c root v staged?)
    (same : ∀ name, x.get? (Store.stagingPlace root ++ [name]) =
      v.get? (Store.stagingPlace root ++ [name])) : Owned c root x staged? where
  file i path content staged := by
    obtain ⟨name, isName, path, file⟩ := h.file i path content staged
    exact ⟨name, isName, path, (same name).trans file⟩
  owner name there := by
    obtain ⟨i, path, content, staged, isName, path, file⟩ := h.owner name (same name ▸ there)
    exact ⟨i, _, content, staged, isName, path, (same name).trans file⟩
  apart := h.apart

theorem join_injective (c : Store) {name name' : String} (isName : IsName name)
    (isName' : IsName name') (same : join c.staging name = join c.staging name') : name = name' := by
  have texts := congrArg String.toList same
  rw [toList_join_of_isClosed isName (Store.isClosed_staging c),
    toList_join_of_isClosed isName' (Store.isClosed_staging c)] at texts
  exact String.toList_inj.mp (List.cons.inj (List.append_cancel_left texts)).2

/-- A writer makes a file of its own, writes into it or gives it up. -/
theorem Owned.replace {staged? : ι → Option (String × ByteArray)} (h : Owned c root v staged?)
    {name : String} (isName : IsName name) (content? : Option ByteArray)
    (mine : ∀ path content, staged? i = some (path, content) → path = join c.staging name)
    (others : ∀ j content, j ≠ i → staged? j ≠ some (join c.staging name, content))
    (same : ∀ name', name' ≠ name →
      x.get? (Store.stagingPlace root ++ [name']) = v.get? (Store.stagingPlace root ++ [name']))
    (here : x.get? (Store.stagingPlace root ++ [name]) = content?.map .file) :
    Owned c root x
      (Function.update staged? i (content?.map fun content => (join c.staging name, content))) := by
  have elsewhere {j : ι} {path : String} {content : ByteArray} (other : j ≠ i)
      (staged : staged? j = some (path, content)) {name' : String}
      (file : Writer.HasFile c root v path name' content) :
      Writer.HasFile c root x path name' content := by
    obtain ⟨isName', rfl, found⟩ := file
    refine ⟨isName', rfl, (same name' ?_).trans found⟩
    rintro rfl
    exact others j content other staged
  constructor
  case file =>
    intro j path content staged
    by_cases own : j = i
    · rw [own, Function.update_self] at staged
      obtain ⟨content', written, same⟩ := Option.map_eq_some_iff.mp staged
      cases same
      rw [written] at here
      exact ⟨name, isName, rfl, here⟩
    · rw [Function.update_of_ne own] at staged
      obtain ⟨name', file⟩ := h.file j path content staged
      exact ⟨name', elsewhere own staged file⟩
  case owner =>
    intro name' there
    by_cases own : name' = name
    · rw [own, here] at there
      obtain ⟨content, written⟩ := Option.ne_none_iff_exists'.mp (Option.map_eq_none_iff.not.mp there)
      rw [written] at here
      rw [own]
      refine ⟨i, join c.staging name, content, ?_, isName, rfl, here⟩
      rw [Function.update_self, written]
      rfl
    · rw [same name' own] at there
      obtain ⟨j, path, content, staged, file⟩ := h.owner name' there
      have other : j ≠ i := by
        rintro rfl
        have named := mine path content staged
        rw [file.2.1] at named
        exact own (join_injective c file.1 isName named)
      refine ⟨j, path, content, ?_, elsewhere other staged file⟩
      rw [Function.update_of_ne other, staged]
  case apart =>
    -- Nobody but the writer has a file with this name.
    have only {j : ι} {path : String} {content content' : ByteArray}
        (staged : content?.map (fun content => (join c.staging name, content)) = some (path, content))
        (staged' : staged? j = some (path, content')) : j = i := by
      by_contra other
      obtain ⟨text, -, written⟩ := Option.map_eq_some_iff.mp staged
      cases written
      exact others j content' other staged'
    intro j k path content content' staged staged'
    by_cases own : j = i
    · by_cases own' : k = i
      · rw [own, own']
      · rw [own, Function.update_self] at staged
        rw [Function.update_of_ne own'] at staged'
        exact own.trans (only staged staged').symm
    · rw [Function.update_of_ne own] at staged
      by_cases own' : k = i
      · rw [own', Function.update_self] at staged'
        exact (only staged' staged).trans own'.symm
      · rw [Function.update_of_ne own'] at staged'
        exact h.apart j k path content content' staged staged'

/-! ### Files that are published -/

/-- A writer takes a step in which it does not publish its file. -/
theorem Published.same {writers : ι → Writer} (h : Published root v writers) {phase : Phase}
    (same : ∀ s, x.get? (Store.filePlace root s) = v.get? (Store.filePlace root s))
    (old : (writers i).phase ≠ .done (.ok true)) (new : phase ≠ .done (.ok true))
    (settled : Writer.Settled root x { writers i with phase := phase }) :
    Published root x (Function.update writers i { writers i with phase := phase }) := by
  have won (j : ι) : (Function.update writers i { writers i with phase := phase } j).Won ↔
      (writers j).Won := by
    by_cases own : j = i
    · rw [own, Function.update_self]
      exact iff_of_false new old
    · rw [Function.update_of_ne own]
  have specifier (j : ι) : (Function.update writers i { writers i with phase := phase } j).specifier =
      (writers j).specifier := by
    by_cases own : j = i
    · rw [own, Function.update_self]
    · rw [Function.update_of_ne own]
  constructor
  case settled =>
    intro j
    by_cases own : j = i
    · rw [own, Function.update_self]
      exact settled
    · rw [Function.update_of_ne own]
      exact (h.settled j).congr (same _)
  case winner =>
    intro s there
    rw [same] at there
    obtain ⟨j, text, winner⟩ := h.winner s there
    exact ⟨j, specifier j ▸ text, (won j).mpr winner⟩
  case single =>
    intro j k first second text
    rw [specifier, specifier] at text
    exact h.single j k ((won j).mp first) ((won k).mp second) text

/-- A writer publishes its file where there is none. -/
theorem Published.publish {writers : ι → Writer} (h : Published root v writers)
    (none : v.get? (Store.filePlace root (writers i).specifier) = .none)
    (same : ∀ s, x.get? (Store.filePlace root s) =
      if Store.filePlace root s = Store.filePlace root (writers i).specifier
      then some (.file (writers i).source.toUTF8) else v.get? (Store.filePlace root s)) :
    Published root x (Function.update writers i { writers i with phase := .done (.ok true) }) := by
  have lost (j : ι) (text : (writers j).specifier.text = (writers i).specifier.text) :
      (writers j).phase.hasTried = false := by
    apply (h.settled j).not_hasTried
    rw [Store.filePlace_eq_iff.mpr text, none]
  have notWon (j : ι) (text : (writers j).specifier.text = (writers i).specifier.text) :
      ¬ (writers j).Won := by
    intro won
    have waiting := lost j text
    rw [show (writers j).phase = _ from won] at waiting
    cases waiting
  constructor
  case settled =>
    intro j
    by_cases own : j = i
    · rw [own, Function.update_self]
      exact .inr ⟨rfl, (same _).trans (if_pos rfl)⟩
    · rw [Function.update_of_ne own]
      by_cases text : (writers j).specifier.text = (writers i).specifier.text
      · exact .of_not_hasTried (lost j text)
      · apply (h.settled j).congr
        rw [same, if_neg (Store.filePlace_eq_iff.not.mpr text)]
  case winner =>
    intro s there
    rw [same] at there
    split at there
    case isTrue place =>
      refine ⟨i, ?_, ?_⟩ <;> rw [Function.update_self]
      · exact (Store.filePlace_eq_iff.mp place).symm
      · rfl
    case isFalse place =>
      obtain ⟨j, text, won⟩ := h.winner s there
      have other : j ≠ i := by
        rintro rfl
        exact place (Store.filePlace_eq_iff.mpr text.symm)
      exact ⟨j, by rw [Function.update_of_ne other]; exact ⟨text, won⟩⟩
  case single =>
    intro j k first second text
    by_cases own : j = i <;> by_cases own' : k = i
    · rw [own, own']
    · rw [own, Function.update_self, Function.update_of_ne own'] at text
      rw [Function.update_of_ne own'] at second
      exact absurd second (notWon k text.symm)
    · rw [own', Function.update_self, Function.update_of_ne own] at text
      rw [Function.update_of_ne own] at first
      exact absurd first (notWon j text)
    · rw [Function.update_of_ne own, Function.update_of_ne own'] at text
      rw [Function.update_of_ne own] at first
      rw [Function.update_of_ne own'] at second
      exact h.single j k first second text

/-! ### Every step -/

/-- What the files of all writers are after one of them has taken a step. -/
theorem staged?_update (writers : ι → Writer) (i : ι) (w : Writer) :
    (fun j => (Function.update writers i w j).staged?) =
      Function.update (fun j => (writers j).staged?) i w.staged? := by
  funext j
  by_cases own : j = i
  · rw [own, Function.update_self, Function.update_self]
  · rw [Function.update_of_ne own, Function.update_of_ne own]

/-- What has to be shown of a step of a writer. -/
theorem IsSound.of_advance (h : σ.IsSound c root u) {phase : Phase}
    (advanced : (σ.writers i).advance c σ.volume = (phase, x)) (kept : c.IsKept root u x)
    (keeps : σ.volume.Keeps x) (here : Writer.HasDirectory root x (σ.writers i).specifier)
    (owned : Owned c root x (Function.update (fun j => (σ.writers j).staged?) i
      (Writer.staged? { σ.writers i with phase := phase })))
    (published : Published root x
      (Function.update σ.writers i { σ.writers i with phase := phase })) :
    (σ.next c i).IsSound c root u := by
  unfold System.next
  rw [advanced]
  refine ⟨kept, ?_, ?_, published⟩
  · intro j moved
    by_cases own : j = i
    · simpa [own] using here
    · simp only [Function.update_of_ne own] at moved ⊢
      exact keeps.directory _ (h.directory j moved)
  · simp only [staged?_update]
    exact owned

theorem Owned.unchanged (h : σ.IsSound c root u) {phase : Phase}
    (same : ∀ name, x.get? (Store.stagingPlace root ++ [name]) =
      σ.volume.get? (Store.stagingPlace root ++ [name]))
    (staged : Writer.staged? { σ.writers i with phase := phase } = (σ.writers i).staged?) :
    Owned c root x (Function.update (fun j => (σ.writers j).staged?) i
      (Writer.staged? { σ.writers i with phase := phase })) := by
  rw [staged, Function.update_eq_self]
  exact h.owned.same same

/-- A writer that has a file is the only one with a file of that name. -/
theorem Owned.changed (h : σ.IsSound c root u) {path name : String} {content : ByteArray}
    {phase : Phase} (staged : (σ.writers i).staged? = some (path, content))
    (file : Writer.HasFile c root σ.volume path name content) (content? : Option ByteArray)
    (same : ∀ name', name' ≠ name → x.get? (Store.stagingPlace root ++ [name']) =
      σ.volume.get? (Store.stagingPlace root ++ [name']))
    (here : x.get? (Store.stagingPlace root ++ [name]) = content?.map .file)
    (staged' : Writer.staged? { σ.writers i with phase := phase } =
      content?.map fun content => (path, content)) :
    Owned c root x (Function.update (fun j => (σ.writers j).staged?) i
      (Writer.staged? { σ.writers i with phase := phase })) := by
  obtain ⟨isName, rfl, -⟩ := file
  rw [staged']
  apply h.owned.replace isName content? _ _ same here
  · intro path content' staged'
    rw [staged] at staged'
    cases staged'
    rfl
  · intro j content' other staged'
    exact other (h.owned.apart j i _ content' content staged' staged)

/-- Every writer keeps a system as it has to be. -/
theorem IsSound.next (h : σ.IsSound c root u) (i : ι) : (σ.next c i).IsSound c root u := by
  have isDirectory := h.directory i
  have hasFile := h.owned.file i
  have settled := h.published.settled i
  have noFile (s : Specifier) (name : String) :
      Store.filePlace root s ≠ Store.stagingPlace root ++ [name] := Store.ne_staging root _ [name]
  have noStaged (s : Specifier) (name : String) :
      Store.stagingPlace root ++ [name] ≠ Store.filePlace root s := (noFile s name).symm
  cases phase : (σ.writers i).phase with
  | waiting =>
    obtain ⟨x, advanced, kept, extended, directory, files⟩ := Writer.advance_waiting h.kept phase
    apply h.of_advance advanced kept extended.keeps directory
    · exact Owned.unchanged h (fun name => Store.get?_staging extended [name])
        (by simp [Writer.staged?, phase])
    · exact h.published.same files (by simp [phase]) (by simp) (.of_not_hasTried rfl)
  | ready =>
    obtain ⟨name, x, advanced, kept, keeps, isName, free, same⟩ := Writer.advance_ready h.kept phase
    apply h.of_advance advanced kept keeps (keeps.directory _ (isDirectory (by simp [phase])))
    · apply h.owned.replace isName (some .empty)
      · intro path content staged
        simp [Writer.staged?, phase] at staged
      · -- The name is nobody's, because nothing has it.
        intro j content other staged
        obtain ⟨name', isName', named, file⟩ := h.owned.file j _ content staged
        rw [← join_injective c isName isName' named, free] at file
        cases file
      · intro name' other
        rw [same, if_neg (by simpa using other)]
      · rw [same, if_pos rfl]
        rfl
    · apply h.published.same _ (by simp [phase]) (by simp) (.of_not_hasTried rfl)
      intro s
      rw [same, if_neg (noFile s name)]
  | staged path =>
    have staged : (σ.writers i).staged? = some (path, .empty) := by simp [Writer.staged?, phase]
    obtain ⟨name, file⟩ := hasFile path .empty staged
    obtain ⟨x, advanced, kept, keeps, same⟩ := Writer.advance_staged h.kept phase file
    apply h.of_advance advanced kept keeps (keeps.directory _ (isDirectory (by simp [phase])))
    · apply Owned.changed h staged file (some (σ.writers i).source.toUTF8)
      · intro name' other
        rw [same, if_neg (by simpa using other)]
      · rw [same, if_pos rfl]
        rfl
      · rfl
    · apply h.published.same _ (by simp [phase]) (by simp) (.of_not_hasTried rfl)
      intro s
      rw [same, if_neg (noFile s name)]
  | written path =>
    have staged : (σ.writers i).staged? = some (path, (σ.writers i).source.toUTF8) := by
      simp [Writer.staged?, phase]
    obtain ⟨name, file⟩ := hasFile path _ staged
    have directory := isDirectory (by simp [phase])
    cases found : σ.volume.get? (Store.filePlace root (σ.writers i).specifier) with
    | none =>
      obtain ⟨x, advanced, kept, keeps, same⟩ :=
        Writer.advance_written_of_none h.kept phase file directory found
      apply h.of_advance advanced kept keeps (keeps.directory _ directory)
      · apply Owned.changed h staged file none
        · intro name' other
          rw [same, if_neg (noStaged _ name'), if_neg (by simpa using other)]
        · rw [same, if_neg (noStaged _ name), if_pos rfl]
          rfl
        · rfl
      · apply h.published.publish found
        intro s
        rw [same, if_neg (noFile s name)]
    | some entry =>
      have advanced := Writer.advance_written_of_some h.kept phase file directory (by simp [found])
      apply h.of_advance advanced h.kept (.refl _) directory
      · exact Owned.unchanged h (fun _ => rfl) (by simp [Writer.staged?, phase])
      · exact h.published.same (fun _ => rfl) (by simp [phase]) (by simp) ⟨rfl, by simp [found]⟩
  | refused path outcome =>
    have staged : (σ.writers i).staged? = some (path, (σ.writers i).source.toUTF8) := by
      simp [Writer.staged?, phase]
    obtain ⟨name, file⟩ := hasFile path _ staged
    obtain ⟨x, advanced, kept, keeps, same⟩ := Writer.advance_refused h.kept phase file
    unfold Writer.Settled at settled
    rw [phase] at settled
    obtain ⟨rfl, there⟩ := settled
    have files (s : Specifier) : x.get? (Store.filePlace root s) =
        σ.volume.get? (Store.filePlace root s) := by
      rw [same, if_neg (noFile s name)]
    apply h.of_advance advanced kept keeps (keeps.directory _ (isDirectory (by simp [phase])))
    · apply Owned.changed h staged file none
      · intro name' other
        rw [same, if_neg (by simpa using other)]
      · rw [same, if_pos rfl]
        rfl
      · rfl
    · apply h.published.same files (by simp [phase]) (by simp)
      exact .inl ⟨rfl, by rw [files]; exact there⟩
  | done outcome =>
    have stays : σ.next c i = σ := by
      have advanced : (σ.writers i).advance c σ.volume = (.done outcome, σ.volume) := by
        simp only [Writer.advance, phase]
      simp only [System.next, advanced, ← phase, Function.update_eq_self]
    rw [stays]
    exact h

theorem IsSound.step (h : σ.IsSound c root u) (step : Step c σ τ) : τ.IsSound c root u := by
  cases step with
  | write i => exact h.next i
  | read s =>
    rw [Store.get_apply]
    exact h

theorem IsSound.reaches (h : σ.IsSound c root u) (reached : Reaches c σ τ) : τ.IsSound c root u := by
  induction reached with
  | refl => exact h
  | tail _ step ih => exact ih.step step

omit [DecidableEq ι] in
theorem isSound_of_isFresh (fresh : c.IsFresh root u) {writers : ι → Writer}
    (waiting : ∀ i, (writers i).phase = .waiting) : IsSound c root u ⟨u, writers⟩ := by
  have noFile (i : ι) : (writers i).staged? = none := by simp [Writer.staged?, waiting]
  constructor
  case kept => exact fresh.isKept
  case directory => exact fun i moved => absurd (waiting i) moved
  case owned =>
    constructor
    case file => simp [noFile]
    case owner => simp [fresh.noStaged]
    case apart => simp [noFile]
  case published =>
    constructor
    case settled =>
      intro i
      apply Writer.Settled.of_not_hasTried
      rw [waiting]
      rfl
    case winner =>
      intro s there
      exact absurd (fresh.tree.get?_below fresh.noFiles (encodeKey_ne_nil s.text)) there
    case single =>
      intro i j won
      exact absurd ((waiting i).symm.trans won) (by simp)

/-! ## All steps together -/

/-- Writers go on with what they write, and those that have ended stay so. -/
theorem Step.keeps (step : Step c σ τ) (i : ι) :
    (τ.writers i).specifier = (σ.writers i).specifier ∧
      (τ.writers i).source = (σ.writers i).source ∧ ((σ.writers i).Won → (τ.writers i).Won) := by
  cases step with
  | write j =>
    by_cases own : i = j
    · subst own
      simp only [System.next, Function.update_self, true_and, Writer.Won]
      intro won
      simp only [Writer.advance, won]
    · simp only [System.next, Function.update_of_ne own, true_and, imp_self]
  | read s => exact ⟨rfl, rfl, id⟩

theorem Reaches.keeps (reached : Reaches c σ τ) (i : ι) :
    (τ.writers i).specifier = (σ.writers i).specifier ∧
      (τ.writers i).source = (σ.writers i).source ∧ ((σ.writers i).Won → (τ.writers i).Won) := by
  induction reached with
  | refl => exact ⟨rfl, rfl, id⟩
  | tail _ step ih =>
    obtain ⟨specifier, source, won⟩ := step.keeps i
    exact ⟨specifier.trans ih.1, source.trans ih.2.1, won ∘ ih.2.2⟩

omit [DecidableEq ι] in
/-- What is looked up for a module is the source of the writer that has published its file. -/
theorem IsSound.get_of_won (h : σ.IsSound c root u) {s : Specifier}
    (text : (σ.writers i).specifier.text = s.text) (won : (σ.writers i).Won) :
    (c.get s : ExceptT LoadError (StateM Volume) (Option String)) σ.volume =
      (.ok (some (σ.writers i).source), σ.volume) := by
  apply h.kept.get_eq
  have settled := h.published.settled i
  unfold Writer.Settled at settled
  rw [show (σ.writers i).phase = _ from won] at settled
  rw [← Store.filePlace_eq_iff.mpr text]
  simpa using settled

omit [DecidableEq ι] in
theorem IsSound.get_cases (h : σ.IsSound c root u) (s : Specifier) :
    (c.get s : ExceptT LoadError (StateM Volume) (Option String)) σ.volume = (.ok none, σ.volume) ∨
      ∃ i, (σ.writers i).specifier.text = s.text ∧ (σ.writers i).Won := by
  by_cases there : σ.volume.get? (Store.filePlace root s) = none
  · left
    apply h.kept.get_eq
    rw [there]
    rfl
  · exact .inr (h.published.winner s there)

omit [DecidableEq ι] in
theorem IsSound.exists_won (h : σ.IsSound c root u) (i : ι)
    (tried : (σ.writers i).phase.hasTried = true) :
    ∃ j, (σ.writers j).specifier.text = (σ.writers i).specifier.text ∧ (σ.writers j).Won := by
  apply h.published.winner
  intro none
  rw [(h.published.settled i).not_hasTried none] at tried
  cases tried

omit [DecidableEq ι] in
theorem IsSound.succeeds (h : σ.IsSound c root u) {outcome : Except LoadError Bool}
    (ended : (σ.writers i).phase = .done outcome) : ∃ won, outcome = .ok won := by
  have settled := h.published.settled i
  unfold Writer.Settled at settled
  rw [ended] at settled
  rcases settled with ⟨lost, -⟩ | ⟨won, -⟩
  · exact ⟨false, lost⟩
  · exact ⟨true, won⟩

theorem reaches_iterate (c : Store) (i : ι) (n : Nat) (σ : System ι) :
    Reaches c σ ((System.next c i)^[n] σ) := by
  induction n with
  | zero => exact .refl
  | succ n ih =>
    rw [Function.iterate_succ_apply']
    exact ih.tail (.write i)

/-- A writer ends after its own steps, whatever the others do. -/
theorem left_iterate (c : Store) (i : ι) (n : Nat) (σ : System ι) :
    (((System.next c i)^[n] σ).writers i).phase.left ≤ (σ.writers i).phase.left - n := by
  induction n with
  | zero => exact le_rfl
  | succ n ih =>
    rw [Function.iterate_succ_apply']
    generalize (System.next c i)^[n] σ = τ at ih
    have step := (τ.writers i).left_advance c τ.volume
    simp only [System.next, Function.update_self]
    omega

/-- Any number of writers put sources into a cache that is empty at first, with modules being looked up
in between. At any time, what is looked up for a module is nothing or the whole source that one of the
writers puts for it, and what has been found once is found from then on. As soon as one of the writers of
a module has tried to publish its file, exactly one of them has published it. Every writer can go on at
any time and ends without a failure, and no file is left over when all of them have ended. -/
theorem publication_is_atomic (fresh : c.IsFresh root u) {writers : ι → Writer}
    (waiting : ∀ i, (writers i).phase = .waiting) (reached : Reaches c ⟨u, writers⟩ σ) :
    (∀ s, ∃ stored,
      (c.get s : ExceptT LoadError (StateM Volume) (Option String)) σ.volume =
        (.ok stored, σ.volume) ∧
      ∀ source, stored = some source →
        (∃ i, (writers i).specifier.text = s.text ∧ (writers i).source = source) ∧
        ∀ τ, Reaches c σ τ →
          (c.get s : ExceptT LoadError (StateM Volume) (Option String)) τ.volume =
            (.ok stored, τ.volume)) ∧
    (∀ i, (σ.writers i).phase.hasTried = true → ∃! j,
      (writers j).specifier.text = (writers i).specifier.text ∧ (σ.writers j).Won) ∧
    (∀ i outcome, (σ.writers i).phase = .done outcome → ∃ won, outcome = .ok won) ∧
    (∀ i, ∃ won, (((System.next c i)^[5] σ).writers i).phase = .done (.ok won)) ∧
    ((∀ i, (σ.writers i).phase.left = 0) →
      ∀ name, σ.volume.get? (Store.stagingPlace root ++ [name]) = none) := by
  have sound := (isSound_of_isFresh fresh waiting).reaches reached
  have same (i : ι) := reached.keeps i
  refine ⟨fun s => ?_, fun i tried => ?_, fun i outcome => sound.succeeds, fun i => ?_, ?_⟩
  · rcases sound.get_cases s with nothing | ⟨i, text, won⟩
    · exact ⟨none, nothing, fun source found => by cases found⟩
    · refine ⟨_, sound.get_of_won text won, fun source found => ⟨⟨i, ?_, ?_⟩, fun τ later => ?_⟩⟩
      · rw [← text, (same i).1]
      · rw [← Option.some.inj found, (same i).2.1]
      · obtain ⟨specifier, source, stays⟩ := later.keeps i
        rw [← source]
        exact (sound.reaches later).get_of_won (specifier ▸ text) (stays won)
  · obtain ⟨j, text, won⟩ := sound.exists_won i tried
    rw [(same i).1, (same j).1] at text
    refine ⟨j, ⟨text, won⟩, fun k other => ?_⟩
    apply sound.published.single k j other.2 won
    rw [(same k).1, (same j).1]
    exact other.1.trans text.symm
  · have ended := left_iterate c i 5 σ
    have most := (σ.writers i).phase.left_le
    obtain ⟨outcome, done⟩ := Phase.exists_done (Nat.le_zero.mp (ended.trans (by omega)))
    obtain ⟨won, rfl⟩ := (sound.reaches (reaches_iterate c i 5 σ)).succeeds done
    exact ⟨won, done⟩
  · intro ended name
    by_contra there
    obtain ⟨i, path, content, staged, -⟩ := sound.owned.owner name there
    obtain ⟨outcome, done⟩ := Phase.exists_done (ended i)
    simp [Writer.staged?, done] at staged

/-- Two writers of one module. -/
def rivals (first : Bool) : Writer :=
  ⟨⟨.https, ⟨[], ['h'], none⟩, ['/'], none⟩, if first then "1" else "2", .waiting⟩

/-- One writer overtakes another one that has a file of its own; one of them has published its file. -/
theorem publication_is_atomic_rivals : ∃ u, Store.IsFresh ⟨"/"⟩ [] u ∧
    ∃! j, (((System.next ⟨"/"⟩ false)^[5] ((System.next ⟨"/"⟩ true)^[3] ⟨u, rivals⟩)).writers j).Won := by
  obtain ⟨u, -, fresh⟩ := Store.exists_isFresh
  have waiting (i : Bool) : (rivals i).phase = .waiting := rfl
  have reached : Reaches ⟨"/"⟩ ⟨u, rivals⟩
      ((System.next ⟨"/"⟩ false)^[5] ((System.next ⟨"/"⟩ true)^[3] ⟨u, rivals⟩)) :=
    (reaches_iterate _ true 3 _).trans (reaches_iterate _ false 5 _)
  obtain ⟨-, one, -⟩ := publication_is_atomic fresh waiting reached
  have few := left_iterate ⟨"/"⟩ false 5 ((System.next ⟨"/"⟩ true)^[3] ⟨u, rivals⟩)
  have most := (((System.next ⟨"/"⟩ true)^[3] ⟨u, rivals⟩).writers false).phase.left_le
  obtain ⟨outcome, done⟩ := Phase.exists_done (Nat.le_zero.mp (few.trans (by omega)))
  obtain ⟨j, ⟨-, won⟩, only⟩ := one false (by rw [done]; rfl)
  exact ⟨u, fresh, j, won, fun k other => only k ⟨rfl, other⟩⟩

end System

end Cache

end ModuleLinker
