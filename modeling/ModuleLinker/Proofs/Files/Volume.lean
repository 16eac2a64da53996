import Mathlib
import ModuleLinker.Proofs.Files.Path
import ModuleLinker.Proofs.Text.Digits

/-!
# Trees of directories and files

What is at each place after a change of a file system in memory. In a file system in which every name
on the way to an entry is that of a directory, where a path leads is settled by what is at the places
on its way, and making directories fails only where a file is in the way, without changing anything.

`Volume.Extends` says that a file system has everything that another one has, and what is new in it.
-/

set_option autoImplicit false

namespace ModuleLinker.Files

namespace Volume

/-! ## Places -/

theorem get?_nil (v : Volume) : v.get? [] = some .directory := rfl

theorem get?_of_ne_nil (v : Volume) {place : List String} (some : place ≠ []) :
    v.get? place = v.entries.lookup place := by
  rw [get?, if_neg (by simpa using some)]

theorem lookup_filter_key {α β : Type} [BEq α] [LawfulBEq α] (p : α → Bool) (key : α)
    (entries : List (α × β)) :
    (entries.filter fun e => p e.1).lookup key = if p key then entries.lookup key else none := by
  induction entries with
  | nil => simp
  | cons entry entries ih =>
    obtain ⟨key', value⟩ := entry
    rw [List.filter_cons]
    by_cases same : key = key'
    · subst same
      cases keep : p key with
      | true => simp
      | false => simpa [keep] using ih
    · have other : (key == key') = false := beq_eq_false_iff_ne.mpr same
      cases keep : p key' with
      | true => simpa [List.lookup_cons, other] using ih
      | false => simpa [List.lookup_cons, other] using ih

/-- What is at a place after something has been put at one. -/
theorem get?_set (v : Volume) {place : List String} (some : place ≠ []) (entry : Entry)
    (q : List String) : (v.set place entry).get? q = if q = place then .some entry else v.get? q := by
  by_cases none : q = []
  · subst none
    rw [get?_nil, get?_nil, if_neg (Ne.symm some)]
  · rw [get?_of_ne_nil _ none, get?_of_ne_nil _ none, set, List.lookup_cons]
    by_cases same : q = place
    · simp [same]
    · have other : (q == place) = false := beq_eq_false_iff_ne.mpr same
      have kept := lookup_filter_key (fun e => e != place) q v.entries
      rw [if_pos (bne_iff_ne.mpr same)] at kept
      rw [if_neg same, other]
      exact kept

/-- What is at a place after everything at and below another one has been taken away. -/
theorem get?_erase (v : Volume) {place : List String} (some : place ≠ []) (q : List String) :
    (v.erase place).get? q = if place <+: q then .none else v.get? q := by
  by_cases none : q = []
  · subst none
    rw [get?_nil, get?_nil, if_neg]
    intro h
    exact some (List.prefix_nil.mp h)
  · rw [get?_of_ne_nil _ none, get?_of_ne_nil _ none, erase]
    have kept := lookup_filter_key (fun e => !place.isPrefixOf e) q v.entries
    refine kept.trans ?_
    by_cases below : place <+: q
    · rw [if_pos below, if_neg]
      simpa using below
    · rw [if_neg below, if_pos]
      rw [Bool.not_eq_true', ← Bool.not_eq_true, List.isPrefixOf_iff_prefix]
      exact below

/-- Every name on the way to an entry is that of a directory. -/
def IsTree (v : Volume) : Prop :=
  ∀ place name, v.get? (place ++ [name]) ≠ none → v.get? place = some .directory

/-- Whatever has something below it is a directory. -/
theorem IsTree.isDirectory {v : Volume} (tree : v.IsTree) {place below : List String}
    (some : below ≠ []) (h : v.get? (place ++ below) ≠ none) : v.get? place = .some .directory := by
  induction below using List.reverseRecOn with
  | nil => exact absurd rfl some
  | append_singleton below name ih =>
    rw [← List.append_assoc] at h
    have directory := tree _ name h
    cases below with
    | nil => rwa [List.append_nil] at directory
    | cons first below =>
      apply ih (List.cons_ne_nil first below)
      rw [directory]
      exact Option.some_ne_none _

/-! ## What is new in a file system -/

/-- A file system with everything that another one has, and with new entries. -/
structure Extends (v w : Volume) (new : List String → Entry → Prop) : Prop where
  limits : w.limits = v.limits
  start : w.start = v.start
  get? : ∀ q, w.get? q = v.get? q ∨ (v.get? q = none ∧ ∃ e, w.get? q = some e ∧ new q e)

theorem Extends.refl (v : Volume) (new : List String → Entry → Prop) : v.Extends v new :=
  ⟨rfl, rfl, fun _ => .inl rfl⟩

theorem Extends.trans {u v w : Volume} {new : List String → Entry → Prop} (first : u.Extends v new)
    (second : v.Extends w new) : u.Extends w new where
  limits := second.limits.trans first.limits
  start := second.start.trans first.start
  get? q := by
    rcases second.get? q with same | ⟨none, e, found, new⟩
    · rcases first.get? q with same' | ⟨none, e, found, new⟩
      · exact .inl (same.trans same')
      · exact .inr ⟨none, e, same.trans found, new⟩
    · rcases first.get? q with same' | ⟨_, e', found', _⟩
      · exact .inr ⟨same'.symm.trans none, e, found, new⟩
      · rw [none] at found'
        cases found'

theorem Extends.mono {v w : Volume} {new new' : List String → Entry → Prop} (h : v.Extends w new)
    (imp : ∀ q e, new q e → new' q e) : v.Extends w new' where
  limits := h.limits
  start := h.start
  get? q := by
    rcases h.get? q with same | ⟨none, e, found, new⟩
    · exact .inl same
    · exact .inr ⟨none, e, found, imp q e new⟩

/-- What is there stays there. -/
theorem Extends.get?_eq_some {v w : Volume} {new : List String → Entry → Prop} (h : v.Extends w new)
    {q : List String} {e : Entry} (found : v.get? q = some e) : w.get? q = some e := by
  rcases h.get? q with same | ⟨none, -⟩
  · exact same.trans found
  · rw [none] at found
    cases found

/-- What is there without being new has been there. -/
theorem Extends.get?_eq_of_not_new {v w : Volume} {new : List String → Entry → Prop}
    (h : v.Extends w new) {q : List String} (old : ∀ e, ¬ new q e) : w.get? q = v.get? q := by
  rcases h.get? q with same | ⟨-, e, -, new⟩
  · exact same
  · exact absurd new (old e)

/-! ## Directories that are still there -/

/-- A file system that has every directory of another one. -/
structure Keeps (v w : Volume) : Prop where
  limits : w.limits = v.limits
  start : w.start = v.start
  directory : ∀ q, v.get? q = some .directory → w.get? q = some .directory

theorem Keeps.refl (v : Volume) : v.Keeps v := ⟨rfl, rfl, fun _ => id⟩

theorem Keeps.trans {u v w : Volume} (first : u.Keeps v) (second : v.Keeps w) : u.Keeps w :=
  ⟨second.limits.trans first.limits, second.start.trans first.start,
    fun q found => second.directory q (first.directory q found)⟩

theorem Extends.keeps {v w : Volume} {new : List String → Entry → Prop} (h : v.Extends w new) :
    v.Keeps w := ⟨h.limits, h.start, fun _ => h.get?_eq_some⟩

theorem Keeps.checkPath {v w : Volume} (h : v.Keeps w) (path : String) :
    w.checkPath path = v.checkPath path := by
  unfold Volume.checkPath
  rw [h.limits]

theorem Keeps.origin {v w : Volume} (h : v.Keeps w) (path : String) : w.origin path = v.origin path := by
  unfold Volume.origin
  rw [h.start]

theorem Extends.checkPath {v w : Volume} {new : List String → Entry → Prop} (h : v.Extends w new)
    (path : String) : w.checkPath path = v.checkPath path := h.keeps.checkPath path

theorem Extends.origin {v w : Volume} {new : List String → Entry → Prop} (h : v.Extends w new)
    (path : String) : w.origin path = v.origin path := h.keeps.origin path

/-! ## Following names -/

theorem follow_append (v : Volume) (place front back : List String) :
    v.follow place (front ++ back) = (v.follow place front).bind fun q => v.follow q back := by
  induction front generalizing place with
  | nil => rfl
  | cons name front ih =>
    rw [List.cons_append, follow, follow]
    cases v.get? place with
    | none => rfl
    | some entry =>
      cases entry with
      | file content => rfl
      | directory =>
        dsimp only
        split
        · rfl
        · exact ih _

/-- Names lead where they have led as long as the directories are there. -/
theorem Keeps.follow {v w : Volume} (h : v.Keeps w) {place names q : List String}
    (followed : v.follow place names = .ok q) : w.follow place names = .ok q := by
  induction names generalizing place with
  | nil => exact followed
  | cons name names ih =>
    rw [Volume.follow] at followed ⊢
    cases found : v.get? place with
    | none =>
      rw [found] at followed
      cases followed
    | some entry =>
      rw [found] at followed
      cases entry with
      | file content => cases followed
      | directory =>
        rw [h.directory _ found, h.limits]
        dsimp only at followed ⊢
        split at followed
        · cases followed
        case isFalse short =>
          rw [if_neg short]
          exact ih followed

theorem Extends.follow {v w : Volume} {new : List String → Entry → Prop} (h : v.Extends w new)
    {place names q : List String} (followed : v.follow place names = .ok q) :
    w.follow place names = .ok q := h.keeps.follow followed

/-- A path leads where it has led. -/
theorem Extends.locate {v w : Volume} {new : List String → Entry → Prop} (h : v.Extends w new)
    {path : String} {q : List String} (located : v.locate path = .ok q) : w.locate path = .ok q := by
  unfold Volume.locate at located ⊢
  rw [h.checkPath, h.origin]
  cases allowed : v.checkPath path with
  | error fault =>
    rw [allowed] at located
    cases located
  | ok _ =>
    rw [allowed] at located
    exact h.follow located

/-- Names that a directory can have entries under. -/
def Fits (v : Volume) (names : List String) : Prop :=
  ∀ name ∈ names, name ≠ ".." ∧ exceeds v.limits.name name = false

theorem Fits.tail {v : Volume} {name : String} {names : List String} (h : v.Fits (name :: names)) :
    v.Fits names := fun name' mem => h name' (List.mem_cons_of_mem name mem)

/-- Whether a file stands on the way from a place along some names, before the last one. -/
def Blocks (v : Volume) (place names : List String) : Prop :=
  ∃ front back content, names = front ++ back ∧ back ≠ [] ∧
    v.get? (place ++ front) = some (.file content)

theorem blocks_cons {v : Volume} {place names : List String} {name : String}
    (directory : v.get? place = some .directory) :
    v.Blocks place (name :: names) ↔ v.Blocks (place ++ [name]) names := by
  constructor
  · rintro ⟨front, back, content, split, some, file⟩
    cases front with
    | nil =>
      rw [List.append_nil, directory] at file
      cases file
    | cons first front =>
      rw [List.cons_append, List.cons.injEq] at split
      obtain ⟨rfl, rfl⟩ := split
      refine ⟨front, back, content, rfl, some, ?_⟩
      rw [List.append_assoc]
      exact file
  · rintro ⟨front, back, content, rfl, some, file⟩
    refine ⟨name :: front, back, content, rfl, some, ?_⟩
    rw [List.append_assoc] at file
    exact file

/-- Where names lead from a place: a file on the way blocks them, and else they lead to the place below
it, or there is nothing at that place. -/
theorem follow_cases {v : Volume} (tree : v.IsTree) (place : List String) {names : List String}
    (fits : v.Fits names) :
    (v.Blocks place names ∧ v.follow place names = .error .notDirectory) ∨
      (¬ v.Blocks place names ∧ (v.follow place names = .ok (place ++ names) ∨
        (v.follow place names = .error .notFound ∧ v.get? (place ++ names) = none))) := by
  induction names generalizing place with
  | nil =>
    right
    refine ⟨?_, .inl (by rw [follow, List.append_nil])⟩
    rintro ⟨front, back, content, split, some, -⟩
    exact some (List.append_eq_nil_iff.mp split.symm).2
  | cons name names ih =>
    rw [follow]
    cases found : v.get? place with
    | none =>
      right
      have nothing (below : List String) : v.get? (place ++ below) = none := by
        by_cases none : below = []
        · rw [none, List.append_nil, found]
        · by_contra some
          rw [tree.isDirectory none some] at found
          cases found
      refine ⟨?_, .inr ⟨rfl, nothing _⟩⟩
      rintro ⟨front, back, content, -, -, file⟩
      rw [nothing] at file
      cases file
    | some entry =>
      cases entry with
      | file content =>
        left
        refine ⟨⟨[], name :: names, content, rfl, List.cons_ne_nil _ _, ?_⟩, rfl⟩
        rw [List.append_nil, found]
      | directory =>
        have head := fits name List.mem_cons_self
        have here : (name == "..") = false := beq_eq_false_iff_ne.mpr head.1
        rw [blocks_cons found]
        dsimp only
        rw [head.2, here]
        have rest := ih (place ++ [name]) fits.tail
        rw [List.append_assoc] at rest
        exact rest

/-- Names lead to something in a directory, whether or not it is there. -/
theorem follow_concat {v : Volume} (tree : v.IsTree) {place names : List String} {name : String}
    (fits : v.Fits (names ++ [name])) (directory : v.get? (place ++ names) = some .directory) :
    v.follow place (names ++ [name]) = .ok (place ++ (names ++ [name])) := by
  have fits' : v.Fits names := fun name' mem => fits name' (List.mem_append_left _ mem)
  have last := fits name (List.mem_append_right _ List.mem_cons_self)
  have plain : (name == "..") = false := beq_eq_false_iff_ne.mpr last.1
  have way : v.follow place names = .ok (place ++ names) := by
    rcases follow_cases tree place fits' with ⟨⟨front, back, content, rfl, some, file⟩, -⟩ |
      ⟨-, ok | ⟨-, none⟩⟩
    · rw [← List.append_assoc] at directory
      rw [tree.isDirectory some (by rw [directory]; exact Option.some_ne_none _)] at file
      cases file
    · exact ok
    · rw [none] at directory
      cases directory
  rw [follow_append, way]
  show v.follow (place ++ names) [name] = _
  rw [follow, directory]
  dsimp only
  rw [last.2, plain, ← List.append_assoc]
  rfl

/-- What a path below a place leads to. -/
theorem find_below {v : Volume} (tree : v.IsTree) {path : String} {front names place : List String}
    (allowed : v.checkPath path = .ok ()) (split : Volume.names path = front ++ names)
    (followed : v.follow (v.origin path) front = .ok place) (fits : v.Fits names)
    (plain : namesDirectory path = false) :
    (v.Blocks place names ∧ v.find path = .error .notDirectory) ∨
      (¬ v.Blocks place names ∧ v.find path =
        (v.get? (place ++ names)).elim (.error .notFound) fun entry => .ok (place ++ names, entry)) := by
  have located : v.locate path = v.follow place names := by
    unfold locate
    rw [allowed]
    show v.follow (v.origin path) (Volume.names path) = _
    rw [split, follow_append, followed]
    rfl
  unfold find
  rw [located]
  rcases follow_cases tree place fits with ⟨blocks, failed⟩ | ⟨clear, ok | ⟨failed, none⟩⟩
  · rw [failed]
    exact .inl ⟨blocks, rfl⟩
  · rw [ok]
    refine .inr ⟨clear, ?_⟩
    simp only [bind, Except.bind]
    cases v.get? (place ++ names) with
    | none => rfl
    | some entry =>
      cases entry with
      | directory => rfl
      | file content =>
        rw [plain]
        rfl
  · rw [failed, none]
    exact .inr ⟨clear, rfl⟩

/-! ## Places that are found -/

section Found

variable {v w : Volume}

theorem locate_of_find {path : String} {place : List String} {e : Entry}
    (found : v.find path = .ok (place, e)) :
    v.checkPath path = .ok () ∧ v.follow (v.origin path) (Volume.names path) = .ok place ∧
      v.get? place = some e := by
  unfold find locate at found
  cases allowed : v.checkPath path with
  | error fault =>
    rw [allowed] at found
    cases found
  | ok _ =>
    cases followed : v.follow (v.origin path) (Volume.names path) with
    | error fault =>
      rw [allowed] at found
      simp only [bind, Except.bind, followed] at found
      cases found
    | ok q =>
      rw [allowed] at found
      simp only [bind, Except.bind, followed] at found
      split at found
      case h_1 => cases found
      case h_2 content file =>
        split at found
        · cases found
        · cases found
          exact ⟨rfl, rfl, file⟩
      case h_3 directory =>
        cases found
        exact ⟨rfl, rfl, directory⟩

theorem find_directory {path : String} {place : List String}
    (allowed : v.checkPath path = .ok ())
    (followed : v.follow (v.origin path) (Volume.names path) = .ok place)
    (directory : v.get? place = some .directory) : v.find path = .ok (place, .directory) := by
  unfold find locate
  rw [allowed]
  simp only [bind, Except.bind, followed, directory]

/-- A directory is found where it was. -/
theorem Keeps.find (h : v.Keeps w) {path : String} {place : List String}
    (found : v.find path = .ok (place, .directory)) : w.find path = .ok (place, .directory) := by
  obtain ⟨allowed, followed, directory⟩ := locate_of_find found
  apply find_directory
  · rw [h.checkPath, allowed]
  · rw [h.origin]
    exact h.follow followed
  · exact h.directory _ directory

theorem Extends.find {new : List String → Entry → Prop} (extended : v.Extends w new) {path : String}
    {place : List String} (found : v.find path = .ok (place, .directory)) :
    w.find path = .ok (place, .directory) := extended.keeps.find found

/-- A file is the only one on a way. -/
theorem file_unique (tree : v.IsTree) {place front front' back back' : List String}
    {content content' : ByteArray} (same : front ++ back = front' ++ back')
    (file : v.get? (place ++ front) = some (.file content))
    (file' : v.get? (place ++ front') = some (.file content')) : front = front' := by
  have shorter (front front' : List String) (content content' : ByteArray)
      (isPrefix : front <+: front') (file : v.get? (place ++ front) = some (.file content))
      (file' : v.get? (place ++ front') = some (.file content')) : front = front' := by
    obtain ⟨rest, rfl⟩ := isPrefix
    by_contra other
    have some : rest ≠ [] := by
      rintro rfl
      exact other (List.append_nil front).symm
    rw [← List.append_assoc] at file'
    have directory := tree.isDirectory some (by rw [file']; exact Option.some_ne_none _)
    rw [file] at directory
    cases directory
  rcases List.prefix_or_prefix_of_prefix ⟨back, same⟩ (List.prefix_append front' back') with h | h
  · exact shorter _ _ _ _ h file file'
  · exact (shorter _ _ _ _ h file' file).symm

theorem IsTree.congr (tree : v.IsTree) (same : ∀ q, w.get? q = v.get? q) : w.IsTree := by
  intro place name h
  rw [same] at h ⊢
  exact tree place name h

/-- A file that is put at a fresh place and taken away again leaves everything as it was. -/
theorem get?_erase_set (tree : v.IsTree) {place : List String} {name : String}
    (none : v.get? (place ++ [name]) = none) (e : Entry) (q : List String) :
    ((v.set (place ++ [name]) e).erase (place ++ [name])).get? q = v.get? q := by
  have filled : place ++ [name] ≠ [] := by simp
  rw [get?_erase _ filled, get?_set _ filled]
  split
  case isTrue below =>
    obtain ⟨rest, rfl⟩ := below
    by_contra some
    by_cases here : rest = []
    · rw [here, List.append_nil, none] at some
      exact some rfl
    · have directory := tree.isDirectory here (Ne.symm some)
      rw [none] at directory
      cases directory
  case isFalse other =>
    rw [if_neg]
    rintro rfl
    exact other List.prefix_rfl

theorem checkPath_ne_alreadyExists {path : String} {fault : FileFault}
    (refused : v.checkPath path = .error fault) : fault ≠ .alreadyExists := by
  rintro rfl
  unfold checkPath at refused
  split at refused
  · cases refused
  · split at refused
    · cases refused
    · split at refused <;> cases refused

end Found

/-! ## Making directories -/

/-- Directories that are there already are passed by. -/
theorem makeBelow_append {v : Volume} {place front q : List String} (back : List String)
    (followed : v.follow place front = .ok q) (directory : v.get? q = some .directory) :
    v.makeBelow place (front ++ back) = v.makeBelow q back := by
  induction front generalizing place with
  | nil =>
    cases followed
    rfl
  | cons name front ih =>
    rw [follow] at followed
    cases found : v.get? place with
    | none =>
      rw [found] at followed
      cases followed
    | some entry =>
      rw [found] at followed
      cases entry with
      | file content => cases followed
      | directory =>
        dsimp only at followed
        split at followed
        · cases followed
        case isFalse short =>
          rw [List.cons_append, makeBelow, if_neg short]
          dsimp only
          generalize (if (name == "..") = true then place.dropLast else place ++ [name]) = next
            at followed
          have here : v.get? next = some .directory := by
            cases front with
            | nil =>
              cases followed
              exact directory
            | cons name' front =>
              rw [follow] at followed
              cases found' : v.get? next with
              | none =>
                rw [found'] at followed
                cases followed
              | some entry =>
                rw [found'] at followed
                cases entry with
                | file content => cases followed
                | directory => rfl
          rw [here]
          exact ih followed

/-- A directory that is put where there is nothing. -/
theorem extends_set {v : Volume} {place : List String} (some : place ≠ [])
    (none : v.get? place = none) (entry : Entry) :
    v.Extends (v.set place entry) fun q e => q = place ∧ e = entry where
  limits := rfl
  start := rfl
  get? q := by
    rw [get?_set v some]
    by_cases same : q = place
    · subst same
      rw [if_pos rfl]
      exact .inr ⟨none, entry, rfl, rfl, rfl⟩
    · rw [if_neg same]
      exact .inl rfl

theorem IsTree.set {v : Volume} (tree : v.IsTree) {place : List String} {name : String}
    (directory : v.get? place = some .directory) (none : v.get? (place ++ [name]) = none)
    (entry : Entry) : (v.set (place ++ [name]) entry).IsTree := by
  have filled : place ++ [name] ≠ [] := by simp
  intro place' name' h
  rw [get?_set v filled] at h ⊢
  have kept : v.get? place' = some .directory → (if place' = place ++ [name] then some entry
      else v.get? place') = some .directory := by
    intro found
    rw [if_neg, found]
    rintro rfl
    rw [none] at found
    cases found
  by_cases same : place' ++ [name'] = place ++ [name]
  · obtain ⟨rfl, -⟩ := List.append_inj' same rfl
    exact kept directory
  · rw [if_neg same] at h
    exact kept (tree place' name' h)

/-- Directories are made one below the other, unless a file is in the way; then nothing is changed. -/
theorem makeBelow_cases {v : Volume} (tree : v.IsTree) {place names : List String}
    (directory : v.get? place = some .directory) (fits : v.Fits names) :
    (∃ front back content, names = front ++ back ∧ v.get? (place ++ front) = some (.file content) ∧
      v.makeBelow place names =
        (.error (if back.isEmpty then .alreadyExists else .notDirectory), v)) ∨
    (∃ w, v.makeBelow place names = (.ok (), w) ∧ w.IsTree ∧
      v.Extends w (fun q e => e = .directory ∧ ∃ front, front <+: names ∧ q = place ++ front) ∧
      ∀ front, front <+: names → w.get? (place ++ front) = some .directory) := by
  induction names generalizing v place with
  | nil =>
    right
    refine ⟨v, rfl, tree, .refl v _, ?_⟩
    intro front isPrefix
    rw [List.prefix_nil.mp isPrefix, List.append_nil]
    exact directory
  | cons name names ih =>
    have head := fits name List.mem_cons_self
    have here : (name == "..") = false := beq_eq_false_iff_ne.mpr head.1
    have deeper {w : Volume} (h : ∀ front, front <+: names →
        w.get? (place ++ [name] ++ front) = some .directory) (start : w.get? place = some .directory)
        (front : List String) (isPrefix : front <+: name :: names) :
        w.get? (place ++ front) = some .directory := by
      rcases List.prefix_cons_iff.mp isPrefix with rfl | ⟨rest, rfl, inner⟩
      · rw [List.append_nil]
        exact start
      · have found := h rest inner
        rwa [List.append_assoc] at found
    have new {w : Volume} (q : List String) (e : Entry)
        (h : e = .directory ∧ ∃ front, front <+: names ∧ q = place ++ [name] ++ front) :
        e = .directory ∧ ∃ front, front <+: name :: names ∧ q = place ++ front := by
      obtain ⟨rfl, front, isPrefix, rfl⟩ := h
      refine ⟨rfl, name :: front, List.cons_prefix_cons.mpr ⟨rfl, isPrefix⟩, ?_⟩
      rw [List.append_assoc]
      rfl
    rw [makeBelow, head.2, if_neg Bool.false_ne_true]
    dsimp only
    rw [here, if_neg Bool.false_ne_true]
    cases found : v.get? (place ++ [name]) with
    | none =>
      right
      have filled : place ++ [name] ≠ [] := by simp
      have extended := extends_set filled found .directory
      have tree' := tree.set directory found .directory
      have directory' : (v.set (place ++ [name]) .directory).get? (place ++ [name]) =
          some .directory := by rw [get?_set v filled, if_pos rfl]
      dsimp only
      rcases ih tree' directory' (fun n mem => fits.tail n mem) with
        ⟨front, back, content, rfl, file, -⟩ | ⟨w, made, treeW, extendedW, directories⟩
      · -- There is nothing below a place where there was nothing.
        have above : front ≠ [] := by
          rintro rfl
          rw [List.append_nil, directory'] at file
          cases file
        rw [get?_set v filled, if_neg (by simpa using above)] at file
        have := tree.isDirectory above (by rw [file]; exact Option.some_ne_none _)
        rw [found] at this
        cases this
      · refine ⟨w, made, treeW, ?_, ?_⟩
        · refine (extended.mono ?_).trans (extendedW.mono (@new w))
          rintro q e ⟨rfl, rfl⟩
          exact ⟨rfl, [name], List.cons_prefix_cons.mpr ⟨rfl, List.nil_prefix⟩, rfl⟩
        · exact deeper directories (extendedW.get?_eq_some (extended.get?_eq_some directory))
    | some entry =>
      cases entry with
      | file content =>
        left
        refine ⟨[name], names, content, rfl, found, ?_⟩
        rfl
      | directory =>
        dsimp only
        rcases ih tree found fits.tail with
          ⟨front, back, content, rfl, file, made⟩ | ⟨w, made, treeW, extended, directories⟩
        · left
          refine ⟨name :: front, back, content, rfl, ?_, made⟩
          rw [List.append_assoc] at file
          exact file
        · right
          exact ⟨w, made, treeW, extended.mono (@new w),
            deeper directories (extended.get?_eq_some directory)⟩

/-! ## Fresh names -/

/-- The names of files that are being written. -/
def stagingName (n : Nat) : String := ".tmp" ++ toString n

theorem stagingName_injective {n n' : Nat} (same : stagingName n = stagingName n') : n = n' := by
  have texts := congrArg String.toList same
  rw [stagingName, stagingName, String.toList_append, String.toList_append] at texts
  exact Text.toString_injective (List.append_cancel_left texts)

theorem isName_stagingName (n : Nat) : IsName (stagingName n) := by
  have long : 4 ≤ (stagingName n).toList.length := by
    rw [stagingName, String.toList_append, List.length_append]
    exact Nat.le_add_right 4 _
  have apart (text : String) (short : text.toList.length < 4) : stagingName n ≠ text := by
    rintro rfl
    omega
  have none (c : Char) (other : c ∉ ".tmp".toList) (plain : c.isDigit = false) :
      c ∉ (stagingName n).toList := by
    rw [stagingName, String.toList_append, List.mem_append, not_or]
    refine ⟨other, fun mem => ?_⟩
    rw [Text.isDigit_of_mem_toString mem] at plain
    cases plain
  exact ⟨apart "" (by decide), apart "." (by decide), apart ".." (by decide),
    none '/' (by decide) (by decide), none '\x00' (by decide) (by decide)⟩

/-- Some number is free, because there are fewer entries than numbers to try. -/
theorem exists_free (v : Volume) (place : List String) :
    ∃ n < v.entries.length + 1, v.get? (place ++ [stagingName n]) = none := by
  by_contra! taken
  have unique : ((List.range (v.entries.length + 1)).map fun n => place ++ [stagingName n]).Nodup := by
    refine List.Nodup.map ?_ List.nodup_range
    intro n n' same
    exact stagingName_injective (List.singleton_inj.mp (List.append_cancel_left same))
  have inside : ((List.range (v.entries.length + 1)).map fun n => place ++ [stagingName n]) ⊆
      v.entries.map (·.1) := by
    intro q mem
    obtain ⟨n, small, rfl⟩ := List.mem_map.mp mem
    have found := taken n (List.mem_range.mp small)
    rw [get?_of_ne_nil v (by simp)] at found
    obtain ⟨entry, found⟩ := Option.ne_none_iff_exists'.mp found
    obtain ⟨front, back, same, -⟩ := List.lookup_eq_some_iff.mp found
    rw [same, List.map_append]
    exact List.mem_append_right _ List.mem_cons_self
  have few := (List.subperm_of_subset unique inside).length_le
  rw [List.length_map, List.length_map, List.length_range] at few
  omega

/-- The first free number. -/
theorem exists_freshName (v : Volume) (place : List String) :
    ∃ n, v.freshName place = stagingName n ∧ v.get? (place ++ [stagingName n]) = none ∧
      ∀ n' < n, v.get? (place ++ [stagingName n']) ≠ none := by
  obtain ⟨n, small, free⟩ := v.exists_free place
  unfold freshName
  dsimp only
  cases found : (List.range (v.entries.length + 1)).find? fun n =>
      (v.get? (place ++ [".tmp" ++ toString n])).isNone with
  | none =>
    have taken := List.find?_eq_none.mp found n (List.mem_range.mpr small)
    rw [show ".tmp" ++ toString n = stagingName n from rfl, free] at taken
    exact absurd rfl taken
  | some first =>
    obtain ⟨here, -, before⟩ := List.find?_range_eq_some.mp found
    refine ⟨first, rfl, Option.isNone_iff_eq_none.mp here, fun n' less none => ?_⟩
    have := before n' less
    rw [show ".tmp" ++ toString n' = stagingName n' from rfl, none] at this
    cases this

theorem get?_freshName (v : Volume) (place : List String) :
    v.get? (place ++ [v.freshName place]) = none := by
  obtain ⟨n, same, free, -⟩ := v.exists_freshName place
  rw [same]
  exact free

theorem isName_freshName (v : Volume) (place : List String) : IsName (v.freshName place) := by
  obtain ⟨n, same, -⟩ := v.exists_freshName place
  rw [same]
  exact isName_stagingName n

/-- The fresh name depends only on what is in the directory. -/
theorem freshName_congr {v w : Volume} {place : List String}
    (same : ∀ n, w.get? (place ++ [stagingName n]) = v.get? (place ++ [stagingName n])) :
    w.freshName place = v.freshName place := by
  obtain ⟨n, name, free, first⟩ := v.exists_freshName place
  obtain ⟨n', name', free', first'⟩ := w.exists_freshName place
  rw [name, name']
  rcases Nat.lt_trichotomy n n' with less | rfl | less
  · have taken := first' n less
    rw [same, free] at taken
    exact absurd rfl taken
  · rfl
  · have taken := first n' less
    rw [← same, free'] at taken
    exact absurd rfl taken

end Volume

end ModuleLinker.Files
