import ModuleLinker.Proofs.Cache.Kept

/-!
# What a cache answers

A cache that nothing else touches, on a file system without limits, is a map from modules to sources
that keeps the first source it is given (`Store.keeps_first_source`): no request fails, what is looked up,
removed, listed and measured is what the requests before say, and nothing is left in the directory of
the files that are being written.

What the requests before say is read off the list of them: the source of a module is that of the first
request that put one since the last one that took it out (`firstPut?`). What a request does to the files
is said in one lemma for each kind of request; `Store.Holds` is what they all keep.
-/

set_option autoImplicit false

namespace ModuleLinker.Cache

open Files

/-! ## Requests and answers -/

/-- What is asked of a cache. -/
inductive Request where
  | put (s : Specifier) (source : String)
  | get (s : Specifier)
  | remove (s : Specifier)
  | clear
  | entries
  | size
  | reopen

/-- What a cache answers. -/
inductive Answer where
  | done
  | found (source : Option String)
  | removed (present : Bool)
  | listed (items : List Item)
  | measured (bytes : Nat)
  | opened (c : Store)

namespace Request

/-- The source that a request puts for a module. -/
def putFor? (s : Specifier) : Request → Option String
  | put t source => if t.text = s.text then some source else none
  | _ => none

/-- Whether a request takes the source of a module out. -/
def drops (s : Specifier) : Request → Bool
  | remove t => t.text = s.text
  | clear => true
  | _ => false

end Request

/-- The source of the first request that put one for a module since the last one that took it out. -/
def firstPut? (past : List Request) (s : Specifier) : Option String :=
  (past.reverse.takeWhile (! ·.drops s)).reverse.findSome? (·.putFor? s)

@[simp]
theorem firstPut?_nil (s : Specifier) : firstPut? [] s = none := rfl

theorem firstPut?_concat (past : List Request) (request : Request) (s : Specifier) :
    firstPut? (past ++ [request]) s =
      if request.drops s then none else (firstPut? past s).or (request.putFor? s) := by
  unfold firstPut?
  rw [List.reverse_concat, List.takeWhile_cons]
  cases request.drops s with
  | true => simp
  | false =>
    simp only [Bool.not_false, if_true, List.reverse_cons, List.findSome?_append, List.findSome?_cons,
      List.findSome?_nil]
    cases request.putFor? s <;> simp

/-- Modules that are written in the same way are the same to a cache. -/
theorem firstPut?_congr {s t : Specifier} (same : s.text = t.text) (past : List Request) :
    firstPut? past s = firstPut? past t := by
  have drops : Request.drops s = Request.drops t := by
    funext request
    cases request <;> simp [Request.drops, same]
  have puts : Request.putFor? s = Request.putFor? t := by
    funext request
    cases request <;> simp [Request.putFor?, same]
  rw [firstPut?, firstPut?, drops, puts]

/-- What a listing of the modules in a cache is: each of them once, in the order of their specifiers,
with the file that its source is in and the number of bytes of it. -/
structure IsListing (c : Store) (past : List Request) (items : List Item) : Prop where
  sorted : items.Pairwise fun a b => a.specifier < b.specifier
  mem_iff : ∀ item, item ∈ items ↔ ∃ s source, firstPut? past s = some source ∧
    item = ⟨s.text, c.path s, source.utf8ByteSize⟩

/-- The answer that a map from modules to sources gives to a request. -/
def IsAnswered (c : Store) (past : List Request) : Request → Answer → Prop
  | .put _ _, answer => answer = .done
  | .get s, answer => answer = .found (firstPut? past s)
  | .remove s, answer => answer = .removed (firstPut? past s).isSome
  | .clear, answer => answer = .done
  | .entries, answer => ∃ items, answer = .listed items ∧ IsListing c past items
  | .size, answer => ∃ items, answer = .measured (items.map Item.size).sum ∧ IsListing c past items
  | .reopen, answer => answer = .opened c

namespace Store

/-- Carries out a request. -/
def perform {m : Type → Type} [Monad m] [Disk m] (c : Store) :
    Request → ExceptT LoadError m Answer
  | .put s source => do
    c.put s source
    return .done
  | .get s => return .found (← c.get s)
  | .remove s => return .removed (← c.remove s)
  | .clear => do
    c.clear
    return .done
  | .entries => return .listed (← c.entries)
  | .size => return .measured (← c.size)
  | .reopen => return .opened (← create c.root)

/-- What comes of a request on a file system in memory. -/
def serve (c : Store) (request : Request) (v : Volume) : Except LoadError Answer × Volume :=
  (c.perform request : ExceptT LoadError (StateM Volume) Answer) v

/-- The file system after some requests. -/
def after (c : Store) (past : List Request) (v : Volume) : Volume :=
  past.foldl (fun v request => (c.serve request v).2) v

/-- A cache that has what some requests have put into it. -/
structure Holds (c : Store) (root : List String) (u : Volume) (past : List Request) (v : Volume) :
    Prop where
  kept : c.IsKept root u v
  table : v.IsTable
  stored : ∀ s, v.get? (filePlace root s) = (firstPut? past s).map fun source => .file source.toUTF8
  unstaged : ∀ name, v.get? (stagingPlace root ++ [name]) = none

variable {c : Store} {root : List String} {u v w : Volume} {past : List Request}

theorem IsFresh.holds (h : c.IsFresh root u) : c.Holds root u [] u where
  kept := h.isKept
  table := h.table
  stored s := h.tree.get?_below h.noFiles (encodeKey_ne_nil s.text)
  unstaged := h.noStaged

/-- A request that puts nothing and takes nothing out is forgotten. -/
theorem Holds.pass (h : c.Holds root u past v) {request : Request}
    (keeps : ∀ s, request.drops s = false) (adds : ∀ s, request.putFor? s = none) :
    c.Holds root u (past ++ [request]) v where
  kept := h.kept
  table := h.table
  unstaged := h.unstaged
  stored s := by simp [firstPut?_concat, keeps, adds, h.stored]

/-! ## What the operations do to the files -/

theorem remove_apply (c : Store) (s : Specifier) (v : Volume) :
    (c.remove s : ExceptT LoadError (StateM Volume) Bool) v =
      match v.removeFile (c.path s) with
      | (.ok (), w) => (.ok true, w)
      | (.error .notFound, w) => (.ok false, w)
      | (.error fault, w) => (.error (.io (c.path s) fault), w) := by
  unfold Store.remove
  generalize c.path s = path
  have removed : (Disk.removeFile path : StateM Volume _) v = v.removeFile path := rfl
  rw [bind_apply, lift_apply, removed]
  rcases v.removeFile path with ⟨fault | _, w⟩
  · cases fault <;> rfl
  · rfl

theorem clearDirectory_apply (path : String) (v : Volume) :
    (clearDirectory path : ExceptT LoadError (StateM Volume) Unit) v =
      match v.removeDirectory path with
      | (.ok (), w) | (.error .notFound, w) =>
        ((w.makeDirectories path).1.mapError (.io path), (w.makeDirectories path).2)
      | (.error fault, w) => (.error (.io path fault), w) := by
  unfold clearDirectory
  have removed : (Disk.removeDirectory path : StateM Volume _) v = v.removeDirectory path := rfl
  rw [bind_apply, lift_apply, removed]
  rcases v.removeDirectory path with ⟨fault | _, w⟩
  · cases fault
    case notFound => exact orIo_apply path (Disk.makeDirectories path) w
    all_goals rfl
  · exact orIo_apply path (Disk.makeDirectories path) w

theorem entries_apply (c : Store) (v : Volume) :
    (c.entries : ExceptT LoadError (StateM Volume) (List Item)) v =
      match v.filesBelow c.base with
      | .ok files => (.ok ((files.filterMap c.item?).mergeSort fun a b => a.specifier ≤ b.specifier), v)
      | .error fault => (.error (.cache c.base
          ("IO error for operation on " ++ c.base ++ ": " ++ fault.message)), v) := by
  unfold Store.entries
  have listed : (Disk.filesBelow c.base : StateM Volume _) v = (v.filesBelow c.base, v) := rfl
  rw [bind_apply, lift_apply, listed]
  cases v.filesBelow c.base <;> rfl

/-- The file of a module is taken away, where there is one, and nothing else is changed. -/
theorem IsKept.remove_eq (h : c.IsKept root u v) (s : Specifier) :
    ∃ w, (c.remove s : ExceptT LoadError (StateM Volume) Bool) v =
        (.ok (v.get? (filePlace root s)).isSome, w) ∧ c.IsKept root u w ∧
      (v.IsTable → w.IsTable) ∧
      ∀ q, w.get? q = if q = filePlace root s then none else v.get? q := by
  have found := h.find_path s
  rw [remove_apply]
  unfold Volume.removeFile
  cases entry : v.get? (filePlace root s) with
  | none =>
    rw [entry] at found
    simp only [found, Option.elim_none]
    refine ⟨v, rfl, h, id, fun q => ?_⟩
    split
    case isTrue same => rw [same, entry]
    case isFalse => rfl
  | some e =>
    cases e with
    | directory => exact absurd entry (h.not_directory s)
    | file content =>
      rw [entry] at found
      simp only [found, Option.elim_some]
      have same := Volume.get?_erase_file h.tree entry
      have filled : filePlace root s ≠ [] := by simp [filePlace, basePlace]
      refine ⟨_, rfl, ?_, fun table => table.erase _, same⟩
      apply h.of_old (h.tree.erase filled)
      · exact h.keeps.trans (Volume.keeps_erase_file h.tree entry)
      · intro below e _ there
        rw [same] at there
        split at there
        · cases there
        · exact there

/-- A directory of the cache is made empty. -/
theorem IsKept.clearDirectory_eq (h : c.IsKept root u v) {path : String} {place : List String}
    (found : u.find path = .ok (place, .directory)) (filled : place ≠ [])
    (named : Volume.names path ≠ []) (bare : ∀ name, u.get? (place ++ [name]) = none)
    (apart : ∀ below, below ≠ [] → basePlace root ++ below ≠ place) :
    ∃ w, (clearDirectory path : ExceptT LoadError (StateM Volume) Unit) v = (.ok (), w) ∧
      c.IsKept root u w ∧ (v.IsTable → w.IsTable) ∧
      ∀ q, w.get? q =
        if q = place then some .directory else if place <+: q then none else v.get? q := by
  have removed : v.removeDirectory path = (.ok (), v.erase place) := by
    unfold Volume.removeDirectory
    rw [h.keeps.find found]
  obtain ⟨w, made, tree, keeps, same⟩ := Volume.makeDirectories_erase h.keeps h.tree found filled
    named fun below some => h.fresh.tree.get?_below bare some
  have table (table : v.IsTable) : w.IsTable := by
    have kept := (table.erase place).makeDirectories path
    rwa [made] at kept
  refine ⟨w, ?_, h.of_old tree keeps ?_, table, same⟩
  · simp only [clearDirectory_apply, removed, made]
    rfl
  · intro below e some there
    rw [same, if_neg (apart below some)] at there
    split at there
    · cases there
    · exact there

/-- Both directories of the cache are made empty, and nothing else is changed. -/
theorem IsKept.clear_eq (h : c.IsKept root u v) :
    ∃ w, (c.clear : ExceptT LoadError (StateM Volume) Unit) v = (.ok (), w) ∧ c.IsKept root u w ∧
      (v.IsTable → w.IsTable) ∧ (∀ s, w.get? (filePlace root s) = none) ∧
      ∀ name, w.get? (stagingPlace root ++ [name]) = none := by
  have named {name : String} (isName : IsName name) : Volume.names (join c.root name) ≠ [] := by
    simp [names_join isName]
  obtain ⟨w, cleared, kept, table, same⟩ := h.clearDirectory_eq h.fresh.base (by simp [basePlace])
    (named isName_v1) h.fresh.noFiles (by simp [basePlace])
  obtain ⟨x, cleared', kept', table', same'⟩ := kept.clearDirectory_eq h.fresh.staging
    (by simp [stagingPlace]) (named isName_tmp) h.fresh.noStaged (fun below _ same =>
      ne_staging root below [] (same.trans (List.append_nil _).symm))
  refine ⟨x, ?_, kept', table' ∘ table, ?_, ?_⟩
  · unfold Store.clear
    rw [bind_apply, cleared]
    exact cleared'
  · intro s
    have some := encodeKey_ne_nil s.text
    have base : w.get? (filePlace root s) = none := by
      rw [same, filePlace, if_neg, if_pos (List.prefix_append ..)]
      simpa using some
    rw [same']
    split
    case isTrue here =>
      exact absurd (here.trans (List.append_nil _).symm) (ne_staging root _ [])
    · rw [base, ite_self]
  · intro name
    rw [same', if_neg (by simp), if_pos (List.prefix_append ..)]

/-! ## What a request does -/

theorem serve_bind {α : Type} (action : ExceptT LoadError (StateM Volume) α) (answer : α → Answer)
    {a : α} (done : action v = (.ok a, w)) :
    ((do return answer (← action)) : ExceptT LoadError (StateM Volume) Answer) v =
      (.ok (answer a), w) := by
  rw [bind_apply, done]
  rfl

theorem isTable_put (c : Store) (s : Specifier) (source : String) (h : v.IsTable) :
    ((c.put s source : ExceptT LoadError (StateM Volume) Unit) v).2.IsTable := by
  rw [put_apply]
  have made := h.makeDirectories (parent (c.path s))
  split
  case h_1 same => rwa [same] at made
  case h_2 v₁ same =>
    rw [same] at made
    have staged := made.stage c.staging source.toUTF8
    unfold write
    split
    case h_1 same => rwa [same] at staged
    case h_2 path v₂ same =>
      rw [same] at staged
      have published := staged.publish path (c.path s)
      split
      case h_1 same => rwa [same] at published
      case h_2 fault v₃ same =>
        rw [same] at published
        exact published.removeFile path

theorem Holds.put (h : c.Holds root u past v) (s : Specifier) (source : String) :
    ∃ w, c.serve (.put s source) v = (.ok .done, w) ∧
      c.Holds root u (past ++ [.put s source]) w := by
  obtain ⟨w, put, kept, extended, file⟩ := h.kept.put_eq s source
  have table := isTable_put c s source h.table
  rw [put] at table
  refine ⟨w, serve_bind _ (fun _ => .done) put, kept, table, ?_, ?_⟩
  · intro t
    rw [firstPut?_concat]
    by_cases same : s.text = t.text
    · have place : filePlace root t = filePlace root s := filePlace_eq_iff.mpr same.symm
      rw [place, file, ← place, h.stored]
      cases firstPut? past t <;> simp [Request.drops, Request.putFor?, same]
    · have apart : ApartFrom root t v w := extended.mono fun q e adds => ⟨s, Ne.symm same, adds⟩
      rw [apart.get?_filePlace, h.stored]
      simp [Request.drops, Request.putFor?, same]
  · intro name
    rw [get?_staging extended, h.unstaged]

theorem Holds.get (h : c.Holds root u past v) (s : Specifier) :
    ∃ w, c.serve (.get s) v = (.ok (.found (firstPut? past s)), w) ∧
      c.Holds root u (past ++ [.get s]) w :=
  ⟨v, serve_bind _ .found (h.kept.get_eq (h.stored s)), h.pass (fun _ => rfl) fun _ => rfl⟩

theorem Holds.remove (h : c.Holds root u past v) (s : Specifier) :
    ∃ w, c.serve (.remove s) v = (.ok (.removed (firstPut? past s).isSome), w) ∧
      c.Holds root u (past ++ [.remove s]) w := by
  obtain ⟨w, removed, kept, table, same⟩ := h.kept.remove_eq s
  rw [h.stored, Option.isSome_map] at removed
  refine ⟨w, serve_bind _ .removed removed, kept, table h.table, ?_, ?_⟩
  · intro t
    rw [same, h.stored, firstPut?_concat]
    by_cases other : s.text = t.text <;>
      simp [filePlace_eq_iff, Request.drops, Request.putFor?, other, eq_comm]
  · intro name
    rw [same, if_neg, h.unstaged]
    exact (ne_staging root _ [name]).symm

theorem Holds.clear (h : c.Holds root u past v) :
    ∃ w, c.serve .clear v = (.ok .done, w) ∧ c.Holds root u (past ++ [.clear]) w := by
  obtain ⟨w, cleared, kept, table, files, staged⟩ := h.kept.clear_eq
  refine ⟨w, serve_bind _ (fun _ => .done) cleared, kept, table h.table, ?_, staged⟩
  intro s
  simp [files, firstPut?_concat, Request.drops]

theorem Holds.reopen (h : c.Holds root u past v) :
    ∃ w, c.serve .reopen v = (.ok (.opened c), w) ∧ c.Holds root u (past ++ [.reopen]) w := by
  refine ⟨v, serve_bind _ .opened ?_, h.pass (fun _ => rfl) fun _ => rfl⟩
  rw [create_apply]
  simp only [Volume.makeDirectories_of_find h.kept.find_base,
    Volume.makeDirectories_of_find h.kept.find_staging]

/-! ## Listing -/

/-- The listing of a cache. -/
def listing (c : Store) (files : List (List String × Nat)) : List Item :=
  (files.filterMap c.item?).mergeSort fun a b => a.specifier ≤ b.specifier

/-- A listing is in the order of the specifiers. -/
theorem sorted_listing (c : Store) (files : List (List String × Nat)) :
    (c.listing files).Pairwise fun a b => a.specifier ≤ b.specifier := by
  apply List.Pairwise.imp (fun le => of_decide_eq_true le)
  apply List.pairwise_mergeSort
  · intro a b d first second
    exact decide_eq_true (le_trans (of_decide_eq_true first) (of_decide_eq_true second))
  · intro a b
    simpa using le_total a.specifier b.specifier

/-- The files of the cache are those of the modules that it has. -/
theorem Holds.mem_filesFrom (h : c.Holds root u past v) {below : List String} {size : Nat} :
    (below, size) ∈ v.filesFrom (basePlace root) ↔
      ∃ s source, firstPut? past s = some source ∧ below = encodeKey s.text ∧
        size = source.utf8ByteSize := by
  rw [Volume.mem_filesFrom h.table]
  constructor
  · rintro ⟨-, content, file, size⟩
    obtain ⟨s, key⟩ := h.kept.keys below content file
    have stored := h.stored s
    rw [filePlace, ← key, file] at stored
    obtain ⟨source, put, same⟩ := Option.map_eq_some_iff.mp stored.symm
    refine ⟨s, source, put, key, ?_⟩
    rw [size, ← (Entry.file.inj same)]
    rfl
  · rintro ⟨s, source, put, key, size⟩
    have stored := h.stored s
    rw [put, filePlace, ← key] at stored
    exact ⟨key ▸ encodeKey_ne_nil s.text, source.toUTF8, stored, size⟩

theorem item?_encodeKey (c : Store) (s : Specifier) (size : Nat) :
    c.item? (encodeKey s.text, size) = some ⟨s.text, c.path s, size⟩ := by
  simp only [item?, decodeKey?_encodeKey, Option.map_some, Store.path]

theorem Holds.key_of_item? (h : c.Holds root u past v) {file : List String × Nat} {item : Item}
    (mem : file ∈ v.filesFrom (basePlace root)) (named : c.item? file = some item) :
    file.1 = encodeKey item.specifier := by
  obtain ⟨s, source, -, key, -⟩ := h.mem_filesFrom.mp mem
  obtain ⟨below, size⟩ := file
  dsimp only at key
  rw [key, item?_encodeKey] at named
  rw [key, ← Option.some.inj named]

theorem Holds.isListing (h : c.Holds root u past v) :
    IsListing c past (c.listing (v.filesFrom (basePlace root))) := by
  constructor
  case mem_iff =>
    intro item
    rw [listing, List.mem_mergeSort, List.mem_filterMap]
    constructor
    · rintro ⟨⟨below, size⟩, mem, named⟩
      obtain ⟨s, source, put, key, bytes⟩ := h.mem_filesFrom.mp mem
      rw [key, bytes, item?_encodeKey] at named
      exact ⟨s, source, put, (Option.some.inj named).symm⟩
    · rintro ⟨s, source, put, same⟩
      refine ⟨(encodeKey s.text, source.utf8ByteSize), ?_, ?_⟩
      · exact h.mem_filesFrom.mpr ⟨s, source, put, rfl, rfl⟩
      · rw [item?_encodeKey, same]
  case sorted =>
    have inOrder := sorted_listing c (v.filesFrom (basePlace root))
    have once : (c.listing (v.filesFrom (basePlace root))).Pairwise fun a b =>
        a.specifier ≠ b.specifier := by
      apply (List.mergeSort_perm ..).pairwise_iff (fun ne => Ne.symm ne) |>.mpr
      rw [List.pairwise_filterMap]
      have places := List.pairwise_map.mp (Volume.nodup_filesFrom h.table (basePlace root))
      apply List.Pairwise.imp_of_mem ?_ places
      intro file file' mem mem' other item named item' named' same
      rw [h.key_of_item? mem named, h.key_of_item? mem' named', same] at other
      exact other rfl
    exact inOrder.imp₂ (fun _ _ le ne => lt_of_le_of_ne le ne) once

theorem totalSize_eq_sum (items : List Item) : totalSize items = (items.map Item.size).sum := by
  induction items with
  | nil => rfl
  | cons item items ih =>
    rw [List.map_cons, List.sum_cons, ← ih]
    rfl

theorem IsKept.entries_eq (h : c.IsKept root u v) :
    (c.entries : ExceptT LoadError (StateM Volume) (List Item)) v =
      (.ok (c.listing (v.filesFrom (basePlace root))), v) := by
  rw [entries_apply]
  simp only [Volume.filesBelow, h.find_base, bind, Except.bind]
  rfl

theorem IsKept.size_eq (h : c.IsKept root u v) :
    (c.size : ExceptT LoadError (StateM Volume) Nat) v =
      (.ok ((c.listing (v.filesFrom (basePlace root))).map Item.size).sum, v) := by
  unfold Store.size
  rw [bind_apply, h.entries_eq, ← totalSize_eq_sum]
  rfl

/-! ## Any number of requests -/

/-- What a request is answered, and what is in the cache afterwards, is what the requests before say. -/
theorem Holds.serve (h : c.Holds root u past v) (request : Request) :
    ∃ answer w, c.serve request v = (.ok answer, w) ∧ IsAnswered c past request answer ∧
      c.Holds root u (past ++ [request]) w := by
  cases request with
  | put s source =>
    obtain ⟨w, served, holds⟩ := h.put s source
    exact ⟨_, w, served, rfl, holds⟩
  | get s =>
    obtain ⟨w, served, holds⟩ := h.get s
    exact ⟨_, w, served, rfl, holds⟩
  | remove s =>
    obtain ⟨w, served, holds⟩ := h.remove s
    exact ⟨_, w, served, rfl, holds⟩
  | clear =>
    obtain ⟨w, served, holds⟩ := h.clear
    exact ⟨_, w, served, rfl, holds⟩
  | entries =>
    exact ⟨_, v, serve_bind _ .listed h.kept.entries_eq, ⟨_, rfl, h.isListing⟩,
      h.pass (fun _ => rfl) fun _ => rfl⟩
  | size =>
    exact ⟨_, v, serve_bind _ .measured h.kept.size_eq, ⟨_, rfl, h.isListing⟩,
      h.pass (fun _ => rfl) fun _ => rfl⟩
  | reopen =>
    obtain ⟨w, served, holds⟩ := h.reopen
    exact ⟨_, w, served, rfl, holds⟩

theorem after_concat (c : Store) (past : List Request) (request : Request) (v : Volume) :
    c.after (past ++ [request]) v = (c.serve request (c.after past v)).2 := by
  simp [after, List.foldl_append]

/-- After any requests a cache has what they have put into it. -/
theorem IsFresh.holds_after (h : c.IsFresh root u) (past : List Request) :
    c.Holds root u past (c.after past u) := by
  induction past using List.reverseRecOn with
  | nil => exact h.holds
  | append_singleton past request ih =>
    obtain ⟨answer, w, served, -, holds⟩ := ih.serve request
    rw [after_concat, served]
    exact holds

/-- A cache on a file system without limits that nothing else touches keeps, for each module, the first
source that it is given. After any requests, any other one is carried out without a failure, is answered
what the map from modules to sources says that the requests before have left, and leaves nothing in the
directory of the files that are being written. -/
theorem keeps_first_source (fresh : c.IsFresh root u) (past : List Request) (request : Request) :
    ∃ answer w, c.serve request (c.after past u) = (.ok answer, w) ∧
      IsAnswered c past request answer ∧
      ∀ name, w.get? (stagingPlace root ++ [name]) = none := by
  obtain ⟨answer, w, served, answers, holds⟩ := (fresh.holds_after past).serve request
  exact ⟨answer, w, served, answers, holds.unstaged⟩

/-- A module with a key of three names. -/
def longModule : Specifier := ⟨.https, ⟨[], ['h'], none⟩, '/' :: List.replicate 500 'a', none⟩

/-- The first of two sources is kept for a module with a long specifier. -/
theorem keeps_first_source_longModule :
    ∃ u w, (create "/" : ExceptT LoadError (StateM Volume) Store) (.empty [] .none) = (.ok ⟨"/"⟩, u) ∧
      IsFresh ⟨"/"⟩ [] u ∧
      serve ⟨"/"⟩ (.get longModule)
        (after ⟨"/"⟩ [.put longModule "1", .put longModule "2", .reopen] u) =
          (.ok (.found (some "1")), w) := by
  obtain ⟨u, made, fresh⟩ := exists_isFresh
  obtain ⟨answer, w, served, answers, -⟩ := keeps_first_source fresh
    [.put longModule "1", .put longModule "2", .reopen] (.get longModule)
  refine ⟨u, w, made, fresh, ?_⟩
  rw [served, show answer = _ from answers]
  simp [firstPut?, Request.drops, Request.putFor?]

end Store

end ModuleLinker.Cache
