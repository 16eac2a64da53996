import ModuleLinker.Proofs.Graph.Visit

/-!
# Shared records

A record is shared by the graph it is in and by whoever has made it, and both change it. A shelf has all
records that have been made for a run, by number, and its graph has the numbers of some of them. What is
done to records is done to the graph by the operations on graphs (`Shelf.Proper.edited_change`), and a
record that comes too late for the graph stays as it is. Whatever is done, the walk over the graph is a
recursive visit of the entry (`Shelf.walk_changeAll`).
-/

set_option autoImplicit false

namespace ModuleLinker

variable {U : Type}

/-- Records that have been made for a run. -/
structure Shelf (U : Type) where
  /-- The module the run starts from. -/
  entry : Specifier
  /-- The records, by number. -/
  made : List (Record U)
  /-- The numbers of the records in the graph, in the order in which they were put in. -/
  stored : List Nat

namespace Shelf

/-- What is done to records. -/
inductive Change (U : Type) where
  /-- A record is made. It gets the next number. -/
  | make (r : Record U)
  /-- The record with a number is put into the graph, unless there is one of its module. -/
  | insert (n : Nat)
  /-- It changes how far the module of the record with a number has come. -/
  | setState (n : Nat) (state : LinkState)
  /-- It changes what the module of the record with a number imports. -/
  | setDependencies (n : Nat) (dependencies : List Specifier)

/-- A shelf without records. -/
def empty (entry : Specifier) : Shelf U := ⟨entry, [], []⟩

/-- The graph, with its records as they are now. -/
def graph (shelf : Shelf U) : Graph U := ⟨shelf.entry, shelf.stored.filterMap (shelf.made[·]?)⟩

/-- Changes the record with a number. -/
def alter (shelf : Shelf U) (n : Nat) (f : Record U → Record U) : Shelf U :=
  { shelf with made := shelf.made.modify n f }

/-- The shelf after a change. -/
def change (shelf : Shelf U) : Change U → Shelf U
  | .make r => { shelf with made := shelf.made ++ [r] }
  | .insert n =>
    match shelf.made[n]? with
    | none => shelf
    | some r =>
      if shelf.graph.contains r.specifier then shelf
      else { shelf.alter n Graph.admitted with stored := shelf.stored ++ [n] }
  | .setState n state => shelf.alter n fun r => { r with state := state }
  | .setDependencies n dependencies =>
    shelf.alter n fun r => { r with dependencies := dependencies }

/-- The shelf after changes. -/
def changeAll (shelf : Shelf U) (changes : List (Change U)) : Shelf U := changes.foldl change shelf

theorem changeAll_append (shelf : Shelf U) (changes more : List (Change U)) :
    shelf.changeAll (changes ++ more) = (shelf.changeAll changes).changeAll more :=
  List.foldl_append

/-- The module of the record with a number. -/
def module? (shelf : Shelf U) (n : Nat) : Option Specifier := shelf.made[n]?.map (·.specifier)

/-- The records in the graph have been made, and no two of them are of one module. -/
structure Proper (shelf : Shelf U) : Prop where
  made : ∀ n ∈ shelf.stored, n < shelf.made.length
  unique : (shelf.stored.map shelf.module?).Nodup

variable {shelf later : Shelf U} {n : Nat} {r : Record U}

/-! ## Records and the graph -/

theorem mem_records : r ∈ shelf.graph.records ↔ ∃ n ∈ shelf.stored, shelf.made[n]? = some r :=
  List.mem_filterMap

theorem mem_keys {s : Specifier} :
    s ∈ shelf.graph.keys ↔ ∃ n ∈ shelf.stored, shelf.module? n = some s := by
  rw [Graph.mem_keys]
  constructor
  · rintro ⟨r, mem, rfl⟩
    obtain ⟨n, mem, found⟩ := mem_records.mp mem
    exact ⟨n, mem, by rw [module?, found]; rfl⟩
  · rintro ⟨n, mem, own⟩
    obtain ⟨r, found, rfl⟩ := Option.map_eq_some_iff.mp own
    exact ⟨r, mem_records.mpr ⟨n, mem, found⟩, rfl⟩

theorem Proper.keys (h : shelf.Proper) : shelf.graph.keys.map some = shelf.stored.map shelf.module? := by
  have made := h.made
  rw [Graph.keys, graph]
  generalize shelf.stored = stored at made
  induction stored with
  | nil => rfl
  | cons n stored ih =>
    have found := List.getElem?_eq_getElem (made n List.mem_cons_self)
    rw [List.filterMap_cons_some found, List.map_cons, List.map_cons, List.map_cons,
      ih fun m mem => made m (List.mem_cons_of_mem n mem), module?, found]
    rfl

/-- No two records of the graph are of one module. -/
theorem Proper.nodup_keys (h : shelf.Proper) : shelf.graph.keys.Nodup :=
  .of_map some (h.keys ▸ h.unique)

/-- The record of a module is the one in the graph. -/
theorem Proper.get? (h : shelf.Proper) (stored : n ∈ shelf.stored) (found : shelf.made[n]? = some r) :
    shelf.graph.get? r.specifier = some r :=
  (Graph.get?_eq_some_iff h.nodup_keys).mpr ⟨mem_records.mpr ⟨n, stored, found⟩, rfl⟩

/-! ## Changing a record -/

section Alter

variable {f : Record U → Record U}

theorem getElem?_alter (shelf : Shelf U) (n m : Nat) (f : Record U → Record U) :
    (shelf.alter n f).made[m]? = if n = m then shelf.made[m]?.map f else shelf.made[m]? := by
  rw [alter, List.getElem?_modify]
  split
  · rfl
  · cases shelf.made[m]? <;> rfl

theorem module?_alter (same : ∀ r, (f r).specifier = r.specifier) (m : Nat) :
    (shelf.alter n f).module? m = shelf.module? m := by
  rw [module?, getElem?_alter, module?]
  split
  · rw [Option.map_map]
    exact Option.map_congr fun r _ => same r
  · rfl

theorem Proper.alter (h : shelf.Proper) (same : ∀ r, (f r).specifier = r.specifier) :
    (shelf.alter n f).Proper where
  made m mem := by
    show m < (shelf.made.modify n f).length
    rw [List.length_modify]
    exact h.made m mem
  unique := by
    rw [List.map_congr_left fun m _ => module?_alter same m]
    exact h.unique

/-- A record that is not in the graph can be changed without changing the graph. -/
theorem graph_alter_of_not_mem (other : n ∉ shelf.stored) : (shelf.alter n f).graph = shelf.graph := by
  unfold graph
  congr 1
  refine List.filterMap_congr fun m mem => ?_
  rw [getElem?_alter, if_neg]
  rintro rfl
  exact other mem

/-- Changing a record of the graph changes the record of its module. -/
theorem Proper.graph_alter (h : shelf.Proper) (stored : n ∈ shelf.stored)
    (found : shelf.made[n]? = some r) :
    (shelf.alter n f).graph = shelf.graph.modify r.specifier f := by
  unfold graph Graph.modify
  congr 1
  rw [List.map_filterMap]
  refine List.filterMap_congr fun m mem => ?_
  rw [getElem?_alter]
  split
  case isTrue here =>
    subst here
    rw [found]
    simp
  case isFalse other =>
    cases there : shelf.made[m]? with
    | none => rfl
    | some r' =>
      have apart : r'.specifier ≠ r.specifier := by
        intro same
        refine other (List.inj_on_of_nodup_map h.unique stored mem ?_)
        rw [module?, module?, found, there, Option.map_some, Option.map_some, same]
      simp [apart]

end Alter

/-! ## Changes -/

/-- A record of a module that is in the graph is not put in, and stays as it is. -/
theorem change_insert_of_contains (found : shelf.made[n]? = some r)
    (known : shelf.graph.contains r.specifier = true) : shelf.change (.insert n) = shelf := by
  simp only [change, found, known, if_true]

/-- A record of a module that is not in the graph is put in, and is being linked from then on. -/
theorem change_insert_of_not_contains (found : shelf.made[n]? = some r)
    (fresh : ¬ shelf.graph.contains r.specifier = true) :
    shelf.change (.insert n) =
      { shelf.alter n Graph.admitted with stored := shelf.stored ++ [n] } := by
  simp only [change, found, if_neg fresh]

/-- Putting a record in either does nothing, or puts it in. -/
theorem change_insert_cases (shelf : Shelf U) (n : Nat) :
    shelf.change (.insert n) = shelf ∨
      ∃ r, shelf.made[n]? = some r ∧ ¬ shelf.graph.contains r.specifier = true ∧
        shelf.change (.insert n) =
          { shelf.alter n Graph.admitted with stored := shelf.stored ++ [n] } := by
  cases found : shelf.made[n]? with
  | none =>
    left
    simp only [change, found]
  | some r =>
    by_cases known : shelf.graph.contains r.specifier = true
    · exact .inl (change_insert_of_contains found known)
    · exact .inr ⟨r, rfl, known, change_insert_of_not_contains found known⟩

theorem module?_make (made : n < shelf.made.length) (r : Record U) :
    (shelf.change (.make r)).module? n = shelf.module? n := by
  unfold module?
  rw [show (shelf.change (.make r)).made = shelf.made ++ [r] from rfl, List.getElem?_append_left made]

theorem Proper.make (h : shelf.Proper) (r : Record U) : (shelf.change (.make r)).Proper where
  made m mem := by
    show m < (shelf.made ++ [r]).length
    rw [List.length_append]
    exact Nat.lt_add_right _ (h.made m mem)
  unique := by
    show (shelf.stored.map _).Nodup
    rw [List.map_congr_left fun m mem => module?_make (h.made m mem) r]
    exact h.unique

theorem Proper.insert (h : shelf.Proper) (n : Nat) : (shelf.change (.insert n)).Proper := by
  rcases shelf.change_insert_cases n with same | ⟨r, found, fresh, same⟩
  · rw [same]
    exact h
  · rw [same]
    obtain ⟨made, unique⟩ := h.alter (n := n) Graph.admitted_specifier
    have own : (shelf.alter n Graph.admitted).module? n = some r.specifier := by
      rw [module?_alter Graph.admitted_specifier, module?, found]
      rfl
    constructor
    case made =>
      intro m mem
      rcases List.mem_append.mp mem with mem | mem
      · exact made m mem
      · rw [List.mem_singleton.mp mem]
        show n < (shelf.made.modify n _).length
        rw [List.length_modify]
        exact (List.getElem?_eq_some_iff.mp found).1
    case unique =>
      show ((shelf.stored ++ [n]).map (shelf.alter n Graph.admitted).module?).Nodup
      rw [List.map_append, List.map_singleton, own]
      refine unique.append (List.nodup_singleton _) (List.disjoint_singleton.mpr fun mem => ?_)
      obtain ⟨m, stored, there⟩ := List.mem_map.mp mem
      rw [module?_alter Graph.admitted_specifier] at there
      exact fresh (Graph.contains_iff.mpr (mem_keys.mpr ⟨m, stored, there⟩))

theorem Proper.change (h : shelf.Proper) (c : Change U) : (shelf.change c).Proper := by
  cases c with
  | make r => exact h.make r
  | insert n => exact h.insert n
  | setState n state => exact h.alter fun _ => rfl
  | setDependencies n dependencies => exact h.alter fun _ => rfl

/-- Putting a record into the graph is putting it in as it is. -/
theorem graph_insert (found : shelf.made[n]? = some r) :
    (shelf.change (.insert n)).graph = shelf.graph.insert r := by
  by_cases known : shelf.graph.contains r.specifier = true
  · rw [change_insert_of_contains found known, Graph.insert, if_pos known]
  · have other : n ∉ shelf.stored := fun mem =>
      known (Graph.contains_iff.mpr (mem_keys.mpr ⟨n, mem, by rw [module?, found]; rfl⟩))
    have rest : shelf.stored.filterMap ((shelf.alter n Graph.admitted).made[·]?) =
        shelf.stored.filterMap (shelf.made[·]?) :=
      congrArg Graph.records (graph_alter_of_not_mem other)
    have last : (shelf.alter n Graph.admitted).made[n]? = some (Graph.admitted r) := by
      rw [getElem?_alter, if_pos rfl, found]
      rfl
    rw [change_insert_of_not_contains found known, Graph.insert, if_neg known]
    unfold graph
    dsimp only
    rw [List.filterMap_append, rest, List.filterMap_cons_some last]
    rfl

/-- Making a record leaves the graph as it is. -/
theorem Proper.graph_make (h : shelf.Proper) (r : Record U) :
    (shelf.change (.make r)).graph = shelf.graph := by
  unfold graph
  congr 1
  exact List.filterMap_congr fun m mem => List.getElem?_append_left (h.made m mem)

/-- The graph after a change is one that the operations on graphs lead to. -/
theorem Proper.edited_change (h : shelf.Proper) (edited : Graph.Edited shelf.entry shelf.graph)
    (c : Change U) : Graph.Edited shelf.entry (shelf.change c).graph := by
  -- A record that is changed is in the graph, as the record of its module, or is not.
  have altered {n : Nat} {f : Record U → Record U}
      (modified : ∀ s, Graph.Edited shelf.entry (shelf.graph.modify s f)) :
      Graph.Edited shelf.entry (shelf.alter n f).graph := by
    by_cases stored : n ∈ shelf.stored
    · rw [h.graph_alter stored (List.getElem?_eq_getElem (h.made n stored))]
      exact modified _
    · rw [graph_alter_of_not_mem stored]
      exact edited
  cases c with
  | make r => rw [h.graph_make]; exact edited
  | insert n =>
    rcases shelf.change_insert_cases n with same | ⟨r, found, -, -⟩
    · rw [same]
      exact edited
    · rw [graph_insert found]
      exact edited.insert r
  | setState n state => exact altered fun s => edited.setState s state
  | setDependencies n dependencies => exact altered fun s => edited.setDependencies s dependencies

/-! ## What stays -/

/-- What has been done to records since: those in the graph are still in it, and nothing but the state
and the imports of a record has changed. -/
structure Later (shelf later : Shelf U) : Prop where
  entry : later.entry = shelf.entry
  stored : shelf.stored ⊆ later.stored
  made : ∀ (n : Nat) (r : Record U), shelf.made[n]? = some r →
    ∃ r', later.made[n]? = some r' ∧ r'.fresh = r.fresh

theorem Later.refl (shelf : Shelf U) : shelf.Later shelf :=
  ⟨rfl, fun _ mem => mem, fun _ r found => ⟨r, found, rfl⟩⟩

theorem Later.trans {last : Shelf U} (first : shelf.Later later) (second : later.Later last) :
    shelf.Later last where
  entry := second.entry.trans first.entry
  stored _ mem := second.stored (first.stored mem)
  made n r found := by
    obtain ⟨r', found', same⟩ := first.made n r found
    obtain ⟨r'', found'', same'⟩ := second.made n r' found'
    exact ⟨r'', found'', same'.trans same⟩

theorem later_alter {f : Record U → Record U} (same : ∀ r, (f r).fresh = r.fresh) :
    shelf.Later (shelf.alter n f) where
  entry := rfl
  stored _ mem := mem
  made m r found := by
    rw [getElem?_alter]
    split
    · exact ⟨f r, by rw [found]; rfl, same r⟩
    · exact ⟨r, found, rfl⟩

theorem fresh_admitted (r : Record U) : (Graph.admitted r).fresh = r.fresh := by
  unfold Graph.admitted
  split <;> rfl

theorem later_change (shelf : Shelf U) (c : Change U) : shelf.Later (shelf.change c) := by
  cases c with
  | make r =>
    refine ⟨rfl, fun _ mem => mem, fun n r' found => ⟨r', ?_, rfl⟩⟩
    rw [← found]
    exact List.getElem?_append_left (List.getElem?_eq_some_iff.mp found).1
  | insert n =>
    rcases shelf.change_insert_cases n with same | ⟨r, -, -, same⟩
    · rw [same]
      exact .refl shelf
    · have altered : shelf.Later _ := later_alter (n := n) fresh_admitted
      rw [same]
      exact ⟨rfl, fun _ mem => List.mem_append_left _ mem, altered.made⟩
  | setState n state => exact later_alter fun _ => rfl
  | setDependencies n dependencies => exact later_alter fun _ => rfl

theorem later_changeAll (shelf : Shelf U) (changes : List (Change U)) :
    shelf.Later (shelf.changeAll changes) := by
  induction changes generalizing shelf with
  | nil => exact .refl shelf
  | cons c changes ih => exact (later_change shelf c).trans (ih (shelf.change c))

/-! ## Sessions -/

/-- What holds of a shelf at every point. -/
theorem kept_changeAll (h : shelf.Proper) (edited : Graph.Edited shelf.entry shelf.graph)
    (changes : List (Change U)) : (shelf.changeAll changes).Proper ∧
      Graph.Edited shelf.entry (shelf.changeAll changes).graph := by
  induction changes generalizing shelf with
  | nil => exact ⟨h, edited⟩
  | cons c changes ih =>
    have entry := (later_change shelf c).entry
    have rest := ih (h.change c) (entry ▸ h.edited_change edited c)
    rw [entry] at rest
    exact rest

theorem kept_empty (entry : Specifier) (changes : List (Change U)) :
    ((empty entry : Shelf U).changeAll changes).Proper ∧
      Graph.Edited entry ((empty entry).changeAll changes).graph := by
  have start : (empty entry : Shelf U).Proper := ⟨fun _ mem => (by cases mem), List.nodup_nil⟩
  exact kept_changeAll start .empty changes

/-- The record that is put into the graph first stays the record of its module, whatever is done
then. -/
theorem get?_changeAll_of_fresh (h : shelf.Proper) (found : shelf.made[n]? = some r)
    (fresh : ¬ shelf.graph.contains r.specifier = true) (edited : Graph.Edited shelf.entry shelf.graph)
    (after : List (Change U)) :
    ∃ r', (shelf.changeAll (.insert n :: after)).made[n]? = some r' ∧
      (shelf.changeAll (.insert n :: after)).graph.get? r.specifier = some r' ∧ r'.fresh = r.fresh := by
  obtain ⟨r', found', same⟩ := (later_changeAll shelf (.insert n :: after)).made n r found
  have stored : n ∈ (shelf.changeAll (.insert n :: after)).stored := by
    refine (later_changeAll (shelf.change (.insert n)) after).stored ?_
    rw [change_insert_of_not_contains found fresh]
    exact List.mem_concat_self
  have own : r'.fresh.specifier = r.fresh.specifier := by rw [same]
  exact ⟨r', found', (congrArg _ own).symm.trans ((kept_changeAll h edited _).1.get? stored found'), same⟩

/-- Whatever records are put into a graph and whatever is changed about them, the walk over the graph
lists what a recursive visit of the entry lists, which are the records that can be reached from the entry
through records, each of them once. That is so of every graph that the operations on graphs lead to, and
those of shared records are such graphs: a record that is put in is inserted, as the first one of its
module it stays, and any later one stays out and as it is. -/
theorem walk_changeAll (entry : Specifier) :
    (∀ g : Graph U, Graph.Edited entry g → g.walk = (g.visit entry []).records ∧
      (g.walk.map (·.specifier)).Nodup ∧
      ∀ r, r ∈ g.walk ↔ r ∈ g.records ∧ g.Needs r.specifier) ∧
    ∀ changes : List (Change U),
      Graph.Edited entry ((empty entry).changeAll changes).graph ∧
      ∀ before n after r, changes = before ++ .insert n :: after →
        ((empty entry).changeAll before).made[n]? = some r →
        let earlier := (empty entry).changeAll before
        let shelf := (empty entry).changeAll changes
        (earlier.change (.insert n)).graph = earlier.graph.insert r ∧
        (earlier.graph.contains r.specifier = true → earlier.change (.insert n) = earlier) ∧
        (earlier.graph.contains r.specifier = false →
          ∃ r', shelf.made[n]? = some r' ∧ shelf.graph.get? r.specifier = some r' ∧
            r'.fresh = r.fresh) := by
  constructor
  · intro g edited
    refine ⟨?_, Graph.nodup_specifiers_walk edited.nodup_keys, fun r => ?_⟩
    · rw [Graph.walk_eq_visit, edited.root]
    · exact Graph.mem_walk_iff edited.nodup_keys
  · intro changes
    refine ⟨(kept_empty entry changes).2, ?_⟩
    rintro before n after r rfl found
    obtain ⟨proper, edited⟩ := kept_empty entry before
    have root : ((empty entry).changeAll before).entry = entry :=
      (later_changeAll (empty entry) before).entry
    refine ⟨graph_insert found, change_insert_of_contains found, fun fresh => ?_⟩
    rw [changeAll_append]
    refine get?_changeAll_of_fresh proper found ?_ (root.symm ▸ edited) after
    rw [fresh]
    exact Bool.false_ne_true

/-- A record of a module that imports itself twice. -/
def loopRecord : Record Unit :=
  let s : Specifier := ⟨.file, Specifier.noAuthority, "/a.js".toList, none⟩
  ⟨s, "", "", .javaScript, .unlinked, true, (), [s, s]⟩

/-- Of two records of a module the one that is put in second stays out and as it is. -/
theorem walk_changeAll_rivals :
    let earlier := (empty loopRecord.specifier).changeAll
      [.make loopRecord, .insert 0, .make loopRecord]
    earlier.made[1]? = some loopRecord ∧ earlier.graph.contains loopRecord.specifier = true ∧
      earlier.change (.insert 1) = earlier ∧
      Graph.Edited loopRecord.specifier earlier.graph ∧
      earlier.graph.walk = (earlier.graph.visit loopRecord.specifier []).records := by
  intro earlier
  obtain ⟨walks, stays⟩ := walk_changeAll (U := Unit) loopRecord.specifier
  have edited := (stays [.make loopRecord, .insert 0, .make loopRecord]).1
  have known : earlier.graph.contains loopRecord.specifier = true := by decide +kernel
  have second := (stays [.make loopRecord, .insert 0, .make loopRecord, .insert 1]).2
    [.make loopRecord, .insert 0, .make loopRecord] 1 [] loopRecord rfl rfl
  exact ⟨rfl, known, second.2.1 known, edited, (walks _ edited).1⟩

end Shelf

end ModuleLinker
