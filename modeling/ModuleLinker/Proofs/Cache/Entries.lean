import ModuleLinker.Proofs.Cache.Kept

/-!
# What a cache has

What an open cache has for a module (`Store.entry`), whatever else is on the file system: it can also be
that something is in the way of the file, or that the file has no text in it. Putting a source into the
cache changes what it has for one module at most, and only if it had nothing for that module
(`Store.IsOpen.put_entries`).
-/

set_option autoImplicit false

namespace ModuleLinker.Cache.Store

open Files

/-- What a cache has for a module. -/
def entry (c : Store) (v : Volume) (s : Specifier) : Except LoadError (Option String) :=
  ((c.get s : ExceptT LoadError (StateM Volume) (Option String)) v).1

variable {c : Store} {root : List String} {v w : Volume} {s t : Specifier}

/-- Modules that are written in the same way are the same to a cache. -/
theorem entry_congr (same : s.text = t.text) : c.entry v s = c.entry v t := by
  have path : c.path s = c.path t := by rw [Store.path, same, Store.path]
  rw [entry, entry, get_apply, get_apply, path]

/-- What a cache has is what the path of the module leads to. -/
theorem entry_of_find (found : v.find (c.path s) = w.find (c.path s)) :
    c.entry v s = c.entry w s := by
  rw [entry, entry, get_apply, get_apply]
  unfold Volume.read
  rw [found]

/-- A cache has nothing for a module whose path leads nowhere. -/
theorem entry_of_notFound (found : v.find (c.path s) = .error .notFound) :
    c.entry v s = .ok none := by
  rw [entry, get_apply]
  unfold Volume.read
  rw [found]
  rfl

/-- A cache that has just been made has nothing for any module. -/
theorem IsFresh.entry_eq_none (h : c.IsFresh root v) (s : Specifier) : c.entry v s = .ok none := by
  apply entry_of_notFound
  rw [h.isKept.find_path, filePlace, h.tree.get?_below h.noFiles (encodeKey_ne_nil s.text)]
  rfl

/-- A cache has the source that is in the file of a module. -/
theorem entry_of_file {place : List String} {source : String}
    (found : v.find (c.path s) = .ok (place, .file source.toUTF8)) :
    c.entry v s = .ok (some source) := by
  rw [entry, get_apply]
  unfold Volume.read
  rw [found]
  simp only [bind, Except.bind]
  rw [textOf_toUTF8]

/-- The path of a module for which a cache has nothing leads nowhere. -/
theorem find_of_entry_eq_none (missed : c.entry v s = .ok none) :
    v.find (c.path s) = .error .notFound := by
  rw [entry, get_apply] at missed
  unfold Volume.read at missed
  generalize c.path s = path at missed ⊢
  generalize v.find path = found at missed ⊢
  rcases found with fault | ⟨place, _ | content⟩
  · cases fault <;> simp [bind, Except.bind] at missed ⊢
  · simp [bind, Except.bind] at missed
  · simp only [bind, Except.bind, textOf] at missed
    cases text : String.fromUTF8? content <;> simp [text] at missed

/-- No file is added on the way to that of a module. -/
theorem blocks_of_extends (extended : v.Extends w (Adds root s))
    (blocks : w.Blocks (basePlace root) (encodeKey s.text)) :
    v.Blocks (basePlace root) (encodeKey s.text) := by
  obtain ⟨front, back, content, key, some, file⟩ := blocks
  refine ⟨front, back, content, key, some, ?_⟩
  rcases extended.get? (basePlace root ++ front) with same | ⟨-, e, found, adds⟩
  · rw [← same, file]
  · rw [file] at found
    cases found
    rcases adds with ⟨directory, -⟩ | ⟨whole, -⟩
    · cases directory
    · rw [filePlace] at whole
      rw [List.append_cancel_left whole] at key
      exact absurd (List.append_right_eq_self.mp key.symm) some

/-- What the path of a module leads to after something may have been put there, if nothing was in the
way. -/
theorem IsOpen.find_path_of_clear (opened : c.IsOpen root w) (extended : v.Extends w (Adds root s))
    (allowed : v.checkPath (c.path s) = .ok ())
    (clear : ¬ v.Blocks (basePlace root) (encodeKey s.text)) :
    w.find (c.path s) = (w.get? (filePlace root s)).elim (.error .notFound) fun entry =>
      .ok (filePlace root s, entry) := by
  rcases opened.find_path s ((extended.checkPath _).trans allowed) with ⟨blocked, -⟩ | ⟨-, there⟩
  · exact absurd (blocks_of_extends extended blocked) clear
  · exact there

/-- What a cache has for a module is kept when a source is put into it, or it had nothing and has that
source then. -/
theorem IsOpen.put_entry (h : c.IsOpen root v) (opened : c.IsOpen root w) {source : String}
    (outcome : Except LoadError Unit) (extended : v.Extends w (Adds root s))
    (file : w.get? (filePlace root s) = match outcome with
      | .error _ => v.get? (filePlace root s)
      | .ok _ => some ((v.get? (filePlace root s)).getD (.file source.toUTF8))) :
    c.entry w s = c.entry v s ∨
      (c.entry v s = .ok none ∧ c.entry w s = .ok (some source)) := by
  cases allowed : v.checkPath (c.path s) with
  | error fault =>
    left
    apply entry_of_find
    simp only [Volume.find, Volume.locate, extended.checkPath, allowed, bind, Except.bind]
  | ok _ =>
    rcases h.find_path s allowed with
      ⟨⟨front, back, content, key, some, blocked⟩, found⟩ | ⟨clear, found⟩
    · -- A file in the way stays there.
      left
      apply entry_of_find
      have still : w.Blocks (basePlace root) (encodeKey s.text) :=
        ⟨front, back, content, key, some, extended.get?_eq_some blocked⟩
      rcases opened.find_path s ((extended.checkPath _).trans allowed) with ⟨-, there⟩ | ⟨clear, -⟩
      · rw [there, found]
      · exact absurd still clear
    · have there := opened.find_path_of_clear extended allowed clear
      cases inPlace : v.get? (filePlace root s) with
      | some e =>
        left
        apply entry_of_find
        rw [there, found, extended.get?_eq_some inPlace, inPlace]
      | none =>
        rw [inPlace] at found file
        rw [file] at there
        cases outcome with
        | error e =>
          left
          apply entry_of_find
          rw [there, found]
        | ok _ =>
          right
          exact ⟨entry_of_notFound found, entry_of_file there⟩

/-- What comes of putting a source into an open cache: nothing is left of the file that was written
elsewhere, and what the cache has for a module changes only if it is this module and the cache had
nothing for it. -/
theorem IsOpen.put_entries (h : c.IsOpen root v) {source : String} {outcome : Except LoadError Unit}
    (put : (c.put t source : ExceptT LoadError (StateM Volume) Unit) v = (outcome, w)) :
    c.IsOpen root w ∧
      (∀ below, w.get? (stagingPlace root ++ below) = v.get? (stagingPlace root ++ below)) ∧
      ∀ s, c.entry w s = c.entry v s ∨
        (s.text = t.text ∧ c.entry v s = .ok none ∧ c.entry w s = .ok (some source)) := by
  obtain ⟨w', done, opened, extended, file⟩ := put_spec h t source
  rw [put] at done
  obtain ⟨-, rfl⟩ := Prod.mk.inj done
  generalize c.putOutcome root t v = outcome at file
  refine ⟨opened, get?_staging extended, fun s => ?_⟩
  by_cases same : s.text = t.text
  · rw [entry_congr same, entry_congr same]
    rcases h.put_entry opened outcome extended file with kept | ⟨none, some⟩
    · exact .inl kept
    · exact .inr ⟨same, none, some⟩
  · left
    have apart : ApartFrom root s v w := extended.mono fun q e adds => ⟨t, same, adds⟩
    exact get_congr apart h opened

/-- A cache that has had nothing for a module has the source that has been put into it. -/
theorem IsOpen.put_missed (h : c.IsOpen root v) {source : String}
    (put : (c.put s source : ExceptT LoadError (StateM Volume) Unit) v = (.ok (), w))
    (missed : c.entry v s = .ok none) : c.entry w s = .ok (some source) := by
  obtain ⟨w', done, opened, extended, file⟩ := put_spec h s source
  rw [put] at done
  obtain ⟨outcome, rfl⟩ := Prod.mk.inj done
  rw [← outcome] at file
  rcases h.put_entry opened (.ok ()) extended file with kept | ⟨-, some⟩
  · -- There is a file in its place, so that the path leads somewhere.
    have allowed : w.checkPath (c.path s) = .ok () := by
      rw [extended.checkPath]
      unfold putOutcome at outcome
      split at outcome
      · cases outcome
      · split at outcome
        · cases outcome
        · split at outcome
          · cases outcome
          case h_2 checked => exact checked
    have nowhere := find_of_entry_eq_none (kept.trans missed)
    rcases opened.find_path s allowed with ⟨-, found⟩ | ⟨-, found⟩
    · rw [found] at nowhere
      cases nowhere
    · rw [found, file] at nowhere
      cases nowhere
  · exact some

end ModuleLinker.Cache.Store
