import ModuleLinker.Link.Drive
import ModuleLinker.Proofs.Graph.Records
import ModuleLinker.Proofs.Link.Sound

/-!
# Linking one module after another

The plain way to link local modules: a module is read, compiled and put into the graph, its references
are resolved in order, and then what it imports is linked in turn, each import with everything below it
before the next one. The first failure ends everything. There are finitely many modules to read, and
each one is read at most once, so this comes to an end (`Sources.visitAll`).
-/

set_option autoImplicit false

namespace ModuleLinker.Link

variable {U V : Type}

/-- Finitely many local modules. -/
structure Sources where
  /-- What comes of reading a module. -/
  read : Specifier → Except LoadError String
  /-- The modules that can be read, and perhaps others. -/
  known : List Specifier
  /-- Every module that can be read is among them. -/
  mem_known : ∀ {s source}, read s = .ok source → s ∈ known

/-- How far linking one module after another has come. -/
structure Progress (U : Type) where
  /-- The modules that have been loaded. -/
  graph : Graph U
  /-- What has been done. -/
  work : List Work

/-- Marks a module as linked. -/
def Progress.finish (p : Progress U) (s : Specifier) : Progress U :=
  { p with graph := p.graph.setState s .linked }

/-- The modules that have been read, in order. -/
def readings (work : List Work) : List Specifier :=
  work.filterMap fun
    | .read s => some s
    | _ => none

/-- The known modules that are not in a graph. -/
def unread (known : List Specifier) (g : Graph U) : List Specifier :=
  known.filter fun s => !g.contains s

/-- Putting the record of a known module in leaves fewer modules that are not in the graph. -/
theorem length_unread_lt {known : List Specifier} {g g' : Graph U} {s : Specifier}
    (mem : s ∈ known) (fresh : ¬ g.contains s = true)
    (keys : ∀ t, t ∈ g'.keys ↔ t = s ∨ t ∈ g.keys) :
    (unread known g').length < (unread known g).length := by
  have part : unread known g' = (unread known g).filter (· != s) := by
    unfold unread
    rw [List.filter_filter]
    refine List.filter_congr fun t _ => ?_
    rw [Bool.eq_iff_iff]
    simp only [Bool.not_eq_true', ← Bool.not_eq_true, Graph.contains_iff, keys, Bool.and_eq_true,
      bne_iff_ne]
    tauto
  rw [part, List.length_filter_lt_length_iff_exists]
  refine ⟨s, List.mem_filter.mpr ⟨mem, ?_⟩, by simp⟩
  rw [Bool.not_eq_true', ← Bool.not_eq_true]
  exact fresh

/-- Marking a module as linked puts nothing into a graph. -/
theorem unread_finish (known : List Specifier) (p : Progress U) (s : Specifier) :
    unread known (p.finish s).graph = unread known p.graph := by
  refine List.filter_congr fun t _ => ?_
  rw [Progress.finish, Bool.eq_iff_iff]
  simp only [Bool.not_eq_true', ← Bool.not_eq_true, Graph.contains_iff, Graph.keys_setState]

namespace Sources

variable (l : Sources) (engine : Engine U V) (entry : Specifier) (given : Option String)

/-- The source of a module, and the work of getting it. That of the entry may be given. -/
def sourceOf (s : Specifier) : Except LoadError String × List Work :=
  match given with
  | some source => if s = entry then (.ok source, []) else (l.read s, [.read s])
  | none => (l.read s, [.read s])

/-- Reads a module, compiles it, puts it into the graph and resolves its references. -/
def load (s : Specifier) (p : Progress U) : Except LoadError (List Specifier) × Progress U :=
  match l.sourceOf entry given s with
  | (.error e, reading) => (.error e, { p with work := p.work ++ reading })
  | (.ok source, reading) =>
    match build engine s (s == entry) source with
    | (.error e, building) => (.error e, { p with work := p.work ++ reading ++ building })
    | (.ok r, building) =>
      let graph := p.graph.insert r
      let work := p.work ++ reading ++ building
      match importsOf engine r with
      | .error e => (.error e, ⟨graph, work⟩)
      | .ok imports => (.ok imports, ⟨graph.setDependencies s imports, work⟩)

variable {l engine entry given} in
/-- A module that is loaded is known, and is in the graph then. -/
theorem load_eq_ok {s : Specifier} {p p' : Progress U} {imports : List Specifier}
    (loaded : l.load engine entry given s p = (.ok imports, p')) :
    s ∈ entry :: l.known ∧ ∀ t, t ∈ p'.graph.keys ↔ t = s ∨ t ∈ p.graph.keys := by
  unfold load at loaded
  split at loaded
  case h_1 => cases loaded
  case h_2 source reading found =>
    split at loaded
    case h_1 => cases loaded
    case h_2 r building built =>
      have own : r.specifier = s := (build_spec (congrArg Prod.fst built)).1
      dsimp only at loaded
      split at loaded
      case h_1 => cases loaded
      case h_2 imports' resolved =>
        obtain ⟨-, rfl⟩ := Prod.mk.inj loaded
        refine ⟨?_, fun t => ?_⟩
        · unfold sourceOf at found
          split at found
          · split at found
            case isTrue here => rw [here]; exact List.mem_cons_self
            case isFalse => exact List.mem_cons_of_mem _ (l.mem_known (congrArg Prod.fst found))
          · exact List.mem_cons_of_mem _ (l.mem_known (congrArg Prod.fst found))
        · rw [Graph.keys_setDependencies, Graph.mem_keys_insert, own]

variable {l engine entry given} in
theorem length_unread_load {s : Specifier} {p p' : Progress U} {imports : List Specifier}
    (fresh : ¬ p.graph.contains s = true)
    (loaded : l.load engine entry given s p = (.ok imports, p')) :
    (unread (entry :: l.known) p'.graph).length < (unread (entry :: l.known) p.graph).length :=
  length_unread_lt (load_eq_ok loaded).1 fresh (load_eq_ok loaded).2

/-- Links some modules one after another, each with everything that it imports, directly or through
others. What is in the graph already is passed over. Gives the failure that has ended this, if there has
been one. -/
def visitAll : (imports : List Specifier) → (p : Progress U) →
    { out : Option LoadError × Progress U // out.1 = none →
      (unread (entry :: l.known) out.2.graph).length ≤ (unread (entry :: l.known) p.graph).length }
  | [], p => ⟨(none, p), fun _ => Nat.le_refl _⟩
  | s :: more, p =>
    if _fresh : p.graph.contains s then visitAll more p
    else
      match _loaded : l.load engine entry given s p with
      | (.error e, p₁) => ⟨(some e, p₁), fun same => nomatch same⟩
      | (.ok imports, p₁) =>
        match visitAll imports p₁ with
        | ⟨(some e, p₂), _⟩ => ⟨(some e, p₂), fun same => nomatch same⟩
        | ⟨(none, p₂), fewer⟩ =>
          have still : (unread (entry :: l.known) (p₂.finish s).graph).length ≤
              (unread (entry :: l.known) p.graph).length := by
            rw [unread_finish]
            exact Nat.le_trans (fewer rfl) (Nat.le_of_lt (length_unread_load _fresh _loaded))
          have rest := visitAll more (p₂.finish s)
          ⟨rest.1, fun same => Nat.le_trans (rest.2 same) still⟩
termination_by imports p => ((unread (entry :: l.known) p.graph).length, imports.length)
decreasing_by
  · exact Prod.Lex.right _ (by simp)
  · exact Prod.Lex.left _ _ (length_unread_load _fresh _loaded)
  · rcases Nat.lt_or_eq_of_le still with fewer | same
    · exact Prod.Lex.left _ _ fewer
    · rw [same]
      exact Prod.Lex.right _ (by simp)

/-- What linking some modules one after another comes to. -/
def result : Option LoadError × Progress U → Except LoadError (Linked U)
  | (some e, _) => .error e
  | (none, p) => .ok ⟨p.graph, p.work⟩

/-- What linking one module after another comes to, and the modules that have been read on the way. -/
def linkAll : Except LoadError (Linked U) × List Specifier :=
  let visited := (l.visitAll engine entry given [entry] ⟨.empty entry, []⟩).1
  (result visited, readings visited.2.work)

variable {l engine entry given} {s : Specifier} {more imports : List Specifier}
  {p p' : Progress U} {e : LoadError}

theorem visitAll_nil (p : Progress U) : (l.visitAll engine entry given [] p).1 = (none, p) := by
  rw [visitAll]

/-- What is in the graph is passed over. -/
theorem visitAll_of_contains (mem : p.graph.contains s = true) (more : List Specifier) :
    (l.visitAll engine entry given (s :: more) p).1 = (l.visitAll engine entry given more p).1 := by
  rw [visitAll, dif_pos mem]

/-- A module that cannot be loaded ends everything. -/
theorem visitAll_of_error (fresh : ¬ p.graph.contains s = true)
    (loaded : l.load engine entry given s p = (.error e, p')) (more : List Specifier) :
    (l.visitAll engine entry given (s :: more) p).1 = (some e, p') := by
  rw [visitAll, dif_neg fresh]
  split
  case h_1 loaded' =>
    rw [loaded] at loaded'
    cases loaded'
    rfl
  case h_2 loaded' =>
    rw [loaded] at loaded'
    cases loaded'

/-- A module that has been loaded is linked when what it imports is, and then the next one follows. -/
theorem visitAll_of_ok (fresh : ¬ p.graph.contains s = true)
    (loaded : l.load engine entry given s p = (.ok imports, p')) (more : List Specifier) :
    (l.visitAll engine entry given (s :: more) p).1 =
      match (l.visitAll engine entry given imports p').1 with
      | (some e, p₂) => (some e, p₂)
      | (none, p₂) => (l.visitAll engine entry given more (p₂.finish s)).1 := by
  rw [visitAll, dif_neg fresh]
  split
  case h_1 loaded' =>
    rw [loaded] at loaded'
    cases loaded'
  case h_2 loaded' =>
    rw [loaded] at loaded'
    cases loaded'
    split
    case h_1 below => rw [below]
    case h_2 below => rw [below]

end Sources

end ModuleLinker.Link
