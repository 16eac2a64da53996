import Mathlib
import ModuleLinker.Proofs.Link.Hopeful
import ModuleLinker.Proofs.Link.Imports
import ModuleLinker.Report.Tree

/-!
# The tree of a linked graph

The tree of a report goes over the modules on its own, and knows them by the texts of their specifiers.
On any report each line stands for the entry or for one import of a module that is shown in full
(`Report.length_linesFrom`). On a graph that has all that its entry needs the tree meets the modules in
the order of the walk over the graph, so that it shows each module of the report once and none is missing
(`Link.Run.showsAll_of_succeeded`).
-/

set_option autoImplicit false

namespace ModuleLinker

variable {U V : Type}

namespace Report

/-- The module that a line shows in full. -/
def Line.full? (line : Line) : Option ModuleReport :=
  match line.shown with
  | .full r => some r
  | .again _ | .missing => none

/-- Whether a line only has the mark of a module that is shown in full above. -/
def Line.isAgain (line : Line) : Bool :=
  match line.shown with
  | .again _ => true
  | .full _ | .missing => false

/-- The modules that some lines show in full. -/
def fullModules (lines : List Line) : List ModuleReport := lines.filterMap Line.full?

/-- The lines of a tree that shows all modules of a report. -/
structure ShowsAll (report : GraphReport) (lines : List Line) : Prop where
  /-- There is a line for the entry, and one for each import of a module. -/
  length : lines.length = 1 + (report.modules.map (·.dependencies.length)).sum
  /-- The modules of the report are shown in full, in their order. -/
  full : fullModules lines = report.modules
  /-- The lines without a mark name the modules of the report, in their order. -/
  unmarked : (lines.filter fun line => !line.isAgain).map (·.specifier) =
    report.modules.map (·.specifier)
  /-- The report names each module once. -/
  once : (report.modules.map (·.specifier)).Nodup
  /-- A line with a mark names a module that is shown in full above it. -/
  marked : ∀ before line after, lines = before ++ line :: after → line.isAgain = true →
    ∃ above ∈ before, above.specifier = line.specifier ∧ above.full?.isSome = true
  /-- No module is missing. -/
  found : ∀ line ∈ lines, line.shown ≠ .missing

/-! ## Lines of any report -/

theorem specifier_branches (below : String) (imports : List String) :
    (branches below imports).map (·.specifier) = imports := by
  fun_induction branches below imports with
  | case1 => rfl
  | case2 s => rfl
  | case3 s more _ ih => rw [List.map_cons, ih]

theorem length_branches (below : String) (imports : List String) :
    (branches below imports).length = imports.length := by
  rw [← List.length_map (·.specifier), specifier_branches]

variable (modules : List ModuleReport) (places : List Branch) (shown : List String)

section Next

variable {modules places shown} {place : Branch} {r : ModuleReport}
  (found : module? modules place.specifier = some r)

include found

/-- A module that has been shown in full only gets a mark. -/
theorem linesFrom_of_shown (met : shown.contains place.specifier = true) :
    linesFrom modules (place :: places) shown =
      ⟨place.lead, place.specifier, .again r⟩ :: linesFrom modules places shown := by
  rw [linesFrom]
  split
  case h_1 none => cases none.symm.trans found
  case h_2 r' found' =>
    cases found.symm.trans found'
    rw [dif_pos met]

/-- A module that has not been shown is shown in full, with its imports below. -/
theorem linesFrom_of_fresh (fresh : ¬ shown.contains place.specifier = true) :
    linesFrom modules (place :: places) shown =
      ⟨place.lead, place.specifier, .full r⟩ ::
        linesFrom modules (branches place.below r.dependencies ++ places)
          (place.specifier :: shown) := by
  rw [linesFrom]
  split
  case h_1 none => cases none.symm.trans found
  case h_2 r' found' =>
    cases found.symm.trans found'
    rw [dif_neg fresh]

end Next

/-- There is a line for each place, and one for each import of a module that is shown in full. -/
theorem length_linesFrom : (linesFrom modules places shown).length =
    places.length +
      ((fullModules (linesFrom modules places shown)).map (·.dependencies.length)).sum := by
  fun_induction linesFrom modules places shown with
  | case1 shown => rfl
  | case2 place places shown none ih =>
    rw [List.length_cons, ih, List.length_cons]
    show _ = _ + ((fullModules (linesFrom modules places shown)).map _).sum
    omega
  | case3 place places shown r found met ih =>
    rw [List.length_cons, ih, List.length_cons]
    show _ = _ + ((fullModules (linesFrom modules places shown)).map _).sum
    omega
  | case4 place places shown r found fresh ih =>
    rw [List.length_cons, ih, List.length_append, length_branches, List.length_cons]
    show _ = _ + ((r :: fullModules (linesFrom modules _ _)).map _).sum
    rw [List.map_cons, List.sum_cons]
    omega

/-- A line of a module that the report has shows that module. -/
theorem module?_of_mem_linesFrom {line : Line} (mem : line ∈ linesFrom modules places shown)
    {r : ModuleReport} (shows : line.shown = .full r ∨ line.shown = .again r) :
    module? modules line.specifier = some r := by
  fun_induction linesFrom modules places shown with
  | case1 shown => cases mem
  | case2 place places shown none ih =>
    rcases List.mem_cons.mp mem with rfl | mem
    · rcases shows with same | same <;> cases same
    · exact ih mem
  | case3 place places shown r' found met ih =>
    rcases List.mem_cons.mp mem with rfl | mem
    · rcases shows with same | same <;> cases same
      exact found
    · exact ih mem
  | case4 place places shown r' found fresh ih =>
    rcases List.mem_cons.mp mem with rfl | mem
    · rcases shows with same | same <;> cases same
      exact found
    · exact ih mem

/-- A module that only gets a mark has been shown in full, or is shown in full above. -/
theorem exists_full_above {before after : List Line} {line : Line}
    (split : linesFrom modules places shown = before ++ line :: after)
    (again : line.isAgain = true) :
    line.specifier ∈ shown ∨ ∃ above ∈ before, above.specifier = line.specifier ∧
      above.full?.isSome = true := by
  fun_induction linesFrom modules places shown generalizing before with
  | case1 shown => simp at split
  | case2 place places shown none ih =>
    cases before with
    | nil =>
      obtain rfl := (List.cons.inj split).1
      cases again
    | cons first before =>
      refine (ih (List.cons.inj split).2).imp_right ?_
      rintro ⟨above, mem, rest⟩
      exact ⟨above, List.mem_cons_of_mem first mem, rest⟩
  | case3 place places shown r found met ih =>
    cases before with
    | nil =>
      obtain rfl := (List.cons.inj split).1
      exact .inl (by simpa using met)
    | cons first before =>
      refine (ih (List.cons.inj split).2).imp_right ?_
      rintro ⟨above, mem, rest⟩
      exact ⟨above, List.mem_cons_of_mem first mem, rest⟩
  | case4 place places shown r found fresh ih =>
    cases before with
    | nil =>
      obtain rfl := (List.cons.inj split).1
      cases again
    | cons first before =>
      obtain ⟨rfl, behind⟩ := List.cons.inj split
      rcases ih behind with here | ⟨above, mem, rest⟩
      · rcases List.mem_cons.mp here with same | here
        · exact .inr ⟨_, List.mem_cons_self, same.symm, rfl⟩
        · exact .inl here
      · exact .inr ⟨above, List.mem_cons_of_mem _ mem, rest⟩

theorem shown_of_full? {line : Line} {r : ModuleReport} (full : line.full? = some r) :
    line.shown = .full r := by
  unfold Line.full? at full
  split at full
  case h_1 here =>
    cases full
    exact here
  case h_2 => cases full
  case h_3 => cases full

/-- A line that shows a module in full names it. -/
theorem specifier_of_full? {line : Line} (mem : line ∈ linesFrom modules places shown)
    {r : ModuleReport} (full : line.full? = some r) : r.specifier = line.specifier := by
  have found := module?_of_mem_linesFrom modules places shown mem (.inl (shown_of_full? full))
  simpa using List.find?_some found

/-- The lines that are not marked name the modules that are shown in full, where nothing is missing. -/
theorem specifier_unmarked {lines : List Line}
    (told : ∀ line ∈ lines, ∀ r, line.full? = some r → r.specifier = line.specifier)
    (whole : ∀ line ∈ lines, line.shown ≠ .missing) :
    (lines.filter fun line => !line.isAgain).map (·.specifier) =
      (fullModules lines).map (·.specifier) := by
  induction lines with
  | nil => rfl
  | cons line lines ih =>
    have rest := ih (fun line mem => told line (List.mem_cons_of_mem _ mem))
      fun line mem => whole line (List.mem_cons_of_mem _ mem)
    obtain ⟨lead, specifier, shown⟩ := line
    cases shown with
    | full r =>
      have same : r.specifier = specifier := told _ List.mem_cons_self r rfl
      show specifier :: (lines.filter _).map _ = r.specifier :: (fullModules lines).map _
      rw [rest, same]
    | again r => exact rest
    | missing => exact absurd rfl (whole _ List.mem_cons_self)

end Report

/-! ## Graphs with all that their entry needs -/

/-- A graph that has all that its entry needs, with one record of a module, whose modules are told apart
by their texts. -/
structure Graph.IsWhole (g : Graph U) : Prop where
  unique : g.keys.Nodup
  root : g.entry ∈ g.keys
  closed : ∀ a b, g.Imports a b → b ∈ g.keys
  apart : ∀ s ∈ g.keys, ∀ t ∈ g.keys, s.text = t.text → s = t

namespace Graph.IsWhole

open Report

variable {g : Graph U} (whole : g.IsWhole)

include whole

theorem get?_of_needs {s : Specifier} (needs : g.Needs s) : ∃ r, g.get? s = some r :=
  Option.isSome_iff_exists.mp (contains_iff.mpr (mem_keys_of_needs whole.root whole.closed needs))

/-- The report of a graph has the module of each record that the entry needs. -/
theorem module?_report {s : Specifier} {r : Record U} (needs : g.Needs s)
    (found : g.get? s = some r) : module? g.report.modules s.text = some r.report := by
  obtain ⟨mem, own⟩ := (get?_eq_some_iff whole.unique).mp found
  have keys (t : Specifier) (needs : g.Needs t) := mem_keys_of_needs whole.root whole.closed needs
  have listed : r.report ∈ g.report.modules :=
    List.mem_map.mpr ⟨r, (mem_walk_iff whole.unique).mpr ⟨mem, own ▸ needs⟩, rfl⟩
  have here : (r.report.specifier == s.text) = true := by
    rw [← own]
    exact beq_self_eq_true _
  cases met : module? g.report.modules s.text with
  | none => exact absurd here (List.find?_eq_none.mp met _ listed)
  | some told =>
    have same : told.specifier = s.text := by simpa using List.find?_some met
    obtain ⟨r', mem', rfl⟩ := List.mem_map.mp (List.mem_of_find?_eq_some met)
    obtain ⟨inside, needs'⟩ := (mem_walk_iff whole.unique).mp mem'
    have own' : r'.specifier = s := whole.apart _ (keys _ needs') _ (keys _ needs) same
    rw [List.inj_on_of_nodup_map whole.unique inside mem (own'.trans own.symm)]

/-- A module has been met exactly if its text has. -/
theorem contains_map_text {s : Specifier} {visited : List Specifier} (needs : g.Needs s)
    (met : ∀ t ∈ visited, g.Needs t) :
    (visited.map (·.text)).contains s.text = visited.contains s := by
  have keys (t : Specifier) (needs : g.Needs t) := mem_keys_of_needs whole.root whole.closed needs
  rw [Bool.eq_iff_iff, List.contains_iff_mem, List.contains_iff_mem, List.mem_map]
  constructor
  · rintro ⟨t, mem, same⟩
    rw [← whole.apart _ (keys t (met t mem)) _ (keys s needs) same]
    exact mem
  · exact fun mem => ⟨s, mem, rfl⟩

/-- The tree meets modules in the order of the walk over the graph, and none is missing. -/
theorem fullModules_linesFrom (stack visited : List Specifier) (places : List Branch)
    (same : places.map (·.specifier) = stack.map (·.text)) (next : ∀ s ∈ stack, g.Needs s)
    (met : ∀ s ∈ visited, g.Needs s) :
    fullModules (linesFrom g.report.modules places (visited.map (·.text))) =
        (g.walkFrom stack visited).map (·.report) ∧
      ∀ line ∈ linesFrom g.report.modules places (visited.map (·.text)), line.shown ≠ .missing := by
  -- The places go in step with the stack of the walk.
  fun_induction walkFrom g stack visited generalizing places with
  | case1 visited =>
    obtain rfl := List.map_eq_nil_iff.mp same
    rw [linesFrom]
    exact ⟨rfl, fun _ mem => by cases mem⟩
  | case2 s stack visited known ih =>
    obtain ⟨place, places, rfl, here, same⟩ := List.map_eq_cons_iff.mp same
    have needs := next s List.mem_cons_self
    obtain ⟨r, found⟩ := whole.get?_of_needs needs
    have told := whole.module?_report needs found
    have shown := (whole.contains_map_text needs met).trans known
    dsimp only at here
    rw [← here] at told shown
    obtain ⟨modules, none⟩ := ih places same (fun t mem => next t (List.mem_cons_of_mem s mem)) met
    rw [linesFrom_of_shown told shown]
    exact ⟨modules, List.forall_mem_cons.mpr ⟨fun missing => (by cases missing), none⟩⟩
  | case3 s stack visited fresh none ih =>
    -- Whatever the entry needs has a record.
    obtain ⟨r, found⟩ := whole.get?_of_needs (next s List.mem_cons_self)
    cases none.symm.trans found
  | case4 s stack visited fresh r found ih =>
    obtain ⟨place, places, rfl, here, same⟩ := List.map_eq_cons_iff.mp same
    have needs := next s List.mem_cons_self
    have told := whole.module?_report needs found
    have unshown : ¬ (visited.map (·.text)).contains s.text = true := by
      rw [whole.contains_map_text needs met]
      exact fresh
    dsimp only at here
    rw [← here] at told unshown
    have below : (branches place.below r.report.dependencies ++ places).map (·.specifier) =
        (r.dependencies ++ stack).map (·.text) := by
      rw [List.map_append, specifier_branches, same, List.map_append]
      rfl
    have imports (t : Specifier) (mem : t ∈ r.dependencies) : g.Needs t := by
      obtain ⟨inside, own⟩ := (get?_eq_some_iff whole.unique).mp found
      exact needs.tail ⟨r, inside, own, mem⟩
    obtain ⟨modules, none⟩ := ih _ below
      (fun t mem => (List.mem_append.mp mem).elim (imports t)
        fun mem => next t (List.mem_cons_of_mem s mem))
      (List.forall_mem_cons.mpr ⟨needs, met⟩)
    rw [linesFrom_of_fresh told unshown, here]
    refine ⟨?_, List.forall_mem_cons.mpr ⟨fun missing => (by cases missing), none⟩⟩
    rw [List.map_cons, ← modules]
    rfl

/-- No two modules of the report of a graph have one text. -/
theorem nodup_report : (g.report.modules.map (·.specifier)).Nodup := by
  have keys {r : Record U} (mem : r ∈ g.walk) : r.specifier ∈ g.keys :=
    Graph.mem_keys.mpr ⟨r, (mem_walkFrom g _ _ mem).1, rfl⟩
  have texts : g.report.modules.map (·.specifier) = (g.walk.map (·.specifier)).map (·.text) := by
    rw [report, List.map_map, List.map_map]
    rfl
  rw [texts]
  refine (nodup_specifiers_walk whole.unique).map_on fun s mem t mem' same => ?_
  obtain ⟨r, listed, rfl⟩ := List.mem_map.mp mem
  obtain ⟨r', listed', rfl⟩ := List.mem_map.mp mem'
  exact whole.apart _ (keys listed) _ (keys listed') same

/-- The tree of a graph shows the modules of its report. -/
theorem showsAll : ShowsAll g.report (treeLines g.report) := by
  obtain ⟨modules, found⟩ := whole.fullModules_linesFrom [g.entry] [] [⟨"", "", g.entry.text⟩] rfl
    (fun s mem => List.mem_singleton.mp mem ▸ .refl) fun s mem => by cases mem
  have all : fullModules (treeLines g.report) = g.report.modules := modules
  have unmarked := specifier_unmarked
    (fun line mem r full => specifier_of_full? _ _ _ mem full) found
  constructor
  case length =>
    rw [← all]
    exact length_linesFrom _ _ _
  case full => exact all
  case unmarked => exact unmarked.trans (congrArg _ modules)
  case once => exact whole.nodup_report
  case marked =>
    intro before line after split again
    exact (exists_full_above _ _ _ split again).resolve_left List.not_mem_nil
  case found => exact found

end Graph.IsWhole

/-! ## Linked graphs -/

namespace Link.Run

variable {engine : Engine U V} {entry : Specifier} {given : Option String} {cap : Nat}
  {events : List Event} {run : Run U}

/-- A run that has linked everything has a graph with all that its entry needs. -/
theorem isWhole_of_succeeded (written : entry.IsWritten)
    (reached : Reached engine entry given cap events run) (succeeded : run.Succeeded) :
    run.graph.IsWhole := by
  have settled := reached.settled succeeded
  have all (s : Specifier) (needs : run.graph.Needs s) : s.IsWritten := by
    induction needs with
    | refl => rw [settled.root]; exact written
    | tail _ imports ih =>
      obtain ⟨r, mem, rfl, dependency⟩ := imports
      exact isWritten_of_importsOf ih (settled.resolved r mem) dependency
  constructor
  case unique => exact settled.unique
  case root => exact (settled.needs _).mpr .refl
  case closed => exact settled.closed
  case apart =>
    intro s mem t mem' same
    exact Specifier.text_injective (all s ((settled.needs s).mp mem))
      (all t ((settled.needs t).mp mem')) same

end Link.Run

end ModuleLinker
