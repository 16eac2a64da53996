import Mathlib
import ModuleLinker.Proofs.Link.Hopeful
import ModuleLinker.Proofs.Link.Ledger

/-!
# Accounting

Nothing is done twice in a run, at any point of it and however it ends. When everything is linked, the
counts of a run can be read off its graph, and they say how often the host was asked.
-/

set_option autoImplicit false

namespace ModuleLinker.Link

variable {U V : Type}

/-- Whether the server is asked for a module. -/
def Work.isGet : Work → Bool
  | get _ => true
  | _ => false

/-! ## Counting module by module -/

/-- One among different things counts once. -/
theorem sum_map_ite_of_mem {α : Type} [DecidableEq α] {l : List α} (unique : l.Nodup) {a : α}
    (mem : a ∈ l) (n : Nat) : (l.map fun b => if a = b then n else 0).sum = n := by
  induction l with
  | nil => cases mem
  | cons b l ih =>
    obtain ⟨fresh, unique⟩ := List.nodup_cons.mp unique
    rw [List.map_cons, List.sum_cons]
    by_cases same : a = b
    · subst same
      have none : (l.map fun b => if a = b then n else 0).sum = 0 := by
        rw [List.sum_eq_zero]
        intro m listed
        obtain ⟨b', mem, rfl⟩ := List.mem_map.mp listed
        have apart : a ≠ b' := by
          rintro rfl
          exact fresh mem
        exact if_neg apart
      rw [none, if_pos rfl, Nat.add_zero]
    · rw [ih unique ((List.mem_cons.mp mem).resolve_left same), if_neg same, Nat.zero_add]

/-- Things with a property can be counted one by one. -/
theorem sum_map_toNat {α : Type} (p : α → Bool) (l : List α) :
    (l.map fun a => (p a).toNat).sum = l.countP p := by
  induction l with
  | nil => rfl
  | cons a l ih =>
    rw [List.map_cons, List.sum_cons, ih, List.countP_cons, Nat.add_comm]
    cases p a <;> rfl

/-- Work can be counted module by module. -/
theorem countP_eq_sum {work : List Work} {modules : List Specifier} (unique : modules.Nodup)
    (known : ∀ w ∈ work, w.specifier ∈ modules) (p : Work → Bool) :
    work.countP p = (modules.map fun s => (workFor work s).countP p).sum := by
  induction work with
  | nil => simp [workFor]
  | cons w work ih =>
    have first (s : Specifier) : (workFor (w :: work) s).countP p =
        (workFor work s).countP p + if w.specifier = s then (p w).toNat else 0 := by
      unfold workFor
      by_cases same : w.specifier = s
      · cases here : p w <;> simp [same, here]
      · simp [same]
    rw [List.forall_mem_cons] at known
    simp only [first, List.sum_map_add]
    rw [← ih known.2, sum_map_ite_of_mem unique known.1]
    cases here : p w <;> simp [here]

/-! ## The work for a module that has been loaded -/

/-- The work of getting a source comes to one read, one hit or one fetch, and the host sees a read or a
request accordingly. -/
theorem Route.counts {events : List Event} {s : Specifier} {log seen : List Work} {source : String}
    (h : Route events s log seen (.ok source)) :
    log.countP (·.isRead) + log.countP (·.isHit) + log.countP (·.isFetch) = 1 ∧
      log.countP (·.isTranspile) = 0 ∧ log.countP (·.isCompiled) = 0 ∧
      log.countP (·.isRead) = seen.countP (·.isRead) ∧
      log.countP (·.isFetch) = log.countP (·.isGet) ∧
      log.countP (·.isGet) = seen.countP (·.isGet) := by
  cases h <;> exact ⟨rfl, rfl, rfl, rfl, rfl, rfl⟩

/-- The work of building a record comes to one compilation, after types have been erased where that is
needed. -/
theorem build_counts {engine : Engine U V} {s : Specifier} {isEntry : Bool} {raw : String}
    {r : Record U} (built : (build engine s isEntry raw).1 = .ok r) :
    (build engine s isEntry raw).2.countP (·.isRead) = 0 ∧
      (build engine s isEntry raw).2.countP (·.isHit) = 0 ∧
      (build engine s isEntry raw).2.countP (·.isFetch) = 0 ∧
      (build engine s isEntry raw).2.countP (·.isGet) = 0 ∧
      (build engine s isEntry raw).2.countP (·.isTranspile) =
        (decide (s.media = .typeScript ∨ s.media = .dts)).toNat ∧
      (build engine s isEntry raw).2.countP (·.isCompiled) = 1 := by
  have made := (build_spec built).2.2.2.2.2.2.1
  have transpiled : s.media.needsTranspile =
      decide (s.media = .typeScript ∨ s.media = .dts) := by
    unfold executable at made
    generalize s.media = media at made
    cases media with
    | jsx => cases made
    | tsx => cases made
    | _ => rfl
  rw [(build_work engine s isEntry raw).2 r built, transpiled]
  split
  case isTrue types => rw [types]; exact ⟨rfl, rfl, rfl, rfl, rfl, rfl⟩
  case isFalse plain => rw [Bool.eq_false_iff.mpr plain]; exact ⟨rfl, rfl, rfl, rfl, rfl, rfl⟩

/-- The work for a module that has been loaded is that of getting its source and of building its
record. -/
theorem Logged.loaded {engine : Engine U V} {isEntry : Bool} {events : List Event} {s : Specifier}
    {log seen : List Work} (h : Logged engine isEntry events s .loaded log seen) :
    ∃ route source r, Route events s route seen (.ok source) ∧
      (build engine s isEntry source).1 = .ok r ∧
      log = route ++ (build engine s isEntry source).2 := by
  cases h with
  | @ended _ route _ answer found same =>
    cases answer with
    | error e => cases same
    | ok source =>
      rw [outcome_ok] at same ⊢
      cases built : (build engine s isEntry source).1 with
      | error e =>
        rw [built] at same
        cases same
      | ok r => exact ⟨route, source, r, found, built, rfl⟩

namespace Run

variable {engine : Engine U V} {entry : Specifier} {given : Option String} {cap : Nat}
  {events : List Event} {run : Run U}

/-- What the counts of one module come to: its source is given or has been got in one way, it has been
compiled once, and its types have been erased where it has any. -/
structure Counted (given : Bool) (r : Record U) (log seen : List Work) : Prop where
  got : log.countP (·.isRead) + log.countP (·.isHit) + log.countP (·.isFetch) + given.toNat = 1
  compiled : log.countP (·.isCompiled) = 1
  transpiled : log.countP (·.isTranspile) =
    (decide (r.media = .typeScript ∨ r.media = .dts)).toNat
  reads : log.countP (·.isRead) = seen.countP (·.isRead)
  fetches : log.countP (·.isFetch) = log.countP (·.isGet)
  gets : log.countP (·.isGet) = seen.countP (·.isGet)

/-- The counts of every record of a run without failures. -/
theorem Ledger.counted (h : run.Ledger engine entry given events)
    (sound : run.Sound engine entry given events) {r : Record U} (mem : r ∈ run.graph.records) :
    Counted (given.isSome && decide (r.specifier = entry)) r (workFor run.work r.specifier)
      (workFor (accesses events) r.specifier) := by
  obtain ⟨raw, sourced, built⟩ := sound.built r mem
  have media : r.media = r.specifier.media := (build_spec built).2.2.2.1
  rcases sound.known r.specifier (Graph.mem_keys.mpr ⟨r, mem, rfl⟩) with loaded | ⟨root, some⟩
  · have other : (given.isSome && decide (r.specifier = entry)) = false := by
      rw [Bool.and_eq_false_iff, decide_eq_false_iff_not, ← Bool.not_eq_true]
      by_contra both
      rw [not_or, not_not, not_not] at both
      rw [both.2, sound.unloaded both.1] at loaded
      cases loaded
    obtain ⟨route, source, r', found, built, log⟩ := (h.begun _ _ loaded).loaded
    obtain ⟨got, types, compiled, reads, fetches, gets⟩ := found.counts
    obtain ⟨noReads, noHits, noFetches, noGets, transpiled, once⟩ := build_counts built
    rw [other]
    constructor <;> rw [log]
    case got => simp only [List.countP_append, Bool.toNat_false]; omega
    case compiled => rw [List.countP_append]; omega
    case transpiled => rw [List.countP_append, types, transpiled, media, Nat.zero_add]
    case reads => rw [List.countP_append]; omega
    case fetches => simp only [List.countP_append]; omega
    case gets => rw [List.countP_append]; omega
  · -- The source of the entry is given: its record is built from it, and nothing else is done.
    obtain ⟨source, rfl⟩ := Option.isSome_iff_exists.mp some
    obtain ⟨seen, work⟩ := h.unbegun r.specifier (root ▸ sound.unloaded some)
    have same : raw = source := by
      rcases sourced with ⟨-, same⟩ | ⟨other, -⟩
      · exact (Option.some.inj same).symm
      · cases other root
    subst same
    obtain ⟨noReads, noHits, noFetches, noGets, transpiled, once⟩ := build_counts built
    have given : (Option.isSome (Option.some raw) && decide (r.specifier = entry)) = true := by
      simp [root]
    have log : workFor run.work r.specifier =
        (build engine r.specifier (r.specifier == entry) raw).2 := work.trans (if_pos root)
    rw [given, log, seen]
    refine ⟨?_, once, ?_, noReads, noFetches.trans noGets.symm, noGets⟩
    · rw [noReads, noHits, noFetches]
      rfl
    · rw [transpiled, media]

/-- In a run in which everything is linked, nothing has been done but for modules with records. -/
theorem mem_keys_of_succeeded (reached : Reached engine entry given cap events run)
    (succeeded : run.Succeeded) (s : Specifier) (other : s ∉ run.graph.keys) :
    workFor run.work s = [] ∧ workFor (accesses events) s = [] := by
  obtain ⟨going, settled⟩ := succeeded
  have kept := reached.kept
  have orderly := kept.orderly going
  have hopeful := reached.hopeful ⟨going, by rw [settled]; rfl⟩
  have none : run.phase? s = none := by
    by_contra found
    obtain ⟨phase, found⟩ := Option.ne_none_iff_exists'.mp found
    cases ended : phase.isActive with
    | true =>
      have owned := hopeful.owned s phase found ended
      rw [settled] at owned
      cases owned
    | false =>
      cases phase with
      | loaded => exact other (orderly.loaded s found)
      | failed e => exact hopeful.unfailed s e found
      | _ => cases ended
  obtain ⟨seen, work⟩ := reached.ledger.unbegun s none
  refine ⟨?_, seen⟩
  rw [work]
  unfold givenWork
  split
  case h_1 source =>
    refine if_neg ?_
    rintro rfl
    exact other (orderly.given rfl)
  case h_2 => rfl

/-- Counting work record by record. -/
theorem countP_eq_sum_records (unique : run.graph.keys.Nodup) {work : List Work}
    (known : ∀ s, s ∉ run.graph.keys → workFor work s = []) (p : Work → Bool) :
    work.countP p = (run.graph.records.map fun r => (workFor work r.specifier).countP p).sum := by
  have mem (w : Work) (mem : w ∈ work) : w.specifier ∈ run.graph.keys := by
    by_contra other
    have here : w ∈ workFor work w.specifier := List.mem_filter.mpr ⟨mem, beq_iff_eq.mpr rfl⟩
    rw [known w.specifier other] at here
    cases here
  rw [countP_eq_sum unique mem p, Graph.keys, List.map_map]
  rfl

/-- The number of records whose source was given. -/
theorem sum_given (unique : run.graph.keys.Nodup)
    (root : given.isSome = true → entry ∈ run.graph.keys) :
    (run.graph.records.map fun r => (given.isSome && decide (r.specifier = entry)).toNat).sum =
      given.isSome.toNat := by
  cases given with
  | none => simp
  | some source =>
    have one := sum_map_ite_of_mem unique (root rfl) 1
    rw [Graph.keys, List.map_map] at one
    refine Eq.trans (congrArg List.sum ?_) one
    refine List.map_congr_left fun r _ => ?_
    by_cases same : r.specifier = entry
    · simp [same]
    · simp [same, Ne.symm same]

/-- Nothing is done twice for a module, whatever has become of the run: neither is it read, looked up,
requested, transpiled or compiled twice, nor does the host see it read, looked up or requested twice.
When everything is linked, every record has been got in one way unless its source was given, and has
been compiled once; the types of those that have any have been erased; and the counts of reads and of
fetches are those of the accesses that the host has seen. -/
theorem once_and_accounted (reached : Reached engine entry given cap events run) :
    (∀ work, run.work.count work ≤ 1 ∧ (accesses events).count work ≤ 1) ∧
      (run.Succeeded →
        let counts := Counts.ofWork run.work
        (given = none →
          counts.localReads + counts.cacheHits + counts.fetches = run.graph.size) ∧
        (given ≠ none →
          counts.localReads + counts.cacheHits + counts.fetches + 1 = run.graph.size) ∧
        counts.compiled = run.graph.size ∧
        counts.transpiles =
          run.graph.records.countP (fun r => r.media = .typeScript ∨ r.media = .dts) ∧
        counts.localReads = (accesses events).countP (·.isRead) ∧
        counts.fetches = run.work.countP (·.isGet) ∧
        counts.fetches = (accesses events).countP (·.isGet)) := by
  have ledger := reached.ledger
  constructor
  · intro work
    exact ⟨count_le_one_of_workFor (fun s => (ledger.nodup s).1) work,
      count_le_one_of_workFor (fun s => (ledger.nodup s).2) work⟩
  · intro succeeded
    have sound := reached.kept.sound
    have counted := fun r mem => ledger.counted (r := r) sound mem
    have work := countP_eq_sum_records sound.unique
      fun s other => (mem_keys_of_succeeded reached succeeded s other).1
    have seen := countP_eq_sum_records sound.unique
      fun s other => (mem_keys_of_succeeded reached succeeded s other).2
    have got : run.work.countP (·.isRead) + run.work.countP (·.isHit) +
        run.work.countP (·.isFetch) + given.isSome.toNat = run.graph.size := by
      rw [work, work, work, ← sum_given sound.unique (reached.kept.orderly succeeded.1).given,
        ← List.sum_map_add, ← List.sum_map_add, ← List.sum_map_add,
        List.map_congr_left fun r mem => (counted r mem).got]
      simp [Graph.size]
    intro counts
    have fetches : counts.fetches = run.work.countP (·.isGet) := by
      show run.work.countP (·.isFetch) = _
      rw [work, work, List.map_congr_left fun r mem => (counted r mem).fetches]
    refine ⟨?_, ?_, ?_, ?_, ?_, fetches, ?_⟩
    · rintro rfl
      exact got
    · intro some
      rw [← got, Option.isSome_iff_ne_none.mpr some]
      rfl
    · show run.work.countP (·.isCompiled) = _
      rw [work, List.map_congr_left fun r mem => (counted r mem).compiled]
      simp [Graph.size]
    · show run.work.countP (·.isTranspile) = _
      rw [work, List.map_congr_left fun r mem => (counted r mem).transpiled]
      exact sum_map_toNat (fun r : Record U => decide (r.media = .typeScript ∨ r.media = .dts)) _
    · show run.work.countP (·.isRead) = _
      rw [work, seen, List.map_congr_left fun r mem => (counted r mem).reads]
    · rw [fetches, work, seen, List.map_congr_left fun r mem => (counted r mem).gets]

/-- The accounts of the run in which two modules that import each other are linked: one is given, and
the other is read. -/
theorem once_and_accounted_cycleRun :
    Reached Engine.inspector (rootModule "a.js") (some "import './b.js';") 1
        [.start, .read (rootModule "b.js") (.ok "import './a.js';"), .start] cycleRun ∧
      cycleRun.Succeeded ∧ (Counts.ofWork cycleRun.work).localReads = 1 ∧
      (Counts.ofWork cycleRun.work).compiled = 2 ∧ cycleRun.graph.size = 2 := by
  have accounts := (once_and_accounted reached_cycleRun).2 succeeded_cycleRun
  have two : cycleRun.graph.size = 2 := by decide +kernel
  refine ⟨reached_cycleRun, succeeded_cycleRun, ?_, ?_, two⟩
  · rw [accounts.2.2.2.2.1]
    decide
  · rw [accounts.2.2.1, two]

end Run

end ModuleLinker.Link
