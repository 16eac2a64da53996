import ModuleLinker.Link.Memory
import ModuleLinker.Proofs.Graph.Same
import ModuleLinker.Proofs.Link.Accounting
import ModuleLinker.Proofs.Link.Halt
import ModuleLinker.Proofs.Link.Steady

/-!
# Runs that differ in their timing

Whether a run links everything, and what it links then, depends on what files, servers and the cache
answer, but neither on when replies arrive nor on the number of fetches at a time nor on the order of
events (`Host.independent_of_schedule`). A run that does not link everything fails, unless it starves.
-/

set_option autoImplicit false

namespace ModuleLinker.Link

open Files Cache

variable {U V : Type}

/-- The same answers make for the same way to the source of a module. -/
theorem Route.unique {a : Answers} {events events' : List Event} {s : Specifier}
    {log seen log' seen' : List Work} {source source' : String}
    (gives : ∀ event ∈ events, a.Gives event) (gives' : ∀ event ∈ events', a.Gives event)
    (h : Route events s log seen (.ok source)) (h' : Route events' s log' seen' (.ok source')) :
    log = log' := by
  cases h with
  | read isLocal =>
    cases h' with
    | read => rfl
    | hit isRemote => rw [isLocal] at isRemote; cases isRemote
    | fetch isRemote => rw [isLocal] at isRemote; cases isRemote
  | hit isRemote found =>
    have found : .ok (some source) = a.lookUp s := gives _ found
    cases h' with
    | read isLocal => rw [isLocal] at isRemote; cases isRemote
    | hit => rfl
    | fetch _ missed =>
      have missed : .ok none = a.lookUp s := gives' _ missed
      rw [← found] at missed
      cases missed
  | fetch isRemote missed =>
    have missed : .ok none = a.lookUp s := gives _ missed
    cases h' with
    | read isLocal => rw [isLocal] at isRemote; cases isRemote
    | hit _ found =>
      have found : .ok (some _) = a.lookUp s := gives' _ found
      rw [← missed] at found
      cases found
    | fetch => rfl

/-- Work that is the same for every module is counted alike. -/
theorem Counts.ofWork_congr {work work' : List Work}
    (same : ∀ s, workFor work s = workFor work' s) : Counts.ofWork work = Counts.ofWork work' := by
  have perm : work.Perm work' := by
    rw [List.perm_iff_count]
    intro w
    have count (work : List Work) : work.count w = (workFor work w.specifier).count w := by
      rw [workFor, List.count_filter (by simp)]
    rw [count work, count work', same]
  unfold ofWork
  simp only [perm.countP_eq]

namespace Run

variable {a : Answers} {engine : Engine U V} {entry : Specifier} {given : Option String}
  {cap cap' : Nat} {events events' : List Event} {run run' : Run U} {s : Specifier}

/-- A run that has linked everything has linked what its entry needs. -/
theorem mem_keys_iff_needs (reached : Reached engine entry given cap events run)
    (succeeded : run.Succeeded) (gives : ∀ event ∈ events, a.Gives event) :
    s ∈ run.graph.keys ↔ a.Needs engine entry given s := by
  have answered := reached.answered gives
  have sound := reached.kept.sound
  have hopeful := reached.hopeful succeeded.calm
  have settled := reached.settled succeeded
  constructor
  · exact fun mem => answered.needs sound hopeful (.inl mem)
  · intro needs
    induction needs with
    | refl => exact (settled.needs entry).mpr (settled.root ▸ .refl)
    | tail _ imported ih =>
      obtain ⟨r, imports, loads, mem⟩ := imported
      obtain ⟨r', mem', rfl⟩ := Graph.mem_keys.mp ih
      obtain ⟨-, rfl⟩ := loads.unique (answered.loads sound hopeful mem')
      exact settled.closed _ _ ⟨r', mem', rfl, mem⟩

/-- A run can only link everything if all modules that its entry needs can be loaded. -/
theorem complete_of_succeeded (reached : Reached engine entry given cap events run)
    (succeeded : run.Succeeded) (gives : ∀ event ∈ events, a.Gives event) :
    a.Complete engine entry given := by
  intro s needs
  obtain ⟨r, mem, rfl⟩ :=
    Graph.mem_keys.mp ((mem_keys_iff_needs reached succeeded gives).mpr needs)
  exact ⟨_, _, (reached.answered gives).loads reached.kept.sound (reached.hopeful succeeded.calm) mem⟩

/-- There is a permit even if no fetches are allowed at a time. -/
theorem begin_max (engine : Engine U V) (entry : Specifier) (given : Option String) (cap : Nat) :
    begin engine entry given (max cap 1) = begin engine entry given cap := by
  have permits : (Permits.ofCap (max cap 1) : Permits Specifier) = Permits.ofCap cap := by
    unfold Permits.ofCap
    rw [Nat.max_eq_left (Nat.le_max_right cap 1)]
  have same : (initial entry (max cap 1) : Run U) = initial entry cap := by
    unfold initial
    rw [permits]
  unfold begin
  rw [same]

/-- The records of a run that has linked everything are those of any other one with answers that agree. -/
theorem mem_records_of_answers {a' : Answers} (agrees : a.Agrees a' engine entry given)
    (reached : Reached engine entry given cap events run) (succeeded : run.Succeeded)
    (gives : ∀ event ∈ events, a.Gives event)
    (reached' : Reached engine entry given cap' events' run') (succeeded' : run'.Succeeded)
    (gives' : ∀ event ∈ events', a'.Gives event) {r : Record U} (mem : r ∈ run.graph.records) :
    r ∈ run'.graph.records := by
  have needs := (mem_keys_iff_needs reached succeeded gives).mp (Graph.mem_keys.mpr ⟨r, mem, rfl⟩)
  obtain ⟨r', mem', same⟩ := Graph.mem_keys.mp
    ((mem_keys_iff_needs reached' succeeded' gives').mpr (agrees.needs_iff.mpr needs))
  have loads := (reached.answered gives).loads reached.kept.sound
    (reached.hopeful succeeded.calm) mem
  have loads' := (reached'.answered gives').loads reached'.kept.sound
    (reached'.hopeful succeeded'.calm) mem'
  rw [same] at loads'
  obtain ⟨fresh, imports⟩ := loads.unique ((agrees.loads_iff needs).mp loads')
  have linked := (reached.settled succeeded).linked r mem
  have linked' := (reached'.settled succeeded').linked r' mem'
  have whole (r : Record U) (linked : r.state = .linked) :
      r = { r.fresh with state := .linked, dependencies := r.dependencies } := by
    rw [← linked]
    rfl
  rw [whole r linked, fresh, imports, ← whole r' linked']
  exact mem'

/-- Two runs that have linked everything, with answers that agree, have linked the same. -/
theorem same_of_answers {a' : Answers} (agrees : a.Agrees a' engine entry given)
    (written : entry.IsWritten) (reached : Reached engine entry given cap events run)
    (succeeded : run.Succeeded) (gives : ∀ event ∈ events, a.Gives event)
    (reached' : Reached engine entry given cap' events' run') (succeeded' : run'.Succeeded)
    (gives' : ∀ event ∈ events', a'.Gives event) : run.graph.Same run'.graph := by
  have apart : ∀ s ∈ run.graph.keys, ∀ t ∈ run.graph.keys, s.text = t.text → s = t := by
    intro s mem t mem' same
    have needs := (mem_keys_iff_needs reached succeeded gives).mp mem
    have needs' := (mem_keys_iff_needs reached succeeded gives).mp mem'
    exact Specifier.text_injective (needs.isWritten written) (needs'.isWritten written) same
  refine Graph.same_of_mem_iff (reached.kept.sound.root.trans reached'.kept.sound.root.symm)
    reached.kept.sound.unique reached'.kept.sound.unique apart fun r => ⟨?_, ?_⟩
  · exact mem_records_of_answers agrees reached succeeded gives reached' succeeded' gives'
  · exact mem_records_of_answers agrees.symm reached' succeeded' gives' reached succeeded gives

section TwoRuns

variable (reached : Reached engine entry given cap events run) (succeeded : run.Succeeded)
  (gives : ∀ event ∈ events, a.Gives event) (reached' : Reached engine entry given cap' events' run')
  (succeeded' : run'.Succeeded) (gives' : ∀ event ∈ events', a.Gives event)

include reached succeeded gives reached' succeeded' gives'

/-- The work for a module of a run that has linked everything is that of any other one with the same
answers. -/
theorem workFor_eq_of_answers (s : Specifier) : workFor run.work s = workFor run'.work s := by
  have keys : s ∈ run.graph.keys ↔ s ∈ run'.graph.keys :=
    (mem_keys_iff_needs reached succeeded gives).trans
      (mem_keys_iff_needs reached' succeeded' gives').symm
  have sound := reached.kept.sound
  have sound' := reached'.kept.sound
  by_cases mem : s ∈ run.graph.keys
  · rcases sound.known s mem with loaded | ⟨rfl, some⟩
    · rcases sound'.known s (keys.mp mem) with loaded' | ⟨rfl, some⟩
      · obtain ⟨route, source, r, way, built, log⟩ := (reached.ledger.begun s _ loaded).loaded
        obtain ⟨route', source', r', way', built', log'⟩ := (reached'.ledger.begun s _ loaded').loaded
        rw [log, log', way.unique gives gives' way', (build_work ..).2 r built,
          (build_work ..).2 r' built']
      · rw [sound.unloaded some] at loaded
        cases loaded
    · rw [(reached.ledger.unbegun s (sound.unloaded some)).2,
        (reached'.ledger.unbegun s (sound'.unloaded some)).2]
  · rw [(mem_keys_of_succeeded reached succeeded s mem).1,
      (mem_keys_of_succeeded reached' succeeded' s (mt keys.mpr mem)).1]

end TwoRuns

end Run

namespace Host

/-- Two hosts that differ in the delays of replies, in the number of fetches at a time and in when local
modules are read: both have the same local modules and the same cache, and what arrives before the
deadline of a fetch does so on both. -/
structure Alike (files : Specifier → Except LoadError String) (host host' : Host (StateM Volume)) :
    Prop where
  reads : ∀ s, host.read s = pure (files s)
  reads' : ∀ s, host'.read s = pure (files s)
  cache : host'.cache = host.cache
  timeout : host'.timeout = host.timeout
  arrives : ∀ s, (host'.reply s).arrives? host.timeout = (host.reply s).arrives? host.timeout

variable {files : Specifier → Except LoadError String} {host host' : Host (StateM Volume)}
  {engine : Engine U V} {entry : Specifier} {given : Option String} {root : List String}
  {v w w' : Volume} {events events' : List Event} {run run' : Run U}

theorem Alike.symm (h : Alike files host host') : Alike files host' host :=
  ⟨h.reads', h.reads, h.cache.symm, h.timeout.symm, fun s => h.timeout ▸ (h.arrives s).symm⟩

/-- Such hosts answer alike. -/
theorem Alike.answers_eq (h : Alike files host host') (root : List String) (v : Volume) :
    host'.answers files root v = host.answers files root v := by
  simp only [answers, Reply.settled, h.cache, h.arrives, h.timeout]

/-- A run on a host that has come to its end has linked everything exactly if all modules that its entry
needs can be loaded. -/
theorem succeeded_iff_complete (reads : ∀ s, host.read s = pure (files s))
    (opened : host.cache.IsOpen root v) (written : entry.IsWritten)
    (reached : Reached engine host entry given v events run w) (ended : Ended engine host run w) :
    run.Succeeded ↔ (host.answers files root v).Complete engine entry given := by
  constructor
  · intro succeeded
    have informed := reached.informed succeeded.calm written opened reads
    exact Run.complete_of_succeeded reached.toReached succeeded informed.gives
  · intro complete
    have calm := reached.calm written opened reads complete
    have kept := reached.toReached.kept
    rcases (ended_iff kept).mp ended with failed | settled | starved
    · exact absurd calm.1 failed
    · exact ⟨calm.1, settled⟩
    · exact absurd starved (calm.not_starved kept (reached.toReached.hopeful calm))

/-- Runs that have linked everything, on hosts that answer alike, have linked the same and count
alike. -/
theorem Alike.same (alike : Alike files host host') (opened : host.cache.IsOpen root v)
    (written : entry.IsWritten) (reached : Reached engine host entry given v events run w)
    (succeeded : run.Succeeded) (reached' : Reached engine host' entry given v events' run' w')
    (succeeded' : run'.Succeeded) :
    run.graph.Same run'.graph ∧ Counts.ofWork run.work = Counts.ofWork run'.work := by
  have gives := (reached.informed succeeded.calm written opened alike.reads).gives
  have gives' : ∀ event ∈ events', (host.answers files root v).Gives event := by
    rw [← alike.answers_eq root v]
    exact (reached'.informed succeeded'.calm written (alike.cache ▸ opened) alike.reads').gives
  have one := reached.toReached
  have two := reached'.toReached
  exact ⟨Run.same_of_answers (.refl _ engine entry given) written one succeeded gives two succeeded'
    gives', Counts.ofWork_congr
      (Run.workFor_eq_of_answers one succeeded gives two succeeded' gives')⟩

/-- Two runs for an entry, on hosts that differ in their timing only, that have come to their end: either
of them has linked everything exactly if all modules that the entry needs can be loaded, and then they
have linked the same and count alike. Both fail or both link everything, exactly unless one of them
starves, which takes a permit that has been lost. -/
theorem independent_of_schedule (alike : Alike files host host') (opened : host.cache.IsOpen root v)
    (written : entry.IsWritten) (reached : Reached engine host entry given v events run w)
    (ended : Ended engine host run w)
    (reached' : Reached engine host' entry given v events' run' w')
    (ended' : Ended engine host' run' w') :
    (run.Succeeded ↔ (host.answers files root v).Complete engine entry given) ∧
      (run'.Succeeded ↔ (host.answers files root v).Complete engine entry given) ∧
      (run.Succeeded → run.graph.Same run'.graph ∧
        Counts.ofWork run.work = Counts.ofWork run'.work) ∧
      ((run.failure ≠ none ∧ run'.failure ≠ none ∨ run.Succeeded ∧ run'.Succeeded) ↔
        ¬ run.Starved ∧ ¬ run'.Starved) ∧
      (run.Starved → run.LostPermit) ∧ (run'.Starved → run'.LostPermit) := by
  have one := reached.toReached
  have two := reached'.toReached
  have first := succeeded_iff_complete alike.reads opened written reached ended
  have second := succeeded_iff_complete alike.reads' (alike.cache ▸ opened) written reached' ended'
  rw [alike.answers_eq] at second
  have both : run.Succeeded ↔ run'.Succeeded := first.trans second.symm
  have rest {host : Host (StateM Volume)} {events : List Event} {run : Run U} {w : Volume}
      (reached : Reached engine host entry given v events run w) (ended : Ended engine host run w)
      (fed : ¬ run.Starved) (unlinked : ¬ run.Succeeded) : run.failure ≠ none := by
    intro going
    rcases (ended_iff reached.toReached.kept).mp ended with failed | settled | starved
    · exact failed going
    · exact unlinked ⟨going, settled⟩
    · exact fed starved
  refine ⟨first, second, ?_, ⟨?_, ?_⟩, ?_, ?_⟩
  · intro succeeded
    exact alike.same opened written reached succeeded reached' (both.mp succeeded)
  · rintro (⟨failed, failed'⟩ | ⟨succeeded, succeeded'⟩)
    · exact ⟨fun starved => failed starved.going, fun starved => failed' starved.going⟩
    · exact ⟨fun starved => starved.unsettled succeeded.2,
        fun starved => starved.unsettled succeeded'.2⟩
  · rintro ⟨fed, fed'⟩
    by_cases succeeded : run.Succeeded
    · exact .inr ⟨succeeded, both.mp succeeded⟩
    · exact .inl ⟨rest reached ended fed succeeded, rest reached' ended' fed' (mt both.mpr succeeded)⟩
  · exact fun starved => starved.lostPermit one.kept one.hopeful
  · exact fun starved => starved.lostPermit two.kept two.hopeful

/-! ## Two runs -/

/-- A file system with nothing but an empty cache. -/
def emptyCache : Volume :=
  ⟨[(["c"], .directory), (["c", "v1"], .directory), (["c", "tmp"], .directory)], [], .none⟩

theorem isOpen_emptyCache : Store.IsOpen ⟨"/c"⟩ ["c"] emptyCache where
  tree place name found := by
    rcases place with _ | ⟨first, _ | ⟨second, more⟩⟩
    · rfl
    · have same : first = "c" := by
        by_contra other
        refine found ?_
        simp [emptyCache, Volume.get?, List.lookup, beq_false_of_ne other]
      rw [same]
      rfl
    · have deep : (more ++ [name]).isEmpty = false := by simp
      refine absurd ?_ found
      simp [emptyCache, Volume.get?, List.lookup, deep]
  base := Volume.find_directory (by decide +kernel) (by decide +kernel) rfl
  staging := Volume.find_directory (by decide +kernel) (by decide +kernel) rfl
  names _ _ := rfl
  stagedName := rfl
  stagedPath := rfl

/-- A host with a local module that imports the entry, and with a server that is slow in some way. -/
def cycleHost (fetches : Nat) (slow : Reply) : MemoryHost where
  files := [("file:///b.js", "import './a.js';")]
  replies := [("https://h/slow.js", slow)]
  timeout := 10
  maxFetches := fetches
  cache := ⟨"/c"⟩

/-- A reply that arrives after the deadline. -/
def slowReply : Reply := .after 20 (.ok ⟨200, ""⟩)

theorem read_cycleHost (fetches : Nat) (slow : Reply) :
    (cycleHost fetches slow).read (Run.rootModule "b.js") = .ok "import './a.js';" := by
  have text : (Run.rootModule "b.js").text = "file:///b.js" := by decide +kernel
  unfold MemoryHost.read
  rw [text]
  rfl

theorem alike_cycleHost :
    Alike (cycleHost 0 .hang).read (cycleHost 0 .hang).toHost
      (cycleHost 1 slowReply).toHost where
  reads _ := rfl
  reads' _ := rfl
  cache := rfl
  timeout := rfl
  arrives s := by
    by_cases slow : s.text = "https://h/slow.js"
    · simp [MemoryHost.toHost, cycleHost, slow, slowReply, Reply.arrives?]
    · simp [MemoryHost.toHost, cycleHost, List.lookup, beq_false_of_ne slow]

/-- The run in which two modules that import each other are linked, but for some time that passes in
between. -/
def lateRun : Run Inspected :=
  let run := (Run.begin Engine.inspector (Run.rootModule "a.js") (some "import './b.js';") 1).start
  (({ run with now := max 5 run.now } : Run Inspected).readDone Engine.inspector
    (Run.rootModule "b.js") (.ok "import './a.js';")).start

theorem reached_cycleHost :
    Reached Engine.inspector (cycleHost 0 .hang).toHost (Run.rootModule "a.js")
      (some "import './b.js';") emptyCache
      [.start, .read (Run.rootModule "b.js") (.ok "import './a.js';"), .start] Run.cycleRun
      emptyCache := by
  have read : (cycleHost 0 .hang).toHost.read (Run.rootModule "b.js") emptyCache =
      (.ok "import './a.js';", emptyCache) := congrArg (·, emptyCache) (read_cycleHost 0 .hang)
  unfold Reached
  rw [← Run.begin_max]
  refine .cons (by decide +kernel) (.start (s := Run.rootModule "b.js") (by decide +kernel)) .start ?_
  refine .cons (by decide +kernel)
    (.read (s := Run.rootModule "b.js") ⟨by decide +kernel, by decide +kernel⟩) (.read read) ?_
  exact .cons (by decide +kernel) (.start (s := Run.rootModule "a.js") (by decide +kernel)) .start
    (.nil _ _)

theorem reached_lateRun :
    Reached Engine.inspector (cycleHost 1 slowReply).toHost (Run.rootModule "a.js")
      (some "import './b.js';") emptyCache
      [.start, .wait 5, .read (Run.rootModule "b.js") (.ok "import './a.js';"), .start] lateRun
      emptyCache := by
  have read : (cycleHost 1 slowReply).toHost.read (Run.rootModule "b.js") emptyCache =
      (.ok "import './a.js';", emptyCache) := congrArg (·, emptyCache) (read_cycleHost 1 slowReply)
  refine .cons (by decide +kernel) (.start (s := Run.rootModule "b.js") (by decide +kernel)) .start ?_
  refine .cons (by decide +kernel) .wait (.wait fun s since awaits => ?_) ?_
  · have awaited : (Run.begin Engine.inspector (Run.rootModule "a.js")
        (some "import './b.js';") 1).start.pending.awaited = [Run.rootModule "b.js"] := by
      decide +kernel
    have reading : (Run.begin Engine.inspector (Run.rootModule "a.js")
        (some "import './b.js';") 1).start.phase? (Run.rootModule "b.js") = some .reading := by
      decide +kernel
    obtain ⟨mem, requested⟩ := awaits
    replace mem := awaited ▸ mem
    rw [List.mem_singleton.mp mem] at requested
    have absurd := reading.symm.trans requested
    cases absurd
  refine .cons (by decide +kernel)
    (.read (s := Run.rootModule "b.js") ⟨by decide +kernel, by decide +kernel⟩) (.read read) ?_
  exact .cons (by decide +kernel) (.start (s := Run.rootModule "a.js") (by decide +kernel)) .start
    (.nil _ _)

/-- Two runs in which two modules that import each other are linked, on hosts with different limits and
different slow servers, link the same. -/
theorem independent_of_schedule_cycleRun :
    Alike (cycleHost 0 .hang).read (cycleHost 0 .hang).toHost
        (cycleHost 1 slowReply).toHost ∧
      ((cycleHost 0 .hang).toHost.answers (cycleHost 0 .hang).read ["c"] emptyCache).Complete
        Engine.inspector (Run.rootModule "a.js") (some "import './b.js';") ∧
      Run.cycleRun.graph.Same lateRun.graph ∧
      Counts.ofWork Run.cycleRun.work = Counts.ofWork lateRun.work := by
  have reached := reached_cycleHost
  have reached' := reached_lateRun
  have succeeded := Run.succeeded_cycleRun
  have succeeded' : lateRun.Succeeded := ⟨by decide +kernel, by decide +kernel⟩
  have ended : Ended Engine.inspector (cycleHost 0 .hang).toHost Run.cycleRun emptyCache :=
    (ended_iff reached.toReached.kept).mpr (.inr (.inl succeeded.2))
  have ended' : Ended Engine.inspector (cycleHost 1 slowReply).toHost lateRun emptyCache :=
    (ended_iff reached'.toReached.kept).mpr (.inr (.inl succeeded'.2))
  have written : (Run.rootModule "a.js").IsWritten :=
    ⟨Specifier.isWritten_noAuthority, ⟨rfl, by decide⟩⟩
  have all := independent_of_schedule alike_cycleHost isOpen_emptyCache written reached ended reached'
    ended'
  exact ⟨alike_cycleHost, all.1.mp succeeded, all.2.2.1 succeeded⟩

end Host

end ModuleLinker.Link
