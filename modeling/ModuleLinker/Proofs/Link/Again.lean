import ModuleLinker.Proofs.Cache.Entries
import ModuleLinker.Proofs.Link.Schedule
import ModuleLinker.Proofs.Link.Turns

/-!
# Linking again

When an entry has been linked once, everything that it needs is in the cache: linking it again asks no
server for anything, whatever servers would answer by then, and links the same (`Host.link_again`). The
first run leaves the cache with the source of every remote module that it has loaded
(`Host.Reached.supplied`), so the second run is given the same sources, by another way
(`Host.agrees_of_succeeded`).
-/

set_option autoImplicit false

namespace ModuleLinker.Link

open Files Cache

variable {U V : Type}

/-! ## What the first run leaves in the cache -/

namespace Host

/-- Whether a cache has the source of every remote module that a run has loaded, or is about to have. -/
def Supplied (a : Answers) (cache : Store) (run : Run U) (w : Volume) : Prop :=
  ∀ s raw, s.isLocal = false → (run.phase? s).any Phase.isStored = true → a.source s = .ok raw →
    cache.entry w s = .ok (some raw)

variable {files : Specifier → Except LoadError String} {host host' : Host (StateM Volume)}
  {engine : Engine U V} {entry : Specifier} {given : Option String} {root : List String}
  {u v w w' : Volume} {event : Event} {events events' : List Event} {run run' next : Run U}
  {s : Specifier}

/-- What a cache has stays there in every event on a host. -/
theorem Allows.entry_eq (opened : host.cache.IsOpen root u) (reads : ∀ s, host.read s = pure (files s))
    (allows : host.Allows run u event w) {raw : String}
    (found : host.cache.entry u s = .ok (some raw)) : host.cache.entry w s = .ok (some raw) := by
  have onlyReads : host.OnlyReads := fun s v => by
    rw [reads]
    rfl
  rcases allows.puts onlyReads with ⟨-, rfl⟩ | ⟨t, -, body, outcome, -, -, -, put⟩
  · exact found
  · rcases (opened.put_entries put).2.2 s with kept | ⟨-, missed, -⟩
    · rw [kept, found]
    · rw [found] at missed
      cases missed

/-- A remote module that has a source and is not in the cache is put there in the event in which it
arrives, and one that is found there in the event in which it is loaded stays there. -/
theorem Informed.supplied (h : Informed engine host files root v entry given events run u)
    (kept : run.Kept engine entry given host.maxFetches events) (calm : run.Calm)
    (written : entry.IsWritten) (opened : host.cache.IsOpen root v)
    (reads : ∀ s, host.read s = pure (files s))
    (before : Supplied (host.answers files root v) host.cache run u)
    (occurs : run.Occurs engine event next) (allows : host.Allows run u event w) :
    Supplied (host.answers files root v) host.cache next w := by
  intro s raw isRemote stored source
  have gives := h.gives_event kept calm written opened reads occurs allows
  by_cases already : (run.phase? s).any Phase.isStored = true
  · exact allows.entry_eq h.steady.opened reads (before s raw isRemote already source)
  rcases ((occurs.goes kept calm.1).1 s).stores already stored with
    ⟨since, body, outcome, rfl, requested⟩ | ⟨old, work, answer, found, ends⟩
  · obtain ⟨-, missed⟩ := h.answered.expects s _ requested
    rw [Answers.source_of_reply isRemote missed gives.1.symm, ← gives.2 rfl] at source
    cases allows with
    | @receive _ _ _ outcome _ _ _ put =>
      cases outcome with
      | error e => cases source
      | ok _ =>
        cases source
        have apart := h.steady.apart (h.isWritten kept calm written)
          (h.isWritten kept calm written s _ requested) (by rw [requested]; rfl)
        have same := Store.get_congr apart opened h.steady.opened
        rw [answers_lookUp, ← same] at missed
        exact h.steady.opened.put_missed put missed
  · have expects := h.answered.expects s old found
    have same := expects.ends gives ends
    rw [source] at same
    cases ends with
    | read =>
      have isLocal : s.isLocal = true := expects
      rw [isRemote] at isLocal
      cases isLocal
    | unreadable => cases same
    | hit =>
      cases same
      cases allows with
      | lookUp given =>
        have entry := congrArg Prod.fst given
        rw [Store.get_apply] at given
        rw [← (Prod.mk.inj given).2]
        exact entry
    | refuse => cases same
    | store =>
      rw [found] at already
      exact absurd rfl already

/-- A run without failures leaves the cache with the sources of the remote modules it has loaded. -/
theorem Reached.supplied (h : Reached engine host entry given v events run w) (calm : run.Calm)
    (written : entry.IsWritten) (opened : host.cache.IsOpen root v)
    (reads : ∀ s, host.read s = pure (files s)) :
    Supplied (host.answers files root v) host.cache run w := by
  refine h.keeps
    (P := fun _ run w => run.Calm → Supplied (host.answers files root v) host.cache run w)
    (fun reached going occurs allows before still => ?_) (fun _ s raw _ stored => ?_) calm
  · have kept := reached.toReached.kept
    have calm := Run.calm_of_occurs kept going occurs still
    exact (reached.informed calm written opened reads).supplied kept calm written opened reads
      (before calm) occurs allows
  · cases found : (Run.begin engine entry given host.maxFetches).phase? s with
    | none =>
      rw [found] at stored
      cases stored
    | some phase =>
      rw [found, Run.phase?_begin found] at stored
      unfold Run.firstPhase at stored
      split at stored <;> cases stored

/-! ## What the second run finds there -/

/-- Whether a cache has every remote module that an entry needs. -/
def IsWarm (a : Answers) (engine : Engine U V) (entry : Specifier) (given : Option String) : Prop :=
  ∀ s, a.Needs engine entry given s → s.isLocal = false → (given.isSome = true → s ≠ entry) →
    ∃ source, a.lookUp s = .ok (some source)

section Second

variable (reads : ∀ s, host.read s = pure (files s)) (host' : Host (StateM Volume))
  (cache : host'.cache = host.cache) (opened : host.cache.IsOpen root v) (written : entry.IsWritten)
  (reached : Reached engine host entry given v events run w) (succeeded : run.Succeeded)

include reads cache opened written reached succeeded

/-- What a run that has linked everything has loaded from a server is in the cache then. -/
theorem lookUp_of_succeeded (needs : (host.answers files root v).Needs engine entry given s)
    (isRemote : s.isLocal = false) (other : given.isSome = true → s ≠ entry) :
    ∃ raw, (host.answers files root v).source s = .ok raw ∧
      (host'.answers files root w).lookUp s = .ok (some raw) := by
  have informed := reached.informed succeeded.calm written opened reads
  have mem := (Run.mem_keys_iff_needs reached.toReached succeeded informed.gives).mpr needs
  have loaded : run.phase? s = some .loaded := by
    rcases reached.toReached.kept.sound.known s mem with loaded | ⟨same, some⟩
    · exact loaded
    · exact absurd same (other some)
  obtain ⟨r, imports, raw, source, -⟩ :=
    Run.complete_of_succeeded reached.toReached succeeded informed.gives s needs
  rw [Answers.sourceIn_of_not_given other] at source
  refine ⟨raw, source, ?_⟩
  rw [answers_lookUp, cache]
  refine reached.supplied succeeded.calm written opened reads s raw isRemote ?_ source
  rw [loaded]
  rfl

/-- After a run that has linked everything, there are the same sources with another host with the same
local modules and the same cache. -/
theorem agrees_of_succeeded : (host.answers files root v).Agrees (host'.answers files root w) engine
    entry given := by
  intro s needs
  by_cases isGiven : given.isSome = true ∧ s = entry
  · obtain ⟨some, rfl⟩ := isGiven
    obtain ⟨source, rfl⟩ := Option.isSome_iff_exists.mp some
    rw [Answers.sourceIn_entry, Answers.sourceIn_entry]
  · have other : given.isSome = true → s ≠ entry := fun some same => isGiven ⟨some, same⟩
    rw [Answers.sourceIn_of_not_given other, Answers.sourceIn_of_not_given other]
    cases isLocal : s.isLocal with
    | true =>
      rw [Answers.source_of_read isLocal, Answers.source_of_read isLocal]
      simp only [answers]
    | false =>
      obtain ⟨raw, source, found⟩ := lookUp_of_succeeded reads host' cache opened written
        reached succeeded needs isLocal other
      rw [source, Answers.source_of_lookUp isLocal found]

theorem isWarm_of_succeeded : IsWarm (host'.answers files root w) engine entry given := by
  intro s needs isRemote other
  have agrees := agrees_of_succeeded reads host' cache opened written reached succeeded
  obtain ⟨raw, -, found⟩ := lookUp_of_succeeded reads host' cache opened written reached
    succeeded (agrees.needs_iff.mp needs) isRemote other
  exact ⟨raw, found⟩

end Second

/-! ## The second run -/

section Warm

variable (reads : ∀ s, host.read s = pure (files s)) (opened : host.cache.IsOpen root v)
  (written : entry.IsWritten) (warm : IsWarm (host.answers files root v) engine entry given)
  (reached : Reached engine host entry given v events run w) (calm : run.Calm)

include reads opened written warm reached calm

/-- A run that finds everything in the cache does not miss anything there. -/
theorem lookUp_ne_none_of_warm {phase : Phase} (found : run.phase? s = some phase)
    (isRemote : s.isLocal = false) : (host.answers files root v).lookUp s ≠ .ok none := by
  have kept := reached.toReached.kept
  have needs := (reached.informed calm written opened reads).needs kept calm found
  obtain ⟨source, hit⟩ := warm s needs isRemote fun some same => by
    rw [same, kept.sound.unloaded some] at found
    cases found
  rw [hit]
  intro missed
  cases missed

/-- A run that finds everything in the cache never asks a server. -/
theorem not_requested_of_warm (since : Nat) : run.phase? s ≠ some (.requested since) := by
  intro requested
  have informed := reached.informed calm written opened reads
  obtain ⟨isRemote, missed⟩ := informed.answered.expects s _ requested
  exact lookUp_ne_none_of_warm reads opened written warm reached calm requested isRemote missed

/-- A run that finds everything in the cache leaves the file system as it is. -/
theorem volume_eq_of_warm : w = v := by
  have onlyReads : host.OnlyReads := fun s v => by
    rw [reads]
    rfl
  refine reached.keeps (P := fun _ run w => run.Calm → w = v)
    (fun reached going occurs allows before still => ?_) (fun _ => rfl) calm
  have calm := Run.calm_of_occurs reached.toReached.kept going occurs still
  rcases allows.puts onlyReads with ⟨-, same⟩ | ⟨s, since, -, -, -, requested, -⟩
  · exact same.trans (before calm)
  · exact absurd requested
      (not_requested_of_warm reads opened written warm reached calm since)

/-- The way to the source of a module that a run has loaded which finds everything in the cache. -/
theorem route_of_warm {log seen : List Work} {source : String}
    (loaded : run.phase? s = some .loaded) (h : Route events s log seen (.ok source)) :
    log = if s.isLocal then [.read s] else [.lookUp s, .hit s] := by
  cases h with
  | read isLocal => rw [if_pos isLocal]
  | hit isRemote => rw [if_neg (by rw [isRemote]; exact Bool.false_ne_true)]
  | fetch isRemote lookUp =>
    have informed := reached.informed calm written opened reads
    have missed := informed.gives _ lookUp
    exact absurd missed.symm
      (lookUp_ne_none_of_warm reads opened written warm reached calm loaded isRemote)

end Warm

end Host

/-! ## The work of both runs -/

/-- Whether some work is that of a run in which is found in the cache what has been found there or
fetched by other work. -/
structure Repeats (work work' : List Work) : Prop where
  reads : work'.countP (·.isRead) = work.countP (·.isRead)
  hits : work'.countP (·.isHit) = work.countP (·.isHit) + work.countP (·.isFetch)
  fetches : work'.countP (·.isFetch) = 0
  gets : work'.countP (·.isGet) = 0
  transpiles : work'.countP (·.isTranspile) = work.countP (·.isTranspile)
  compiled : work'.countP (·.isCompiled) = work.countP (·.isCompiled)

theorem Repeats.append {work work' more more' : List Work} (h : Repeats work work')
    (h' : Repeats more more') : Repeats (work ++ more) (work' ++ more') := by
  obtain ⟨reads, hits, fetches, gets, transpiles, compiled⟩ := h
  obtain ⟨reads', hits', fetches', gets', transpiles', compiled'⟩ := h'
  constructor <;> simp only [List.countP_append] <;> omega

/-- Work is repeated if it is for each of some modules. -/
theorem Repeats.of_modules {work work' : List Work} {modules : List Specifier} (unique : modules.Nodup)
    (known : ∀ w ∈ work, w.specifier ∈ modules) (known' : ∀ w ∈ work', w.specifier ∈ modules)
    (each : ∀ s ∈ modules, Repeats (workFor work s) (workFor work' s)) : Repeats work work' := by
  have left := countP_eq_sum unique known
  have right := countP_eq_sum unique known'
  constructor
  case reads => rw [left, right, List.map_congr_left fun s mem => (each s mem).reads]
  case hits =>
    rw [left, left, right, ← List.sum_map_add, List.map_congr_left fun s mem => (each s mem).hits]
  case fetches =>
    rw [right, List.map_congr_left fun s mem => (each s mem).fetches]
    simp
  case gets =>
    rw [right, List.map_congr_left fun s mem => (each s mem).gets]
    simp
  case transpiles => rw [left, right, List.map_congr_left fun s mem => (each s mem).transpiles]
  case compiled => rw [left, right, List.map_congr_left fun s mem => (each s mem).compiled]

/-- Building a record is repeated as it is. -/
theorem repeats_build (engine : Engine U V) (s : Specifier) (isEntry : Bool) (raw : String) :
    Repeats (build engine s isEntry raw).2 (build engine s isEntry raw).2 := by
  have few := (build_work engine s isEntry raw).1
  generalize (build engine s isEntry raw).2 = work at few ⊢
  have fetches := Nat.le_zero.mp (few.countP_le (p := (·.isFetch)))
  have gets := Nat.le_zero.mp (few.countP_le (p := (·.isGet)))
  exact ⟨rfl, by rw [fetches, Nat.add_zero], fetches, gets, rfl, rfl⟩

/-- Getting a source is repeated by reading the module or by finding it in the cache. -/
theorem Route.repeats {events : List Event} {s : Specifier} {log seen : List Work} {source : String}
    (h : Route events s log seen (.ok source)) :
    Repeats log (if s.isLocal then [.read s] else [.lookUp s, .hit s]) := by
  cases h with
  | read isLocal =>
    rw [if_pos isLocal]
    exact ⟨rfl, rfl, rfl, rfl, rfl, rfl⟩
  | hit isRemote | fetch isRemote =>
    rw [if_neg (by rw [isRemote]; exact Bool.false_ne_true)]
    exact ⟨rfl, rfl, rfl, rfl, rfl, rfl⟩

/-- All work of a run that has linked everything is for modules in its graph. -/
theorem Run.specifier_mem_keys {engine : Engine U V} {entry : Specifier} {given : Option String}
    {cap : Nat} {events : List Event} {run : Run U} (reached : Reached engine entry given cap events run)
    (succeeded : run.Succeeded) {work : Work} (mem : work ∈ run.work) :
    work.specifier ∈ run.graph.keys := by
  by_contra other
  have here : work ∈ workFor run.work work.specifier :=
    List.mem_filter.mpr ⟨mem, beq_iff_eq.mpr rfl⟩
  rw [(mem_keys_of_succeeded reached succeeded _ other).1] at here
  cases here

namespace Host

variable {files : Specifier → Except LoadError String} {host host' : Host (StateM Volume)}
  {engine : Engine U V} {entry : Specifier} {given : Option String} {root : List String}
  {v w w' : Volume} {events events' : List Event} {run run' : Run U}

/-- A second run that links everything repeats the work of the first one. -/
theorem repeats_of_succeeded (reads : ∀ s, host.read s = pure (files s))
    (reads' : ∀ s, host'.read s = pure (files s)) (cache : host'.cache = host.cache)
    (opened : host.cache.IsOpen root v) (opened' : host'.cache.IsOpen root w)
    (written : entry.IsWritten)
    (reached : Reached engine host entry given v events run w) (succeeded : run.Succeeded)
    (reached' : Reached engine host' entry given w events' run' w') (succeeded' : run'.Succeeded) :
    Repeats run.work run'.work := by
  have one := reached.toReached
  have two := reached'.toReached
  have gives := (reached.informed succeeded.calm written opened reads).gives
  have gives' := (reached'.informed succeeded'.calm written opened' reads').gives
  have agrees := agrees_of_succeeded reads host' cache opened written reached succeeded
  have warm := isWarm_of_succeeded reads host' cache opened written reached succeeded
  have keys (s : Specifier) : s ∈ run'.graph.keys ↔ s ∈ run.graph.keys :=
    (Run.mem_keys_iff_needs two succeeded' gives').trans
      (agrees.needs_iff.trans (Run.mem_keys_iff_needs one succeeded gives).symm)
  have sound := one.kept.sound
  have sound' := two.kept.sound
  refine .of_modules sound.unique (fun _ mem => Run.specifier_mem_keys one succeeded mem)
    (fun _ mem => (keys _).mp (Run.specifier_mem_keys two succeeded' mem)) fun s mem => ?_
  rcases sound.known s mem with loaded | ⟨rfl, some⟩
  · rcases sound'.known s ((keys s).mpr mem) with loaded' | ⟨rfl, some⟩
    · obtain ⟨route, source, r, way, built, log⟩ := (one.ledger.begun s _ loaded).loaded
      obtain ⟨route', source', r', way', built', log'⟩ := (two.ledger.begun s _ loaded').loaded
      have again := route_of_warm reads' opened' written warm reached' succeeded'.calm loaded' way'
      have build := (build_work ..).2 r built
      rw [log, log', again, (build_work ..).2 r' built', ← build]
      exact way.repeats.append (repeats_build ..)
    · rw [sound.unloaded some] at loaded
      cases loaded
  · rw [(one.ledger.unbegun s (sound.unloaded some)).2, (two.ledger.unbegun s (sound'.unloaded some)).2]
    obtain ⟨source, rfl⟩ := Option.isSome_iff_exists.mp some
    have same : Run.givenWork engine s (Option.some source) s = (build engine s (s == s) source).2 :=
      if_pos rfl
    rw [same]
    exact repeats_build ..

/-- When an entry has been linked, linking it again with the same local modules and the same cache,
whatever servers do by then, comes to its end and links the same. No server is asked for anything: what
has been found in the cache or fetched is found in the cache. -/
theorem link_again (host host' : Host (StateM Volume)) {steps : Nat} {giveUp : Option Nat}
    {linked : Linked U} (reads : ∀ s, host.read s = pure (files s))
    (reads' : ∀ s, host'.read s = pure (files s))
    (cache : host'.cache = host.cache) (opened : host.cache.IsOpen root v) (written : entry.IsWritten)
    (first : (link engine host steps entry given giveUp : StateM Volume _) v = (.ok linked, w)) :
    ∃ n linked', (∀ steps', n ≤ steps' →
        (link engine host' steps' entry given none : StateM Volume _) w = (.ok linked', w)) ∧
      (∀ s, .get s ∉ linked'.work) ∧ linked.graph.Same linked'.graph ∧
      linked'.counts.localReads = linked.counts.localReads ∧
      linked'.counts.transpiles = linked.counts.transpiles ∧
      linked'.counts.compiled = linked.counts.compiled ∧ linked'.counts.fetches = 0 ∧
      linked'.counts.cacheHits = linked.counts.cacheHits + linked.counts.fetches := by
  obtain ⟨events, run, reached, tells⟩ := Run.link_reached engine host steps entry given giveUp v
  rw [first] at reached tells
  obtain ⟨succeeded, rfl⟩ := tells
  have informed := reached.informed succeeded.calm written opened reads
  have opened' : host'.cache.IsOpen root w := cache ▸ informed.steady.opened
  have agrees := agrees_of_succeeded reads host' cache opened written reached succeeded
  have warm := isWarm_of_succeeded reads host' cache opened written reached succeeded
  have complete := agrees.complete
    (Run.complete_of_succeeded reached.toReached succeeded informed.gives)
  obtain ⟨events', run', w', reached', succeeded', n, links⟩ := exists_linked reads' opened' written
    complete fun s needs => (Run.mem_keys_iff_needs reached.toReached succeeded informed.gives).mpr
      (agrees.needs_iff.mp needs)
  obtain rfl := volume_eq_of_warm reads' opened' written warm reached' succeeded'.calm
  have gives' := (reached'.informed succeeded'.calm written opened' reads').gives
  have repeats := repeats_of_succeeded reads reads' cache opened opened' written reached succeeded
    reached' succeeded'
  refine ⟨n, _, links, fun s mem => ?_, ?_, repeats.reads, repeats.transpiles, repeats.compiled,
    repeats.fetches, repeats.hits⟩
  · exact List.countP_eq_zero.mp repeats.gets _ mem rfl
  · exact Run.same_of_answers agrees written reached.toReached succeeded informed.gives
      reached'.toReached succeeded' gives'

/-- A host without local modules, and with one server. -/
def remoteHost (reply : Reply) : MemoryHost where
  files := []
  replies := [("https://h/b.js", reply)]
  timeout := 10
  maxFetches := 1
  cache := ⟨"/c"⟩

theorem exists_link_remote :
    ∃ linked w,
      (link Engine.inspector (remoteHost (.after 5 (.ok ⟨200, ""⟩))).toHost 20 (Run.rootModule "a.js")
        (some "import 'https://h/b.js';") none : StateM Volume _) emptyCache = (.ok linked, w) ∧
      linked.counts = ⟨0, 0, 1, 0, 2⟩ := by
  have counts : ((link Engine.inspector (remoteHost (.after 5 (.ok ⟨200, ""⟩))).toHost 20
      (Run.rootModule "a.js") (some "import 'https://h/b.js';") none : StateM Volume _)
        emptyCache).1.toOption.map Linked.counts = some ⟨0, 0, 1, 0, 2⟩ := by decide +kernel
  generalize (link Engine.inspector (remoteHost (.after 5 (.ok ⟨200, ""⟩))).toHost 20
    (Run.rootModule "a.js") (some "import 'https://h/b.js';") none : StateM Volume _) emptyCache =
      result at counts ⊢
  obtain ⟨e | linked, w⟩ := result
  · cases counts
  · exact ⟨linked, w, rfl, Option.some.inj counts⟩

/-- A module that has been fetched is found in the cache when its server does not answer any more. -/
theorem link_again_remote :
    ∃ linked w n linked',
      (link Engine.inspector (remoteHost (.after 5 (.ok ⟨200, ""⟩))).toHost 20 (Run.rootModule "a.js")
        (some "import 'https://h/b.js';") none : StateM Volume _) emptyCache = (.ok linked, w) ∧
      linked.counts = ⟨0, 0, 1, 0, 2⟩ ∧
      (∀ steps', n ≤ steps' →
        (link Engine.inspector (remoteHost .hang).toHost steps' (Run.rootModule "a.js")
          (some "import 'https://h/b.js';") none : StateM Volume _) w = (.ok linked', w)) ∧
      linked.graph.Same linked'.graph ∧ linked'.counts = ⟨0, 1, 0, 0, 2⟩ := by
  obtain ⟨linked, w, first, counts⟩ := exists_link_remote
  have written : (Run.rootModule "a.js").IsWritten :=
    ⟨Specifier.isWritten_noAuthority, ⟨rfl, by decide⟩⟩
  have reads (reply : Reply) (s : Specifier) :
      (remoteHost reply).toHost.read s = pure ((remoteHost .hang).read s) := rfl
  obtain ⟨n, linked', links, -, same, localReads, transpiles, compiled, fetches, hits⟩ :=
    link_again (remoteHost (.after 5 (.ok ⟨200, ""⟩))).toHost (remoteHost .hang).toHost (reads _)
      (reads _) rfl isOpen_emptyCache written first
  have parts : linked'.counts = ⟨linked'.counts.localReads, linked'.counts.cacheHits,
    linked'.counts.fetches, linked'.counts.transpiles, linked'.counts.compiled⟩ := rfl
  refine ⟨linked, w, n, linked', first, counts, links, same, ?_⟩
  rw [parts, localReads, hits, fetches, transpiles, compiled, counts]
  rfl

end Host

end ModuleLinker.Link
