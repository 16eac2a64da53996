import ModuleLinker.Proofs.Cache.Entries
import ModuleLinker.Proofs.Link.Abreast
import ModuleLinker.Proofs.Link.Schedule
import ModuleLinker.Proofs.Link.Turns

/-!
# Which failure is told

An entry with imports that are all fetched at the same time, and that have no imports of their own, comes
to one failure (`Host.link_tells`): with few imports to the one that arrives first, and with many to that
of the first import that fails, when everything before it has arrived as well. What has not arrived by
then is not put into the cache.

A run of this kind has two stages (`Host.Stage`). First the entry is loaded; then its imports are side by
side, and time does not go on further than to the arrival of an import without which no failure can be
told (`Host.Fetches.critical`).
-/

set_option autoImplicit false

namespace ModuleLinker.Link

open Files Cache Pending

variable {U V : Type}

/-! ## What is told -/

/-- What a module comes to that is no entry, if it cannot be loaded. -/
def Answers.failure? (a : Answers) (engine : Engine U V) (s : Specifier) : Option LoadError :=
  match (outcome engine s false (a.source s)).1 with
  | .error e => some e
  | .ok _ => none

/-- When the last of some modules arrives. -/
def latest (arrival : Specifier → Nat) (modules : List Specifier) : Nat :=
  (modules.map arrival).foldr max 0

theorem le_latest {arrival : Specifier → Nat} {modules : List Specifier} {s : Specifier}
    (mem : s ∈ modules) : arrival s ≤ latest arrival modules := by
  induction modules with
  | nil => cases mem
  | cons t more ih =>
    rw [latest, List.map_cons, List.foldr_cons]
    rcases List.mem_cons.mp mem with rfl | mem
    · exact Nat.le_max_left ..
    · exact (ih mem).trans (Nat.le_max_right ..)

/-- The failure that is told of some imports, and when: among few imports one that arrives strictly before
every other failure, and among many that of the first import that fails, when all imports up to there
have arrived. -/
inductive TellsAt (arrival : Specifier → Nat) (failure? : Specifier → Option LoadError)
    (imports : List Specifier) : Join → LoadError → Nat → Prop
  | eager {s : Specifier} {e : LoadError} (mem : s ∈ imports) (fails : failure? s = some e)
      (first : ∀ t ∈ imports, failure? t ≠ none → t = s ∨ arrival s < arrival t) :
      TellsAt arrival failure? imports .eager e (arrival s)
  | ordered {before after : List Specifier} {s : Specifier} {e : LoadError}
      (split : imports = before ++ s :: after) (fails : failure? s = some e)
      (first : ∀ t ∈ before, failure? t = none) :
      TellsAt arrival failure? imports .ordered e (latest arrival (before ++ [s]))

section TellsAt

variable {arrival : Specifier → Nat} {failure? : Specifier → Option LoadError}
  {imports : List Specifier} {join : Join} {e : LoadError} {time : Nat}

/-- What stands up to an import is imported. -/
theorem mem_of_split {before after : List Specifier} {s t : Specifier}
    (split : imports = before ++ s :: after) (mem : t ∈ before ++ [s]) : t ∈ imports := by
  rw [split, List.append_cons]
  exact List.mem_append_left _ mem

/-- Some import fails. -/
theorem TellsAt.exists_fails (told : TellsAt arrival failure? imports join e time) :
    ∃ s ∈ imports, failure? s = some e := by
  cases told with
  | eager mem fails => exact ⟨_, mem, fails⟩
  | ordered split fails =>
    exact ⟨_, mem_of_split split (List.mem_append_right _ List.mem_cons_self), fails⟩

/-- No other failure can be told up to then. -/
theorem TellsAt.unique (told : TellsAt arrival failure? imports join e time)
    {phase? : Specifier → Option Phase} {e' : LoadError}
    (prevails : Run.Prevails phase? imports join e')
    (loaded : ∀ s ∈ imports, phase? s = some .loaded → failure? s = none)
    (failed : ∀ s ∈ imports, ∀ e, phase? s = some (.failed e) → failure? s = some e ∧ arrival s ≤ time) :
    e' = e := by
  cases told with
  | @eager s _ mem fails first =>
    cases prevails with
    | @eager t _ mem' here =>
      obtain ⟨fails', early⟩ := failed t mem' e' here
      rcases first t mem' (by rw [fails']; exact Option.some_ne_none e') with rfl | later
      · exact Option.some.inj (fails'.symm.trans fails)
      · omega
  | ordered split fails first =>
    cases prevails with
    | @ordered before after t _ split' ready here =>
      -- Both are the failure of the first import that fails.
      have listed := mem_of_split split' (List.mem_append_right _ List.mem_cons_self)
      have same : imports.findSome? failure? = some e' := List.findSome?_eq_some_iff.mpr
        ⟨before, t, after, split', (failed t listed e' here).1, fun t' mem =>
          loaded t' (mem_of_split split' (List.mem_append_left _ mem)) (ready t' mem)⟩
      exact Option.some.inj (same.symm.trans
        (List.findSome?_eq_some_iff.mpr ⟨_, _, _, split, fails, first⟩))

end TellsAt

namespace Host

/-! ## Imports that are fetched -/

/-- When the fetch of a module comes to its end. -/
def arrival (host : Host (StateM Volume)) (s : Specifier) : Nat :=
  (host.reply s).duration host.timeout

/-- Whether the imports of an entry are all fetched, at the same time, and have no imports of their own. -/
structure Fans (engine : Engine U V) (host : Host (StateM Volume))
    (files : Specifier → Except LoadError String) (root : List String) (v : Volume) (entry : Specifier)
    (given : Option String) (imports : List Specifier) : Prop where
  loads : ∃ r, (host.answers files root v).Loads engine entry given entry r imports
  other : entry ∉ imports
  remote : ∀ s ∈ imports, s.isLocal = false
  uncached : ∀ s ∈ imports, host.cache.entry v s = .ok none
  few : imports.length ≤ host.maxFetches
  leaf : ∀ s ∈ imports, ∀ r,
    (outcome engine s false ((host.answers files root v).source s)).1 = .ok r →
      importsOf engine r = .ok []

/-- What a host has answered in a run, and what has become of its file system. -/
structure Follows (host : Host (StateM Volume)) (a : Answers) (root : List String) (v : Volume)
    (events : List Event) (run : Run U) (w : Volume) : Prop where
  gives : ∀ event ∈ events, a.Gives event
  steady : Steady host root v run w

/-- What holds of a run in which imports are fetched at the same time, from some time on and up to another
one: they are side by side, the servers have all been asked at once, and nothing is stored before it has
arrived. -/
structure Fetches (engine : Engine U V) (host : Host (StateM Volume)) (a : Answers) (root : List String)
    (v : Volume) (entry : Specifier) (imports : List Specifier) (join : Join) (start time : Nat)
    (events : List Event) (run : Run U) (w : Volume) : Prop where
  advances : run.Advances entry join imports
  follows : Follows host a root v events run w
  loads : ∀ s phase, run.phase? s = some phase → s ∈ imports ∨ (s = entry ∧ phase = .loaded)
  ended : ∀ s ∈ imports, ∀ phase, run.phase? s = some phase → phase.isActive = false →
    phase = .ended (outcome engine s false (a.source s)).1
  asked : run.now = start ∨ ∀ s ∈ imports, (run.phase? s).any Phase.isAsked = true
  since : ∀ s since, run.phase? s = some (.requested since) → since = start
  arrived : ∀ s ∈ imports, (run.phase? s).any Phase.isStored = true → start + host.arrival s ≤ run.now
  begun : start ≤ run.now
  early : run.now ≤ start + time

variable {files : Specifier → Except LoadError String} {host : Host (StateM Volume)}
  {engine : Engine U V} {entry : Specifier} {given : Option String} {root : List String}
  {imports : List Specifier} {join : Join} {e : LoadError} {start time : Nat} {u v w : Volume}
  {event : Event} {events : List Event} {run next : Run U} {s : Specifier} {a : Answers}

theorem Fans.nodup (h : Fans engine host files root v entry given imports) : imports.Nodup := by
  obtain ⟨r, -, -, -, resolved⟩ := h.loads
  exact nodup_of_importsOf resolved

theorem Fans.isWritten (h : Fans engine host files root v entry given imports)
    (written : entry.IsWritten) (mem : s ∈ imports) : s.IsWritten := by
  obtain ⟨r, raw, -, built, resolved⟩ := h.loads
  exact isWritten_of_importsOf ((build_spec built).1 ▸ written) resolved mem

theorem Fetches.isWritten (h : Fetches engine host a root v entry imports join start time events run w)
    (fans : Fans engine host files root v entry given imports) (written : entry.IsWritten)
    (s : Specifier) (phase : Phase) (found : run.phase? s = some phase) : s.IsWritten := by
  rcases h.loads s phase found with mem | ⟨rfl, -⟩
  · exact fans.isWritten written mem
  · exact written

/-- What has not been loaded is an import. -/
theorem Fetches.imported (h : Fetches engine host a root v entry imports join start time events run w)
    {phase : Phase} (found : run.phase? s = some phase) (unloaded : phase ≠ .loaded) : s ∈ imports :=
  (h.loads s phase found).resolve_right fun loaded => unloaded loaded.2

/-- An import that has been loaded or has failed has come to what it has to come to. -/
theorem Fetches.failure?_eq (h : Fetches engine host a root v entry imports join start time events run w)
    (mem : s ∈ imports) {phase : Phase} (found : run.phase? s = some phase)
    (ended : phase.isActive = false) :
    (phase = .loaded ∧ a.failure? engine s = none) ∨
      ∃ e, phase = .failed e ∧ a.failure? engine s = some e := by
  have same := h.ended s mem phase found ended
  unfold Answers.failure?
  generalize (outcome engine s false (a.source s)).1 = result at same
  cases result with
  | ok r => exact .inl ⟨same, rfl⟩
  | error e => exact .inr ⟨e, same, rfl⟩

theorem Fetches.loaded (h : Fetches engine host a root v entry imports join start time events run w)
    (mem : s ∈ imports) (loaded : run.phase? s = some .loaded) : a.failure? engine s = none := by
  rcases h.failure?_eq mem loaded rfl with ⟨-, none⟩ | ⟨e, same, -⟩
  · exact none
  · cases same

theorem Fetches.failed (h : Fetches engine host a root v entry imports join start time events run w)
    (mem : s ∈ imports) {e : LoadError} (failed : run.phase? s = some (.failed e)) :
    a.failure? engine s = some e := by
  rcases h.failure?_eq mem failed rfl with ⟨same, -⟩ | ⟨e, same, fails⟩
  · cases same
  · cases same
    exact fails

/-- The imports are side by side as long as the run goes on. -/
theorem Fetches.abreast (h : Fetches engine host a root v entry imports join start time events run w)
    (told : TellsAt host.arrival (a.failure? engine) imports join e time) (going : run.failure = none) :
    run.Abreast entry join imports := by
  cases h.advances with
  | abreast abreast => exact abreast
  | loaded all =>
    obtain ⟨s, mem, fails⟩ := told.exists_fails
    rw [h.loaded mem (all s mem)] at fails
    cases fails
  | failed fails =>
    rw [going] at fails
    cases fails

/-- As long as the run goes on, an import is under way without which no failure can be told. -/
theorem Fetches.critical (h : Fetches engine host a root v entry imports join start time events run w)
    (told : TellsAt host.arrival (a.failure? engine) imports join e time)
    (abreast : run.Abreast entry join imports) :
    ∃ s ∈ imports, host.arrival s ≤ time ∧
      ∀ phase, run.phase? s = some phase → phase.isActive = true := by
  cases told with
  | @eager s _ mem fails =>
    refine ⟨s, mem, Nat.le_refl _, fun phase found => ?_⟩
    by_contra ended
    rcases h.failure?_eq mem found (Bool.eq_false_iff.mpr ended) with ⟨-, none⟩ | ⟨e', rfl, -⟩
    · rw [fails] at none
      cases none
    · exact abreast.unfailed rfl s mem e' found
  | @ordered before after s _ split fails first =>
    by_contra none
    have listed {t : Specifier} (mem : t ∈ before ++ [s]) : t ∈ imports := mem_of_split split mem
    have ended (t : Specifier) (mem : t ∈ before ++ [s]) :
        ∃ phase, run.phase? t = some phase ∧ phase.isActive = false := by
      by_contra active
      refine none ⟨t, listed mem, le_latest mem, fun phase found => ?_⟩
      by_contra inactive
      exact active ⟨phase, found, Bool.eq_false_iff.mpr inactive⟩
    have loaded (t : Specifier) (mem : t ∈ before) : run.phase? t = some .loaded := by
      have mem' := List.mem_append_left [s] mem
      obtain ⟨phase, found, inactive⟩ := ended t mem'
      rcases h.failure?_eq (listed mem') found inactive with ⟨rfl, -⟩ | ⟨e', -, fails⟩
      · exact found
      · rw [first t mem] at fails
        cases fails
    have mem : s ∈ before ++ [s] := List.mem_append_right _ List.mem_cons_self
    obtain ⟨phase, found, inactive⟩ := ended s mem
    rcases h.failure?_eq (listed mem) found inactive with ⟨-, same⟩ | ⟨e', rfl, -⟩
    · rw [fails] at same
      cases same
    · have opens := abreast.opens
      rw [split, row_append_of_loaded loaded, row, found] at opens
      cases opens

/-- No import waits for a permit. -/
theorem Fetches.not_queued (h : Fetches engine host a root v entry imports join start time events run w)
    (fans : Fans engine host files root v entry given imports)
    (reached : Reached engine host entry given v events run w) (s : Specifier) :
    run.phase? s ≠ some .queued := by
  refine reached.toReached.kept.permitted.not_queued (fun t phase found active => h.imported found ?_)
    (fans.few.trans (Nat.le_max_left host.maxFetches 1)) s
  rintro rfl
  cases active

/-- When the loop sleeps, the servers of all imports have been asked. -/
theorem Fetches.of_sleep (h : Fetches engine host a root v entry imports join start time events run w)
    (fans : Fans engine host files root v entry given imports)
    (reached : Reached engine host entry given v events run w)
    (abreast : run.Abreast entry join imports) {until_ : Nat}
    (sleeps : run.next host none = .sleep until_) (mem : s ∈ imports) :
    ∃ phase, run.phase? s = some phase ∧ (phase.isActive = true → phase = .requested start) := by
  have quiet : (run.next host none).isQuiet = true := by
    rw [sleeps]
    rfl
  cases found : run.phase? s with
  | none =>
    exact absurd (abreast.mem_tasks.mpr ⟨s, mem, .inl ⟨rfl, found⟩⟩) (Run.not_idle_of_quiet quiet)
  | some phase =>
    refine ⟨phase, rfl, fun active => ?_⟩
    rcases Run.phase_of_quiet reached.toReached quiet (abreast.awaits mem found active) active with
      rfl | ⟨since, rfl⟩
    · exact absurd found (h.not_queued fans reached s)
    · rw [h.since s since found]

/-- The loop does not sleep longer than until an import arrives that is under way. -/
theorem Fetches.sleep_le (h : Fetches engine host a root v entry imports join start time events run w)
    (fans : Fans engine host files root v entry given imports)
    (told : TellsAt host.arrival (a.failure? engine) imports join e time)
    (reached : Reached engine host entry given v events run w)
    (abreast : run.Abreast entry join imports) {until_ : Nat}
    (sleeps : run.next host none = .sleep until_) : until_ ≤ start + time := by
  obtain ⟨s, mem, soon, active⟩ := h.critical told abreast
  obtain ⟨phase, found, asked⟩ := h.of_sleep fans reached abreast sleeps mem
  have active := active phase found
  rw [asked active] at found
  have least := (List.min?_eq_some_iff.mp (Run.nextTime_of_sleep sleeps)).2 _ (List.mem_append_left _
    (List.mem_filterMap.mpr
      ⟨s, (abreast.awaits mem found rfl).1, Run.wakeTime_of_requested host found⟩))
  have soon : (host.reply s).duration host.timeout ≤ time := soon
  omega

/-- When an import gets so far that it may have been put into the cache, it has arrived. -/
theorem Fetches.arrives
    (h : Fetches engine host (host.answers files root v) root v entry imports join start time events run u)
    (fans : Fans engine host files root v entry given imports)
    (reached : Reached engine host entry given v events run u)
    (here : (host.answers files root v).Gives event) (allows : host.Allows run u event w)
    (mem : s ∈ imports) {after : Option Phase}
    (goes : Run.Goes engine entry run.now event s (run.phase? s) after)
    (before : ¬ (run.phase? s).any Phase.isStored = true) (stored : after.any Phase.isStored = true) :
    start + host.arrival s ≤ run.now := by
  have missed : (host.answers files root v).lookUp s = .ok none :=
    (answers_lookUp host files root v s).trans (fans.uncached s mem)
  have late {since : Nat} {answer : Except LoadError String} (asks : run.phase? s = some (.requested since))
      (arrived : (host.reply s).outcome? s host.timeout (run.now - since) = some answer) :
      start + host.arrival s ≤ run.now := by
    have enough : host.arrival s ≤ run.now - since := Reply.duration_le arrived
    rw [h.since s since asks] at enough
    have begun := h.begun
    omega
  rcases goes.stores before stored with ⟨since, body, outcome, rfl, -⟩ | ⟨old, _, _, found, closes⟩
  · cases allows with
    | receive asks arrived => exact late asks arrived
  · have expects := (reached.toReached.answered h.follows.gives).expects s old found
    cases closes with
    | read =>
      have isLocal : s.isLocal = true := expects
      rw [fans.remote s mem] at isLocal
      cases isLocal
    | unreadable => cases here.trans missed
    | hit => cases here.trans missed
    | refuse =>
      cases allows with
      | refuse asks arrived => exact late asks arrived
    | store =>
      rw [found] at before
      exact absurd rfl before

section Turn

variable (reads : ∀ s, host.read s = pure (files s)) (opened : host.cache.IsOpen root v)
  (written : entry.IsWritten) (fans : Fans engine host files root v entry given imports)
  (told : TellsAt host.arrival ((host.answers files root v).failure? engine) imports join e time)

include reads opened

/-- What happens in a turn is what the host answers. -/
theorem Follows.turn (reached : Reached engine host entry given v events run u)
    (h : Follows host (host.answers files root v) root v events run u)
    (written : ∀ s phase, run.phase? s = some phase → s.IsWritten)
    (awaited : ∀ s since, run.phase? s = some (.requested since) → s ∈ run.pending.awaited)
    (turn : Run.Turn engine host none run u event next w) :
    (host.answers files root v).Gives event ∧
      Follows host (host.answers files root v) root v (events ++ [event]) next w := by
  have here := h.steady.gives opened reads written turn.occurs turn.allows
  refine ⟨here, fun event' mem => ?_, h.steady.occurs reads reached.toReached.kept turn.going awaited
    turn.occurs turn.allows⟩
  rcases List.mem_append.mp mem with mem | mem
  · exact h.gives event' mem
  · rw [List.mem_singleton.mp mem]
    exact here

include written fans told

/-- Every turn keeps the fetches of the imports in step. -/
theorem Fetches.turn (reached : Reached engine host entry given v events run u)
    (h : Fetches engine host (host.answers files root v) root v entry imports join start time events run u)
    (turn : Run.Turn engine host none run u event next w) :
    Fetches engine host (host.answers files root v) root v entry imports join start time
      (events ++ [event]) next w := by
  have kept := reached.toReached.kept
  have abreast := h.abreast told turn.going
  have requested {t : Specifier} {since : Nat} (found : run.phase? t = some (.requested since)) :
      t ∈ imports := h.imported found nofun
  obtain ⟨here, follows⟩ := h.follows.turn reads opened reached (h.isWritten fans written)
    (fun s since found => (abreast.awaits (requested found) found rfl).1) turn
  have answered := reached.toReached.answered h.follows.gives
  have ends {s : Specifier} {old : Phase} {work : List Work} {answer : Except LoadError String}
      (found : run.phase? s = some old) (ends : Ends s event old work answer) :
      answer = (host.answers files root v).source s := (answered.expects s old found).ends here ends
  obtain ⟨advances, loads⟩ := abreast.occurs kept fans.nodup fans.other
    (fun s mem old work answer found closes r ok => fans.leaf s mem r (ends found closes ▸ ok)) turn.occurs
  obtain ⟨goes, clock⟩ := turn.occurs.goes kept turn.going
  have later : run.now ≤ next.now := by
    rcases clock with now | ⟨time, -, now⟩ <;> omega
  constructor
  case advances => exact advances
  case follows => exact follows
  case loads =>
    intro s phase found
    have loading : s ∈ next.loading := by
      by_contra absent
      rw [Run.phase?_eq_none_iff.mpr absent] at found
      cases found
    rcases loads s loading with before | mem
    · cases old : run.phase? s with
      | none => exact absurd before (Run.phase?_eq_none_iff.mp old)
      | some phase' =>
        refine (h.loads s phase' old).imp_right ?_
        rintro ⟨rfl, rfl⟩
        exact ⟨rfl, Option.some.inj (found.symm.trans ((goes s).of_loaded old))⟩
    · exact .inl mem
  case ended =>
    intro s mem phase found ended
    rcases (goes s).closes found ended with before | ⟨old, work, answer, before, closes, same⟩
    · exact h.ended s mem phase before ended
    · have plain : (s == entry) = false := beq_false_of_ne fun same => fans.other (same ▸ mem)
      rw [same, plain, ends before closes]
  case asked =>
    rcases clock with now | ⟨until_, rfl, -⟩
    · rw [now]
      exact h.asked.imp id fun all s mem => (goes s).isAsked (all s mem)
    · refine .inr fun s mem => (goes s).isAsked ?_
      obtain ⟨phase, found, asked⟩ := h.of_sleep fans reached abreast (turn.sleeps until_ rfl) mem
      rw [found]
      cases active : phase.isActive with
      | true =>
        rw [asked active]
        rfl
      | false => cases phase <;> first | rfl | cases active
  case since =>
    intro s since asks
    rcases (goes s).requested asks with before | ⟨rfl, rfl⟩
    · exact h.since s since before
    · cases turn.occurs with
      | request awaits =>
        rcases h.asked with start | all
        · exact start
        · have asked := all s (h.imported awaits.2 nofun)
          rw [awaits.2] at asked
          cases asked
  case arrived =>
    intro s mem stored
    by_cases before : (run.phase? s).any Phase.isStored = true
    · exact (h.arrived s mem before).trans later
    · exact (h.arrives fans reached here turn.allows mem (goes s) before stored).trans later
  case begun => exact h.begun.trans later
  case early =>
    rcases clock with now | ⟨until_, rfl, now⟩
    · rw [now]
      exact h.early
    · have soon := h.sleep_le fans told reached abreast (turn.sleeps until_ rfl)
      have early := h.early
      omega

omit reads in
/-- What a run fails with in which the imports of an entry are fetched at the same time. -/
theorem Fetches.failure_eq
    (h : Fetches engine host (host.answers files root v) root v entry imports join start time events run w)
    (failed : run.failure ≠ none) :
    run.failure = some e ∧ ∀ s ∈ imports, time < host.arrival s → host.cache.entry w s = .ok none := by
  have early {s : Specifier} (mem : s ∈ imports) (stored : (run.phase? s).any Phase.isStored = true) :
      host.arrival s ≤ time := by
    have arrived := h.arrived s mem stored
    have early := h.early
    omega
  constructor
  · cases h.advances with
    | abreast abreast => exact absurd abreast.going failed
    | loaded all =>
      obtain ⟨s, mem, fails⟩ := told.exists_fails
      rw [h.loaded mem (all s mem)] at fails
      cases fails
    | failed fails prevails =>
      rw [fails, told.unique prevails (fun s => h.loaded) fun s mem e failed =>
        ⟨h.failed mem failed, early mem (by rw [failed]; rfl)⟩]
  · intro s mem late
    have unstored : (run.phase? s).any Phase.isStored = false := by
      by_contra stored
      exact absurd (early mem (Bool.not_eq_false _ ▸ stored)) (by omega)
    have apart := h.follows.steady.apart (h.isWritten fans written) (fans.isWritten written mem) unstored
    exact (Store.get_congr apart opened h.follows.steady.opened).trans (fans.uncached s mem)

end Turn

/-! ## The whole run -/

/-- The imports begin to be fetched when the entry has been loaded. -/
theorem Follows.fetches (follows : Follows host a root v events run w)
    (abreast : run.Abreast entry join imports) (other : entry ∉ imports)
    (loads : ∀ s phase, run.phase? s = some phase → s = entry ∧ phase = .loaded) (time : Nat) :
    Fetches engine host a root v entry imports join run.now time events run w := by
  have fresh {s : Specifier} (mem : s ∈ imports) : run.phase? s = none := by
    cases found : run.phase? s with
    | none => rfl
    | some phase => exact absurd ((loads s phase found).1 ▸ mem) other
  constructor
  case advances => exact .abreast abreast
  case follows => exact follows
  case loads => exact fun s phase found => .inr (loads s phase found)
  case ended => exact fun s mem phase found => by cases (fresh mem).symm.trans found
  case asked => exact .inl rfl
  case since => exact fun s since found => by cases (loads s _ found).2
  case arrived =>
    intro s mem stored
    rw [fresh mem] at stored
    cases stored
  case begun => exact Nat.le_refl _
  case early => exact Nat.le_add_right ..

/-- How far a run has come: the entry is being loaded, or its imports are being fetched. -/
inductive Stage (engine : Engine U V) (host : Host (StateM Volume)) (a : Answers) (root : List String)
    (v : Volume) (entry : Specifier) (given : Option String) (imports : List Specifier) (time : Nat)
    (events : List Event) (run : Run U) (w : Volume) : Prop
  | opens (absent : given = none) (h : run.Opens entry) (follows : Follows host a root v events run w)
  | fetches {start : Nat} (h : Fetches engine host a root v entry imports (.ofCount imports.length) start
      time events run w)

theorem stage_begin (opened : host.cache.IsOpen root v)
    (fans : Fans engine host files root v entry given imports) (filled : imports ≠ []) (time : Nat) :
    Stage engine host (host.answers files root v) root v entry given imports time []
      (Run.begin engine entry given host.maxFetches) v := by
  have follows : Follows host (host.answers files root v) root v []
      (Run.begin engine entry given host.maxFetches) v :=
    ⟨fun event mem => (by cases mem), steady_begin opened⟩
  cases given with
  | none => exact .opens rfl (Run.opens_begin engine entry host.maxFetches) follows
  | some source =>
    obtain ⟨r, raw, found, built, resolved⟩ := fans.loads
    rw [Answers.sourceIn_entry] at found
    cases found
    rw [beq_self_eq_true] at built
    obtain ⟨abreast, fresh⟩ := Run.abreast_begin built resolved filled host.maxFetches
    exact .fetches (follows.fetches abreast fans.other
      (fun s phase found => by cases (fresh s).symm.trans found) time)

/-- Nothing but the entry and its imports is loaded. -/
theorem Stage.loading (h : Stage engine host a root v entry given imports time events run w)
    (mem : s ∈ run.loading) : s ∈ entry :: imports := by
  cases found : run.phase? s with
  | none => exact absurd mem (Run.phase?_eq_none_iff.mp found)
  | some phase =>
    cases h with
    | opens _ opens => exact List.mem_cons.mpr (.inl (opens.loads s phase found).1)
    | fetches fetches =>
      exact List.mem_cons.mpr ((fetches.loads s phase found).elim .inr fun entry => .inl entry.1)

theorem Stage.turn (reads : ∀ s, host.read s = pure (files s)) (opened : host.cache.IsOpen root v)
    (written : entry.IsWritten) (fans : Fans engine host files root v entry given imports)
    (told : TellsAt host.arrival ((host.answers files root v).failure? engine) imports
      (.ofCount imports.length) e time) (filled : imports ≠ [])
    (reached : Reached engine host entry given v events run u)
    (h : Stage engine host (host.answers files root v) root v entry given imports time events run u)
    (turn : Run.Turn engine host none run u event next w) :
    Stage engine host (host.answers files root v) root v entry given imports time (events ++ [event])
      next w := by
  cases h with
  | fetches h => exact .fetches (h.turn reads opened written fans told reached turn)
  | opens absent h follows =>
    subst absent
    have only (s : Specifier) (phase : Phase) (found : run.phase? s = some phase) : s = entry :=
      (h.loads s phase found).1
    obtain ⟨here, after⟩ := follows.turn reads opened reached
      (fun s phase found => only s phase found ▸ written)
      (fun s since found => by
        rw [h.pending, only s _ found]
        exact List.mem_cons_self) turn
    have answered := reached.toReached.answered follows.gives
    obtain ⟨r, raw, source, built, resolved⟩ := fans.loads
    rw [beq_self_eq_true] at built
    rcases h.occurs reached.toReached.kept filled fans.other (fun old work answer found ends => by
        have same : answer = .ok raw := ((answered.expects entry old found).ends here ends).trans source
        exact ⟨r, same ▸ built, resolved⟩) turn.occurs with opens | ⟨abreast, loads⟩
    · exact .opens rfl opens after
    · exact .fetches (after.fetches abreast fans.other loads time)

/-- A run in which something is left to do does not starve. -/
theorem Stage.not_starved (fans : Fans engine host files root v entry given imports)
    (told : TellsAt host.arrival (a.failure? engine) imports (.ofCount imports.length) e time)
    (reached : Reached engine host entry given v events run w)
    (h : Stage engine host a root v entry given imports time events run w) : ¬ run.Starved := by
  intro starved
  cases h with
  | opens _ opens =>
    have queued := starved.waits.queued (s := entry) (by
      rw [opens.pending]
      exact List.mem_cons_self)
    have alone (s : Specifier) (phase : Phase) (found : run.phase? s = some phase)
        (_ : phase.isActive = true) : s ∈ [entry] := List.mem_singleton.mpr (opens.loads s phase found).1
    exact reached.toReached.kept.permitted.not_queued alone (Nat.le_max_right ..) entry queued
  | fetches fetches =>
    have abreast := fetches.abreast told starved.going
    obtain ⟨s, mem, -, active⟩ := fetches.critical told abreast
    cases found : run.phase? s with
    | none =>
      obtain ⟨t, owner, same, -⟩ := starved.waits _ (abreast.mem_tasks.mpr ⟨s, mem, .inl ⟨rfl, found⟩⟩)
      cases same
    | some phase =>
      exact fetches.not_queued fans reached s
        (starved.waits.queued (abreast.awaits mem found (active phase found)).1)

/-- The failure that is told of an entry with imports that are all fetched, at the same time, and that have
no imports of their own: with few imports the one that arrives first, and with many that of the first import
that fails, when all imports up to there have arrived. What arrives later than the failure is told is not
put into the cache. -/
theorem link_tells (reads : ∀ s, host.read s = pure (files s)) (opened : host.cache.IsOpen root v)
    (written : entry.IsWritten) (fans : Fans engine host files root v entry given imports)
    (told : TellsAt host.arrival ((host.answers files root v).failure? engine) imports
      (.ofCount imports.length) e time) :
    ∃ n w, (∀ steps, n ≤ steps →
        (link engine host steps entry given none : StateM Volume _) v = (.error e, w)) ∧
      ∀ s ∈ imports, time < host.arrival s → host.cache.entry w s = .ok none := by
  have filled : imports ≠ [] := by
    obtain ⟨s, mem, -⟩ := told.exists_fails
    exact List.ne_nil_of_mem mem
  obtain ⟨events, last, w, reached, stage, ends, n, links⟩ :=
    Run.exists_link_eq engine host entry given
      (fun reached h turn => Stage.turn reads opened written fans told filled reached h turn)
      (fun _ h _ _ => h.loading) (stage_begin opened fans filled time)
  rcases Run.verdict_of_ends reached.toReached (stage.not_starved fans told reached) ends with
    ⟨⟨going, settled⟩, -⟩ | ⟨e', failed, same⟩
  · cases stage with
    | opens _ opens => cases opens.pending.symm.trans settled
    | fetches fetches => cases (fetches.abreast told going).pending.symm.trans settled
  · cases stage with
    | opens _ opens => cases opens.going.symm.trans failed
    | fetches fetches =>
      obtain ⟨fails, missing⟩ := fetches.failure_eq opened written fans told
        (by rw [failed]; exact Option.some_ne_none e')
      cases failed.symm.trans fails
      exact ⟨n, w, same ▸ links, missing⟩

/-! ## Modules of one letter -/

/-- The engine whose modules import one module for every letter of their source. -/
def speller : Engine String Unit where
  compile source _ _ := .ok source
  imports unit := .ok (unit.toList.map fun letter => String.ofList ['.', '/', letter])
  evaluate _ := .ok ()

/-- The module on a server for a letter. -/
def letterModule (letter : Char) : Specifier := ⟨.https, ⟨[], ['h'], none⟩, ['/', letter], none⟩

/-- A host with a server that fails for two modules, later for the first one than for the second, and
that sends the others later still. -/
def letterHost : Host (StateM Volume) where
  read s := return .error (.localNotFound s.text s.pathText)
  readsAtOnce := true
  reply s :=
    if s = letterModule 'a' then .after 20 (.ok ⟨500, ""⟩)
    else if s = letterModule 'b' then .after 10 (.ok ⟨404, ""⟩)
    else .after 30 (.ok ⟨200, ""⟩)
  timeout := 100
  maxFetches := 64
  cache := ⟨"/"⟩

/-- What the host answers with a cache that has just been made. -/
def letterAnswers (u : Volume) : Answers :=
  letterHost.answers (fun s => .error (.localNotFound s.text s.pathText)) [] u

section Letters

variable (fresh : Store.IsFresh ⟨"/"⟩ [] u)

include fresh

theorem source_letterAnswers (letter : Char) : (letterAnswers u).source (letterModule letter) =
    ((letterHost.reply (letterModule letter)).settled (letterModule letter) 100).bind fun body =>
      ((letterAnswers u).store (letterModule letter)).map fun _ => body :=
  Answers.source_of_missed rfl ((answers_lookUp ..).trans (fresh.entry_eq_none _))

/-- The modules that the server sends are empty. -/
theorem eq_empty_of_letterAnswers {letter : Char} {body : String}
    (source : (letterAnswers u).source (letterModule letter) = .ok body) : body = "" := by
  rw [source_letterAnswers fresh] at source
  generalize letterModule letter = s at source
  have sent : (letterHost.reply s).settled s 100 = .error (.fetchStatus s.text 500) ∨
      (letterHost.reply s).settled s 100 = .error (.fetchStatus s.text 404) ∨
      (letterHost.reply s).settled s 100 = .ok "" := by
    unfold letterHost
    dsimp only
    split
    · exact .inl rfl
    · split
      · exact .inr (.inl rfl)
      · exact .inr (.inr rfl)
  generalize (letterAnswers u).store s = stored at source
  rcases sent with sent | sent | sent <;> rw [sent] at source
  · cases source
  · cases source
  · cases stored with
    | error e => cases source
    | ok => exact (Except.ok.inj source).symm

theorem fans_letterHost (letters : String) (few : letters.length ≤ 64) (other : '_' ∉ letters.toList)
    (plain : letters.toList.all fun letter => (letterModule letter).media = .javaScript)
    (resolved : (resolveAll (letterModule '_') (letters.toList.map fun letter =>
      String.ofList ['.', '/', letter])).toOption = some (letters.toList.map letterModule)) :
    Fans speller letterHost (fun s => .error (.localNotFound s.text s.pathText)) [] u
      (letterModule '_') (some letters) (letters.toList.map letterModule) where
  loads := by
    refine ⟨_, letters, Answers.sourceIn_entry .., rfl, ?_⟩
    show resolveAll (letterModule '_') (letters.toList.map fun letter =>
      String.ofList ['.', '/', letter]) = _
    generalize resolveAll (letterModule '_') (letters.toList.map fun letter =>
      String.ofList ['.', '/', letter]) = found at resolved ⊢
    cases found with
    | error e => cases resolved
    | ok imports => rw [Option.some.inj resolved]
  other mem := by
    obtain ⟨letter, mem, same⟩ := List.mem_map.mp mem
    cases same
    exact other mem
  remote s mem := by
    obtain ⟨letter, -, rfl⟩ := List.mem_map.mp mem
    rfl
  uncached s _ := fresh.entry_eq_none s
  few := by
    rw [List.length_map]
    exact few
  leaf s mem r ok := by
    obtain ⟨letter, listed, rfl⟩ := List.mem_map.mp mem
    have own : (outcome speller (letterModule letter) false
      ((letterAnswers u).source (letterModule letter))).1 = .ok r := ok
    have empty (body : String) (source : (letterAnswers u).source (letterModule letter) = .ok body) :
        body = "" := eq_empty_of_letterAnswers fresh source
    generalize (letterAnswers u).source (letterModule letter) = source at own empty
    cases source with
    | error e => cases own
    | ok body =>
      obtain rfl := empty body rfl
      rw [outcome_ok] at own
      obtain ⟨-, -, -, -, -, -, code, compiled⟩ := build_spec own
      have script := of_decide_eq_true (List.all_eq_true.mp plain letter listed)
      rw [executable, script, if_neg (by decide)] at code
      have unit : r.unit = "" := (Except.ok.inj compiled).symm.trans (Except.ok.inj code).symm
      show resolveAll r.specifier (r.unit.toList.map _) = _
      rw [unit]
      rfl

theorem failure?_letterAnswers {letter : Char} {e : LoadError}
    (fails : (letterHost.reply (letterModule letter)).settled (letterModule letter) 100 = .error e) :
    (letterAnswers u).failure? speller (letterModule letter) = some e := by
  unfold Answers.failure?
  rw [source_letterAnswers fresh, fails]
  rfl

end Letters

/-- Of three modules the failure is told that arrives first; of more than thirty it is not, because the
first import fails later. -/
theorem link_tells_letters :
    ∃ u, (∃ n w, (∀ steps, n ≤ steps →
        (link speller letterHost steps (letterModule '_') (some "abc") none : StateM Volume _) u =
          (.error (.fetchStatus "https://h/b" 404), w)) ∧
        Store.entry ⟨"/"⟩ w (letterModule 'c') = .ok none) ∧
      ∃ n w, (∀ steps, n ≤ steps →
        (link speller letterHost steps (letterModule '_') (some "abcdefghijklmnopqrstuvwxyz01234") none :
          StateM Volume _) u = (.error (.fetchStatus "https://h/a" 500), w)) ∧
        Store.entry ⟨"/"⟩ w (letterModule 'c') = .ok none := by
  obtain ⟨u, -, fresh⟩ := Store.exists_isFresh
  have written : (letterModule '_').IsWritten :=
    ⟨⟨by decide, .inl rfl, by decide, by decide, fun mem => absurd mem (by decide)⟩, ⟨rfl, by decide⟩⟩
  have opened := fresh.isKept.isOpen
  have first : (letterAnswers u).failure? speller (letterModule 'a') =
      some (.fetchStatus "https://h/a" 500) := failure?_letterAnswers fresh rfl
  have second : (letterAnswers u).failure? speller (letterModule 'b') =
      some (.fetchStatus "https://h/b" 404) := failure?_letterAnswers fresh rfl
  have late : letterHost.arrival (letterModule 'b') < letterHost.arrival (letterModule 'a') ∧
      letterHost.arrival (letterModule 'a') < letterHost.arrival (letterModule 'c') := by decide +kernel
  have few := fans_letterHost fresh "abc" (by decide) (by decide) (by decide +kernel)
    (by decide +kernel)
  have many := fans_letterHost fresh "abcdefghijklmnopqrstuvwxyz01234" (by decide)
    (by decide) (by decide +kernel) (by decide +kernel)
  have mem (letter : Char) (letters : String) (mem : letter ∈ letters.toList) :
      letterModule letter ∈ letters.toList.map letterModule := List.mem_map_of_mem mem
  obtain ⟨n, w, links, missing⟩ := link_tells (fun _ => rfl) opened written few
    (.eager (mem 'b' "abc" (by decide)) second fun t listed _ => by
      have listed : t ∈ ['a', 'b', 'c'].map letterModule := listed
      rcases List.mem_cons.mp listed with rfl | listed
      · exact .inr late.1
      rcases List.mem_cons.mp listed with rfl | listed
      · exact .inl rfl
      · rw [List.mem_singleton.mp listed]
        exact .inr (late.1.trans late.2))
  obtain ⟨n', w', links', missing'⟩ := link_tells (fun _ => rfl) opened written many
    (.ordered (show _ = [] ++ letterModule 'a' :: _ from rfl) first fun _ mem => by cases mem)
  exact ⟨u, ⟨n, w, links, missing _ (mem 'c' "abc" (by decide)) (late.1.trans late.2)⟩, n', w', links',
    missing' _ (mem 'c' _ (by decide)) late.2⟩

end Host

end ModuleLinker.Link
