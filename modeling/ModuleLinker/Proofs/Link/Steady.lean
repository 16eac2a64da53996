import ModuleLinker.Proofs.Link.Answers
import ModuleLinker.Proofs.Link.Host
import ModuleLinker.Proofs.Link.Imports

/-!
# What a host answers

A host whose local modules do not change has one answer for each module (`Host.answers`), and a run on
it that has met no failure is given these answers, in whatever order its events come
(`Host.Steady.gives`): what the cache has for a module, and what comes of putting the module into it,
does not depend on what has been put into the cache for other modules in the meantime.
-/

set_option autoImplicit false

namespace ModuleLinker.Link

open Files Cache

variable {U V : Type}

/-- What an entry needs is in the written form of a specifier, if that of the entry is. -/
theorem Answers.Needs.isWritten {a : Answers} {engine : Engine U V} {entry : Specifier}
    {given : Option String} (written : entry.IsWritten) {s : Specifier}
    (needs : a.Needs engine entry given s) : s.IsWritten := by
  induction needs with
  | refl => exact written
  | tail _ imported ih =>
    obtain ⟨r, imports, loads, mem⟩ := imported
    have same := loads.specifier
    obtain ⟨-, -, -, resolved⟩ := loads
    exact isWritten_of_importsOf (same ▸ ih) resolved mem

/-- Whether the fetch of a module may have put it into the cache. -/
def Phase.isStored : Phase → Bool
  | storing .. | loaded | failed _ => true
  | _ => false

/-- Whether the server has been asked for a module, as far as it has to be. -/
def Phase.isAsked : Phase → Bool
  | requested _ | storing .. | loaded | failed _ => true
  | _ => false

/-! ## Phases along events -/

namespace Run

/-- How the load of a module can go on in one event. -/
inductive Goes (engine : Engine U V) (entry : Specifier) (now : Nat) (event : Event) (s : Specifier) :
    Option Phase → Option Phase → Prop
  | same {phase : Option Phase} : Goes engine entry now event s phase phase
  | start : Goes engine entry now event s none (some (firstPhase s))
  | grant : Goes engine entry now event s (some .queued) (some .granted)
  | move {old phase : Phase} {work : List Work} (moves : Moves now s event old phase work) :
      Goes engine entry now event s (some old) (some phase)
  | finish {old : Phase} {work : List Work} {answer : Except LoadError String}
      (ends : Ends s event old work answer) : Goes engine entry now event s (some old)
        (some (.ended (outcome engine s (s == entry) answer).1))

variable {engine : Engine U V} {entry : Specifier} {given : Option String} {cap : Nat}
  {events : List Event} {run next : Run U} {event : Event} {s : Specifier}

/-- How the loads of a run go on in one event, and when. -/
theorem Occurs.goes (occurs : run.Occurs engine event next)
    (kept : run.Kept engine entry given cap events) (going : run.failure = none) :
    (∀ t, Goes engine entry run.now event t (run.phase? t) (next.phase? t)) ∧
      (next.now = run.now ∨ ∃ time, event = .wait time ∧ next.now = max time run.now) := by
  have books {s : Specifier} {old phase : Phase} {work : List Work} {base : Run U}
      (found : run.phase? s = some old) (books : run.Books s phase work base)
      (here : Goes engine entry run.now event s (some old) (some phase)) (t : Specifier) :
      Goes engine entry run.now event t (run.phase? t) (base.phase? t) := by
    by_cases same : t = s
    · subst same
      rw [found, books.here]
      exact here
    · rcases books.others t same with same | ⟨queued, granted⟩
      · rw [same]
        exact .same
      · rw [queued, granted]
        exact .grant
  cases occurs.steps kept.permitted with
  | wait => exact ⟨fun _ => .same, .inr ⟨_, rfl, rfl⟩⟩
  | start idle =>
    refine ⟨fun t => ?_, .inl ?_⟩
    · rcases (kept.orderly going).phase?_start idle t with same | ⟨none, first⟩
      · exact same ▸ .same
      · rw [none, first]
        exact .start
    · obtain ⟨before, s, after, left, g, -, -, -, same⟩ :=
        start_account (kept.orderly going).proper idle
      rw [same, (swept_books _ left).2.2.2.1]
      show (run.startBase s).now = run.now
      unfold startBase
      split
      · rfl
      · split
        · rfl
        · rw [startLoad_eq]
          rfl
  | move awaits moves kept => exact ⟨books awaits.2 kept (.move moves), .inl kept.now⟩
  | close awaits ends base =>
    rw [kept.sound.root] at base ⊢
    refine ⟨fun t => ?_, .inl ((now_deliver ..).trans base.now)⟩
    rw [phase?_deliver]
    exact books awaits.2 base (.finish ends) t

section Goes

variable {now : Nat} {before after : Option Phase}
  (goes : Goes engine entry now event s before after)

include goes

/-- A module that may have been put into the cache stays one. -/
theorem Goes.isStored (stored : before.any Phase.isStored = true) :
    after.any Phase.isStored = true := by
  cases goes with
  | same => exact stored
  | start => cases stored
  | grant => cases stored
  | move moves => cases moves <;> first | rfl | cases stored
  | @finish _ _ answer =>
    generalize (outcome engine s (s == entry) answer).1 = result
    cases result <;> rfl

/-- A module whose server has been asked stays one. -/
theorem Goes.isAsked (asked : before.any Phase.isAsked = true) : after.any Phase.isAsked = true := by
  cases goes with
  | same => exact asked
  | start => cases asked
  | grant => cases asked
  | move moves => cases moves <;> first | rfl | cases asked
  | @finish _ _ answer =>
    generalize (outcome engine s (s == entry) answer).1 = result
    cases result <;> rfl

/-- A module that has been loaded stays so. -/
theorem Goes.of_loaded (loaded : before = some .loaded) : after = some .loaded := by
  cases goes with
  | same => exact loaded
  | start => cases loaded
  | grant => cases loaded
  | move moves => cases moves <;> cases loaded
  | finish ends => cases ends <;> cases loaded

/-- A server has been asked before an event or is asked in it. -/
theorem Goes.requested {since : Nat} (requested : after = some (.requested since)) :
    before = some (.requested since) ∨ (since = now ∧ event = .request s) := by
  cases goes with
  | same => exact .inl requested
  | start =>
    have first := Option.some.inj requested
    unfold firstPhase at first
    split at first <;> cases first
  | grant => cases requested
  | move moves =>
    cases moves with
    | request => cases requested; exact .inr ⟨rfl, rfl⟩
    | _ => cases requested
  | @finish _ _ answer =>
    generalize (outcome engine s (s == entry) answer).1 = result at requested
    cases result <;> cases requested

/-- The event in which a load gets so far that the module may have been put into the cache: a body has
arrived, or the load ends. -/
theorem Goes.stores (unstored : ¬ before.any Phase.isStored = true)
    (stored : after.any Phase.isStored = true) :
    (∃ since body outcome, event = .reply s (.ok body) outcome ∧ before = some (.requested since)) ∨
      ∃ old work answer, before = some old ∧ Ends s event old work answer := by
  cases goes with
  | same => exact absurd stored unstored
  | start =>
    unfold firstPhase at stored
    split at stored <;> cases stored
  | grant => cases stored
  | move moves =>
    cases moves with
    | receive => exact .inl ⟨_, _, _, rfl, rfl⟩
    | _ => cases stored
  | finish ends => exact .inr ⟨_, _, _, rfl, ends⟩

/-- The event in which a load ends, and what it ends with. -/
theorem Goes.closes {phase : Phase} (found : after = some phase) (ended : phase.isActive = false) :
    before = some phase ∨ ∃ old work answer, before = some old ∧ Ends s event old work answer ∧
      phase = .ended (outcome engine s (s == entry) answer).1 := by
  cases goes with
  | same => exact .inl found
  | start =>
    have active := isActive_firstPhase s
    rw [Option.some.inj found, ended] at active
    cases active
  | grant =>
    cases found
    cases ended
  | move moves =>
    have active := moves.isActive.2.1
    rw [Option.some.inj found, ended] at active
    cases active
  | finish ends => exact .inr ⟨_, _, _, rfl, ends, (Option.some.inj found).symm⟩

end Goes

end Run

/-! ## Answers -/

namespace Host

/-- The answers of a host with some local modules and a file system on which its cache is open. -/
def answers (host : Host (StateM Volume)) (files : Specifier → Except LoadError String)
    (root : List String) (v : Volume) : Answers where
  read := files
  lookUp s := ((host.cache.get s : ExceptT LoadError (StateM Volume) _) v).1
  reply s := (host.reply s).settled s host.timeout
  store s := host.cache.putOutcome root s v

theorem answers_lookUp (host : Host (StateM Volume)) (files : Specifier → Except LoadError String)
    (root : List String) (v : Volume) (s : Specifier) : (host.answers files root v).lookUp s =
      ((host.cache.get s : ExceptT LoadError (StateM Volume) (Option String)) v).1 := by
  simp only [answers]

theorem answers_store (host : Host (StateM Volume)) (files : Specifier → Except LoadError String)
    (root : List String) (v : Volume) (s : Specifier) :
    (host.answers files root v).store s = host.cache.putOutcome root s v := by
  simp only [answers]

/-- What holds of a run on a host and of the file system, from its beginning on: the cache is open, only
modules whose fetch has got that far have been put into it, and late replies are still to come. -/
structure Steady (host : Host (StateM Volume)) (root : List String) (v : Volume) (run : Run U)
    (w : Volume) : Prop where
  opened : host.cache.IsOpen root w
  extended : v.Extends w fun q e =>
    ∃ t, (run.phase? t).any Phase.isStored = true ∧ Store.Adds root t q e
  ahead : ∀ s since, run.phase? s = some (.requested since) →
    (host.reply s).IsAhead host.timeout (run.now - since)

variable {engine : Engine U V} {entry : Specifier} {given : Option String} {cap : Nat}
  {host : Host (StateM Volume)} {files : Specifier → Except LoadError String} {root : List String}
  {events : List Event} {run next : Run U} {event : Event} {v w u : Volume} {s : Specifier}

/-- A module that has not got that far has nothing to do with what has been put into the cache. -/
theorem Steady.apart (h : Steady host root v run w)
    (written : ∀ t phase, run.phase? t = some phase → t.IsWritten) (here : s.IsWritten)
    (unstored : (run.phase? s).any Phase.isStored = false) : Store.ApartFrom root s v w := by
  refine h.extended.mono ?_
  rintro q e ⟨t, stored, adds⟩
  obtain ⟨phase', there⟩ : ∃ phase', run.phase? t = some phase' := by
    cases found : run.phase? t with
    | none => rw [found] at stored; cases stored
    | some phase' => exact ⟨phase', rfl⟩
  refine ⟨t, fun same => ?_, adds⟩
  obtain rfl := Specifier.text_injective here (written t phase' there) same
  rw [unstored] at stored
  cases stored

/-- What a host brings about in a run is what it answers. -/
theorem Steady.gives (h : Steady host root v run w) (opened : host.cache.IsOpen root v)
    (reads : ∀ s, host.read s = pure (files s))
    (written : ∀ t phase, run.phase? t = some phase → t.IsWritten)
    (occurs : run.Occurs engine event next) (allows : host.Allows run w event u) :
    (host.answers files root v).Gives event := by
  cases allows with
  | start => trivial
  | request => trivial
  | store => trivial
  | wait => trivial
  | @read s answer _ given =>
    rw [reads] at given
    have same : (files s, w) = (answer, u) := given
    exact (Prod.mk.inj same).1.symm
  | @lookUp s answer _ given =>
    cases occurs with
    | lookUp awaits =>
      have same := Store.get_congr
        (h.apart written (written s _ awaits.2) (by rw [awaits.2]; rfl)) opened h.opened
      show answer = (host.answers files root v).lookUp s
      rw [answers_lookUp, ← same, given]
  | @receive s since body outcome _ requested arrived put =>
    refine ⟨Reply.settled_of_outcome? (h.ahead s since requested) arrived, fun _ => ?_⟩
    have same := Store.putOutcome_congr
      (h.apart written (written s _ requested) (by rw [requested]; rfl)) opened h.opened
    show outcome = (host.answers files root v).store s
    rw [answers_store, ← same]
    obtain ⟨w', done, -⟩ := Store.put_spec h.opened s body
    exact (Prod.mk.inj (put.symm.trans done)).1
  | @refuse s since e outcome requested arrived =>
    exact ⟨Reply.settled_of_outcome? (h.ahead s since requested) arrived, fun ok => by cases ok⟩

/-- What a host makes of the file system in an event: it puts a body into the cache, or nothing. -/
theorem Allows.volume (opened : host.cache.IsOpen root w) (reads : ∀ s, host.read s = pure (files s))
    (allows : host.Allows run w event u) :
    u = w ∨ ∃ s body outcome, event = .reply s (.ok body) outcome ∧ host.cache.IsOpen root u ∧
      w.Extends u (Store.Adds root s) := by
  have onlyReads : host.OnlyReads := fun s v => by
    rw [reads]
    rfl
  rcases allows.puts onlyReads with ⟨-, same⟩ | ⟨s, -, body, outcome, rfl, -, -, put⟩
  · exact .inl same
  · obtain ⟨w', done, opened, extended, -⟩ := Store.put_spec opened s body
    rw [put] at done
    obtain ⟨-, rfl⟩ := Prod.mk.inj done
    exact .inr ⟨s, body, outcome, rfl, opened, extended⟩

/-- What holds of a run on a host is kept by every event, as long as the run waits for all fetches. -/
theorem Steady.occurs (h : Steady host root v run w) (reads : ∀ s, host.read s = pure (files s))
    (kept : run.Kept engine entry given cap events) (going : run.failure = none)
    (awaited : ∀ s since, run.phase? s = some (.requested since) → s ∈ run.pending.awaited)
    (occurs : run.Occurs engine event next) (allows : host.Allows run w event u) :
    Steady host root v next u := by
  obtain ⟨goes, clock⟩ := occurs.goes kept going
  have old : v.Extends w fun q e =>
      ∃ t, (next.phase? t).any Phase.isStored = true ∧ Store.Adds root t q e := by
    refine h.extended.mono ?_
    rintro q e ⟨t, stored, adds⟩
    exact ⟨t, (goes t).isStored stored, adds⟩
  have ahead : ∀ s since, next.phase? s = some (.requested since) →
      (host.reply s).IsAhead host.timeout (next.now - since) := by
    intro s since requested
    rcases (goes s).requested requested with before | ⟨rfl, asked⟩
    · rcases clock with now | ⟨time, rfl, now⟩
      · rw [now]
        exact h.ahead s since before
      · rw [now]
        cases allows with
        | wait prompt =>
          exact prompt s since ⟨awaited s since before, before⟩
    · -- The server has only just been asked.
      have now : next.now = run.now := by
        rcases clock with now | ⟨time, same, -⟩
        · exact now
        · rw [asked] at same
          cases same
      rintro delay answer - late
      omega
  rcases allows.volume h.opened reads with rfl | ⟨s, body, outcome, rfl, opened, extended⟩
  · exact ⟨h.opened, old, ahead⟩
  · refine ⟨opened, old.trans (extended.mono fun q e adds => ⟨s, ?_, adds⟩), ahead⟩
    cases occurs with
    | receive awaits =>
      have requested : (run.exchange s).phase? s = some (.requested _) := awaits.2
      rw [Run.received, Run.phase?_setPhase, if_pos rfl, requested]
      rfl

/-! ## Runs without failures -/

/-- What is known of a run on a host that has met no failure. -/
structure Informed (engine : Engine U V) (host : Host (StateM Volume))
    (files : Specifier → Except LoadError String) (root : List String) (v : Volume)
    (entry : Specifier) (given : Option String) (events : List Event) (run : Run U) (w : Volume) :
    Prop where
  hopeful : run.Hopeful engine
  gives : ∀ event ∈ events, (host.answers files root v).Gives event
  answered : run.Answered (host.answers files root v) events
  steady : Steady host root v run w

/-- What a run without failures loads is needed. -/
theorem Informed.needs (h : Informed engine host files root v entry given events run w)
    (kept : run.Kept engine entry given cap events) (calm : run.Calm) {phase : Phase}
    (found : run.phase? s = some phase) : (host.answers files root v).Needs engine entry given s := by
  refine h.answered.needs kept.sound h.hopeful ?_
  cases active : phase.isActive with
  | true => exact .inr ⟨_, h.hopeful.owned s phase found active, rfl⟩
  | false =>
    cases phase with
    | loaded => exact .inl ((kept.orderly calm.1).loaded s found)
    | failed e => exact absurd found (h.hopeful.unfailed s e)
    | _ => cases active

/-- What a run without failures loads is in the written form of a specifier. -/
theorem Informed.isWritten (h : Informed engine host files root v entry given events run w)
    (kept : run.Kept engine entry given cap events) (calm : run.Calm) (written : entry.IsWritten)
    (t : Specifier) (phase : Phase) (found : run.phase? t = some phase) : t.IsWritten :=
  (h.needs kept calm found).isWritten written

theorem steady_begin (opened : host.cache.IsOpen root v) :
    Steady host root v (Run.begin engine entry given cap) v where
  opened := opened
  extended := .refl v _
  ahead s since requested := by
    have first := Run.phase?_begin requested
    unfold Run.firstPhase at first
    split at first <;> cases first

theorem informed_begin (opened : host.cache.IsOpen root v)
    (calm : (Run.begin engine entry given cap).Calm) :
    Informed engine host files root v entry given [] (Run.begin engine entry given cap) v where
  hopeful := Run.hopeful_begin engine entry given cap calm
  gives event mem := by cases mem
  answered := Run.answered_begin _ engine entry given cap
  steady := steady_begin opened

/-- What happens to a run without failures on a host is what the host answers. -/
theorem Informed.gives_event (h : Informed engine host files root v entry given events run w)
    (kept : run.Kept engine entry given cap events) (calm : run.Calm) (written : entry.IsWritten)
    (opened : host.cache.IsOpen root v) (reads : ∀ s, host.read s = pure (files s))
    (occurs : run.Occurs engine event next) (allows : host.Allows run w event u) :
    (host.answers files root v).Gives event :=
  h.steady.gives opened reads (h.isWritten kept calm written) occurs allows

theorem Informed.occurs (h : Informed engine host files root v entry given events run w)
    (kept : run.Kept engine entry given cap events) (calm : run.Calm) (written : entry.IsWritten)
    (opened : host.cache.IsOpen root v) (reads : ∀ s, host.read s = pure (files s))
    (occurs : run.Occurs engine event next) (allows : host.Allows run w event u)
    (still : next.Calm) :
    Informed engine host files root v entry given (events ++ [event]) next u := by
  have here := h.gives_event kept calm written opened reads occurs allows
  constructor
  case hopeful => exact h.hopeful.occurs kept calm.1 occurs still
  case gives =>
    intro event' mem
    rcases List.mem_append.mp mem with mem | mem
    · exact h.gives event' mem
    · rw [List.mem_singleton.mp mem]
      exact here
  case answered => exact h.answered.occurs kept calm.1 occurs here
  case steady =>
    exact h.steady.occurs reads kept calm.1 (fun s since requested =>
      Run.mem_awaited.mpr ⟨true, h.hopeful.owned s _ requested rfl⟩) occurs allows

/-- What is known of a run on a host that has met no failure, whatever events have led to it. -/
theorem Reached.informed (h : Reached engine host entry given v events run w) (calm : run.Calm)
    (written : entry.IsWritten) (opened : host.cache.IsOpen root v)
    (reads : ∀ s, host.read s = pure (files s)) :
    Informed engine host files root v entry given events run w := by
  have both := h.keepsEvents
    (P := fun events run w => run.Kept engine entry given host.maxFetches events ∧
      (run.Calm → Informed engine host files root v entry given events run w))
    (fun going occurs allows ⟨kept, informed⟩ => ⟨kept.occurs going occurs, fun still => by
      have calm := Run.calm_of_occurs kept going occurs still
      exact (informed calm).occurs kept calm written opened reads occurs allows still⟩)
    ⟨Run.kept_begin engine entry given host.maxFetches, informed_begin opened⟩
  exact both.2 calm

/-- A run on a host meets no failure if all modules that its entry needs can be loaded. -/
theorem Reached.calm (h : Reached engine host entry given v events run w) (written : entry.IsWritten)
    (opened : host.cache.IsOpen root v) (reads : ∀ s, host.read s = pure (files s))
    (complete : (host.answers files root v).Complete engine entry given) : run.Calm := by
  have all := h.keepsEvents
    (P := fun events run w => run.Kept engine entry given host.maxFetches events ∧ run.Calm ∧
      Informed engine host files root v entry given events run w)
    (fun going occurs allows ⟨kept, calm, informed⟩ => by
      have here := informed.gives_event kept calm written opened reads occurs allows
      have still := calm.occurs complete kept informed.hopeful informed.answered occurs here
      exact ⟨kept.occurs going occurs, still,
        informed.occurs kept calm written opened reads occurs allows still⟩)
    (by
      have calm := Run.calm_begin host.maxFetches complete
      exact ⟨Run.kept_begin engine entry given host.maxFetches, calm, informed_begin opened calm⟩)
  exact all.2.1

end Host

end ModuleLinker.Link
