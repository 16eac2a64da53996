import ModuleLinker.Proofs.Link.Hopeful

/-!
# Answers that depend on the module only

What runs come to when every file, every server and the cache has one answer for each module, whoever
asks and whenever (`Answers`). Then a module has one source, one record and one list of imports, and
`Answers.Complete` says that all modules that an entry needs can be loaded. A run whose events bring
these answers knows no others (`Reached.answered`), and it meets no failure if all modules can be
loaded (`Reached.calm`).
-/

set_option autoImplicit false

namespace ModuleLinker.Link

variable {U V : Type}

/-- One answer for each module. -/
structure Answers where
  /-- What comes of reading a local module. -/
  read : Specifier → Except LoadError String
  /-- What comes of looking a module up in the cache. -/
  lookUp : Specifier → Except LoadError (Option String)
  /-- What comes of fetching a module from its server. -/
  reply : Specifier → Except LoadError String
  /-- What comes of putting a module into the cache. -/
  store : Specifier → Except LoadError Unit

namespace Answers

/-- The source of a module, or why there is none. -/
def source (a : Answers) (s : Specifier) : Except LoadError String :=
  if s.isLocal then a.read s
  else
    match a.lookUp s with
    | .error e => .error e
    | .ok (some body) => .ok body
    | .ok none =>
      match a.reply s with
      | .error e => .error e
      | .ok body => (a.store s).map fun _ => body

/-- The source of a module in a run for an entry whose source may be given. -/
def sourceIn (a : Answers) (entry : Specifier) (given : Option String) (s : Specifier) :
    Except LoadError String :=
  match given with
  | some source => if s = entry then .ok source else a.source s
  | none => a.source s

/-- A module that can be loaded: the record that is built from its source, and its imports. -/
def Loads (a : Answers) (engine : Engine U V) (entry : Specifier) (given : Option String)
    (s : Specifier) (r : Record U) (imports : List Specifier) : Prop :=
  ∃ raw, a.sourceIn entry given s = .ok raw ∧ (build engine s (s == entry) raw).1 = .ok r ∧
    importsOf engine r = .ok imports

/-- The modules that an entry needs: the entry, and what needed modules import. -/
def Needs (a : Answers) (engine : Engine U V) (entry : Specifier) (given : Option String)
    (s : Specifier) : Prop :=
  Relation.ReflTransGen
    (fun s t => ∃ r imports, a.Loads engine entry given s r imports ∧ t ∈ imports) entry s

/-- Whether every module that an entry needs can be loaded. -/
def Complete (a : Answers) (engine : Engine U V) (entry : Specifier) (given : Option String) :
    Prop :=
  ∀ s, a.Needs engine entry given s → ∃ r imports, a.Loads engine entry given s r imports

/-- Events that bring these answers. -/
def Gives (a : Answers) : Event → Prop
  | .read s answer => answer = a.read s
  | .lookUp s answer => answer = a.lookUp s
  | .reply s answer outcome => answer = a.reply s ∧ (answer.toBool = true → outcome = a.store s)
  | .start | .request _ | .store _ | .wait _ => True

/-- What the answers are where the load of a module has come as far as a phase. -/
def Expects (a : Answers) (s : Specifier) : Phase → Prop
  | .reading => s.isLocal = true
  | .lookingUp => s.isLocal = false
  | .queued | .granted | .requested _ => s.isLocal = false ∧ a.lookUp s = .ok none
  | .storing body outcome =>
    s.isLocal = false ∧ a.lookUp s = .ok none ∧ a.reply s = .ok body ∧ outcome = a.store s
  | .loaded | .failed _ => True

variable {a : Answers} {engine : Engine U V} {entry : Specifier} {given : Option String}
  {s : Specifier}

theorem source_of_read (isLocal : s.isLocal = true) : a.source s = a.read s := if_pos isLocal

theorem source_of_lookUp (isRemote : s.isLocal = false) {body : String}
    (found : a.lookUp s = .ok (some body)) : a.source s = .ok body := by
  unfold source
  rw [if_neg (by rw [isRemote]; exact Bool.false_ne_true), found]

/-- The source of a module that is fetched is what its server sends, if that can be stored. -/
theorem source_of_missed (isRemote : s.isLocal = false) (missed : a.lookUp s = .ok none) :
    a.source s = (a.reply s).bind fun body => (a.store s).map fun _ => body := by
  unfold source
  rw [if_neg (by rw [isRemote]; exact Bool.false_ne_true), missed]
  cases a.reply s <;> rfl

theorem source_of_reply (isRemote : s.isLocal = false) (missed : a.lookUp s = .ok none) {body : String}
    (reply : a.reply s = .ok body) : a.source s = (a.store s).map fun _ => body := by
  rw [source_of_missed isRemote missed, reply]
  rfl

theorem sourceIn_entry (a : Answers) (entry : Specifier) (source : String) :
    a.sourceIn entry (some source) entry = .ok source := if_pos rfl

/-- The source of a module is its own in a run for an entry, unless it is given. -/
theorem sourceIn_of_not_given (other : given.isSome = true → s ≠ entry) :
    a.sourceIn entry given s = a.source s := by
  unfold sourceIn
  cases given with
  | none => rfl
  | some _ => exact if_neg (other rfl)

/-- A module has one record and one list of imports. -/
theorem Loads.unique {r r' : Record U} {imports imports' : List Specifier}
    (h : a.Loads engine entry given s r imports) (h' : a.Loads engine entry given s r' imports') :
    r = r' ∧ imports = imports' := by
  obtain ⟨raw, source, built, resolved⟩ := h
  obtain ⟨raw', source', built', resolved'⟩ := h'
  rw [source] at source'
  cases source'
  rw [built] at built'
  cases built'
  rw [resolved] at resolved'
  cases resolved'
  exact ⟨rfl, rfl⟩

theorem Loads.specifier {r : Record U} {imports : List Specifier}
    (h : a.Loads engine entry given s r imports) : r.specifier = s := by
  obtain ⟨raw, -, built, -⟩ := h
  exact (build_spec built).1

/-- Whether other answers give every module that an entry needs the same source. -/
def Agrees (a a' : Answers) (engine : Engine U V) (entry : Specifier) (given : Option String) : Prop :=
  ∀ s, a.Needs engine entry given s → a'.sourceIn entry given s = a.sourceIn entry given s

section Agrees

variable {a' : Answers} {r : Record U} {imports : List Specifier}

theorem Agrees.refl (a : Answers) (engine : Engine U V) (entry : Specifier) (given : Option String) :
    a.Agrees a engine entry given := fun _ _ => rfl

/-- What a needed module loads as is the same. -/
theorem Agrees.loads_iff (h : a.Agrees a' engine entry given) (needs : a.Needs engine entry given s) :
    a'.Loads engine entry given s r imports ↔ a.Loads engine entry given s r imports := by
  unfold Loads
  rw [h s needs]

/-- The same modules are needed. -/
theorem Agrees.needs_iff (h : a.Agrees a' engine entry given) :
    a'.Needs engine entry given s ↔ a.Needs engine entry given s := by
  constructor
  · intro needs
    induction needs with
    | refl => exact .refl
    | tail _ imported ih =>
      obtain ⟨r, imports, loads, mem⟩ := imported
      exact ih.tail ⟨r, imports, (h.loads_iff ih).mp loads, mem⟩
  · intro needs
    induction needs with
    | refl => exact .refl
    | tail before imported ih =>
      obtain ⟨r, imports, loads, mem⟩ := imported
      exact ih.tail ⟨r, imports, (h.loads_iff before).mpr loads, mem⟩

theorem Agrees.symm (h : a.Agrees a' engine entry given) : a'.Agrees a engine entry given :=
  fun s needs => (h s (h.needs_iff.mp needs)).symm

/-- All modules can be loaded still. -/
theorem Agrees.complete (h : a.Agrees a' engine entry given) (complete : a.Complete engine entry given) :
    a'.Complete engine entry given := by
  intro s needs
  have needs := h.needs_iff.mp needs
  obtain ⟨r, imports, loads⟩ := complete s needs
  exact ⟨r, imports, (h.loads_iff needs).mpr loads⟩

end Agrees

/-- The answers of a load that moves on. -/
theorem Expects.moves {now : Nat} {event : Event} {old phase : Phase} {work : List Work}
    (h : a.Expects s old) (gives : a.Gives event) (moves : Moves now s event old phase work) :
    a.Expects s phase := by
  cases moves with
  | queue => exact ⟨h, gives.symm⟩
  | grant => exact ⟨h, gives.symm⟩
  | request => exact h
  | receive => exact ⟨h.1, h.2, gives.1.symm, gives.2 rfl⟩

/-- A load ends with the source of the module. -/
theorem Expects.ends {event : Event} {old : Phase} {work : List Work}
    {answer : Except LoadError String} (h : a.Expects s old) (gives : a.Gives event)
    (ends : Ends s event old work answer) : answer = a.source s := by
  cases ends with
  | read => exact gives.trans (source_of_read h).symm
  | unreadable =>
    have isRemote : s.isLocal = false := h
    have answer : Except.error _ = a.lookUp s := gives
    unfold Answers.source
    rw [if_neg (by rw [isRemote]; exact Bool.false_ne_true), ← answer]
  | hit =>
    have found : Except.ok (some _) = a.lookUp s := gives
    exact (source_of_lookUp h found.symm).symm
  | refuse =>
    rw [source_of_missed h.1 h.2, ← gives.1]
    rfl
  | store =>
    obtain ⟨isRemote, missed, reply, stored⟩ := h
    rw [source_of_reply isRemote missed reply, stored]

end Answers

namespace Run

variable {a : Answers} {engine : Engine U V} {entry : Specifier} {given : Option String} {cap : Nat}
  {events : List Event} {run : Run U} {s : Specifier}

/-- What holds of a run whose events bring the answers: its loads expect them, and every source that
an event has brought is that of its module. -/
structure Answered (a : Answers) (events : List Event) (run : Run U) : Prop where
  expects : ∀ s phase, run.phase? s = some phase → a.Expects s phase
  brings : ∀ event ∈ events, ∀ s raw, Brings s raw event → a.source s = .ok raw

theorem Answered.books (h : run.Answered a events) {phase : Phase} {work : List Work} {base : Run U}
    (books : run.Books s phase work base) (here : a.Expects s phase) :
    ∀ t phase, base.phase? t = some phase → a.Expects t phase := by
  intro t phase' found
  by_cases same : t = s
  · subst same
    rw [books.here] at found
    rw [← Option.some.inj found]
    exact here
  · rcases books.others t same with same | ⟨queued, granted⟩
    · exact h.expects t phase' (same.symm.trans found)
    · rw [granted] at found
      rw [← Option.some.inj found]
      exact h.expects t .queued queued

theorem expects_firstPhase (a : Answers) (s : Specifier) :
    a.Expects s (firstPhase s) := by
  unfold firstPhase
  split
  case isTrue here => exact here
  case isFalse other => exact Bool.eq_false_iff.mpr other

theorem expects_ended (a : Answers) (s : Specifier) (result : Except LoadError (Record U)) :
    a.Expects s (.ended result) := by
  cases result <;> trivial

/-- The sources that one more event can bring. -/
theorem Answered.brings_append (h : run.Answered a events) {event : Event}
    (new : ∀ s raw, Brings s raw event → a.source s = .ok raw) :
    ∀ event' ∈ events ++ [event], ∀ s raw, Brings s raw event' → a.source s = .ok raw := by
  intro event' mem
  rcases List.mem_append.mp mem with mem | mem
  · exact h.brings event' mem
  · rw [List.mem_singleton.mp mem]
    exact new

/-- All loads of a run begin in their first phase. -/
theorem phase?_begin {phase : Phase}
    (found : (begin engine entry given cap).phase? s = some phase) : phase = firstPhase s := by
  cases given with
  | some source =>
    have same : begin engine entry (some source) cap =
      (initial entry cap).conclude engine entry (.ok source) := rfl
    rw [same, conclude_eq, phase?_deliver] at found
    cases found
  | none =>
    have same : begin engine entry none cap = (initial entry cap).startLoad entry := rfl
    rw [same, phase?_startLoad (initial entry cap) entry s rfl] at found
    split at found
    case isTrue here =>
      rw [here]
      exact (Option.some.inj found).symm
    case isFalse => cases found

theorem answered_begin (a : Answers) (engine : Engine U V) (entry : Specifier)
    (given : Option String) (cap : Nat) : (begin engine entry given cap).Answered a [] := by
  refine ⟨fun s phase found => ?_, fun event mem => by cases mem⟩
  rw [phase?_begin found]
  exact expects_firstPhase a s

/-- Going on to the first import starts the load of one module at most. -/
theorem Orderly.phase?_start (orderly : run.Orderly entry given) {s' : Specifier}
    (idle : .idle s' ∈ run.pending.tasks) (t : Specifier) :
    run.start.phase? t = run.phase? t ∨
      (run.phase? t = none ∧ run.start.phase? t = some (firstPhase t)) := by
  obtain ⟨before, s, after, left, g, -, -, -, same⟩ := start_account orderly.proper idle
  have phases : run.start.phase? t = (run.startBase s).phase? t := by
    rw [phase?, same, (swept_books _ left).1, phase?]
  rw [phases]
  rcases phase?_startBase run s t with ⟨old, -⟩ | ⟨rfl, -, none, first⟩
  · exact .inl old
  · exact .inr ⟨none, first⟩

theorem Answered.occurs (h : run.Answered a events)
    (kept : run.Kept engine entry given cap events) (going : run.failure = none) {event : Event}
    {next : Run U} (occurs : run.Occurs engine event next) (gives : a.Gives event) :
    next.Answered a (events ++ [event]) := by
  cases occurs.steps kept.permitted with
  | wait => exact ⟨h.expects, h.brings_append fun _ _ brings => by cases brings⟩
  | start idle =>
    refine ⟨fun t phase found => ?_, h.brings_append fun _ _ brings => by cases brings⟩
    rcases (kept.orderly going).phase?_start idle t with old | ⟨-, first⟩
    · exact h.expects t phase (old.symm.trans found)
    · rw [first] at found
      rw [← Option.some.inj found]
      exact expects_firstPhase a t
  | @move _ s old phase work _ awaits moves books =>
    have before := h.expects s old awaits.2
    refine ⟨h.books books (before.moves gives moves), h.brings_append fun t raw brings => ?_⟩
    cases moves with
    | receive =>
      cases brings
      obtain ⟨isRemote, missed⟩ := before
      have stored : Except.ok () = a.store s := gives.2 rfl
      rw [Answers.source_of_reply isRemote missed gives.1.symm, ← stored]
      rfl
    | queue => cases brings
    | grant => cases brings
    | request => cases brings
  | @close _ s old work answer base awaits ends books =>
    have same := (h.expects s old awaits.2).ends gives ends
    refine ⟨fun t phase found => ?_, h.brings_append fun t raw brings => ?_⟩
    · rw [phase?_deliver] at found
      exact h.books books (expects_ended ..) t phase found
    · cases ends with
      | read => cases brings; exact same.symm
      | unreadable => cases brings
      | hit => cases brings; exact same.symm
      | refuse => cases brings
      | store => cases brings

/-- A run whose events bring the answers knows no others. -/
theorem Reached.answered (h : Reached engine entry given cap events run)
    (gives : ∀ event ∈ events, a.Gives event) : run.Answered a events := by
  have both := h.keepsEvents
    (P := fun events run => run.Kept engine entry given cap events ∧
      ((∀ event ∈ events, a.Gives event) → run.Answered a events))
    (fun going occurs ⟨kept, answered⟩ => ⟨kept.occurs going occurs, fun gives =>
      (answered fun event mem => gives event (List.mem_append_left _ mem)).occurs kept going occurs
        (gives _ (List.mem_append_right _ List.mem_cons_self))⟩)
    ⟨kept_begin engine entry given cap, fun _ => answered_begin a engine entry given cap⟩
  exact both.2 gives

/-! ## Records -/

/-- The source that a record is built from is that of its module. -/
theorem sourceIn_of_sourced (brings : ∀ event ∈ events, ∀ s raw, Brings s raw event →
    a.source s = .ok raw) {raw : String} (h : Sourced entry given events s raw) :
    a.sourceIn entry given s = .ok raw := by
  unfold Answers.sourceIn
  rcases h with ⟨rfl, rfl⟩ | ⟨other, event, mem, brought⟩
  · exact if_pos rfl
  · have source := brings event mem s raw brought
    cases given with
    | none => exact source
    | some _ => exact (if_neg fun same => by cases other same).trans source

/-- The records of a run without failures are those of their modules, and so are their imports. -/
theorem Answered.loads (h : run.Answered a events) (sound : run.Sound engine entry given events)
    (hopeful : run.Hopeful engine) {r : Record U} (mem : r ∈ run.graph.records) :
    a.Loads engine entry given r.specifier r.fresh r.dependencies := by
  obtain ⟨raw, sourced, built⟩ := sound.built r mem
  exact ⟨raw, sourceIn_of_sourced h.brings sourced, built, hopeful.resolved r mem⟩

/-- What a run without failures has met is needed. -/
theorem Answered.needs (h : run.Answered a events) (sound : run.Sound engine entry given events)
    (hopeful : run.Hopeful engine) (met : run.Meets s) : a.Needs engine entry given s := by
  have needs := hopeful.needed s met
  rw [Graph.Needs, sound.root] at needs
  refine Relation.ReflTransGen.mono ?_ _ _ needs
  rintro s t ⟨r, mem, rfl, imported⟩
  exact ⟨_, _, h.loads sound hopeful mem, imported⟩

/-! ## Runs in which all modules can be loaded -/

/-- Bringing a record whose imports can be resolved is no failure. -/
theorem Calm.deliver (calm : run.Calm) {r : Record U} {imports : List Specifier}
    (resolved : importsOf engine r = .ok imports) : (run.deliver engine s (.ok r)).Calm := by
  obtain ⟨acts, left, g, account, same⟩ := deliver_account engine run s (.ok r)
  have unfailed : ∀ act ∈ acts, act.fails = false := by
    intro act mem
    cases act with
    | finished _ => rfl
    | visited t v =>
      rw [verdict_of_passes account.passes mem]
      cases t with
      | idle _ => rfl
      | waiting s' owner =>
        rw [deliverVerdict]
        split
        · unfold outcomeVerdict
          cases owner <;> simp [resolved, Act.fails]
        · rfl
  obtain ⟨q, ok, exact⟩ := account.exact calm.2 unfailed
  rw [same]
  cases ok
  exact ⟨calm.1, exact.hopeful⟩

/-- Going on to the first import is no failure while no load has failed. -/
theorem Calm.start (calm : run.Calm) (orderly : run.Orderly entry given)
    (unfailed : ∀ s e, run.phase? s ≠ some (.failed e)) {s' : Specifier}
    (idle : .idle s' ∈ run.pending.tasks) : run.start.Calm := by
  obtain ⟨before, s, after, left, g, account, stay, -, same⟩ := start_account orderly.proper idle
  have failure : (run.startBase s).failure = none := by
    unfold Run.startBase
    split
    · exact calm.1
    · split
      · exact calm.1
      · rw [startLoad_eq]
        exact calm.1
  have none : ∀ act ∈ before ++ .visited (.idle s) (run.startVerdict s) :: after,
      act.fails = false := by
    intro act mem
    rw [List.mem_append, List.mem_cons] at mem
    rcases or_left_comm.mp mem with rfl | mem
    · rcases startVerdict_cases run s with ⟨-, v⟩ | ⟨-, ⟨e, at_, -⟩ | ⟨_, -, -, v⟩ | ⟨-, v⟩⟩
      · rw [v]; rfl
      · exact absurd at_ (unfailed s e)
      · rw [v]; rfl
      · rw [v]; rfl
    · have stays := stay act (List.mem_append.mpr mem)
      cases act with
      | finished _ => rfl
      | visited t v => cases v <;> first | rfl | cases stays
  obtain ⟨q, ok, exact⟩ := account.exact calm.2 none
  rw [same]
  cases ok
  exact ⟨failure, exact.hopeful⟩

/-- A load of a module that can be loaded ends with its record. -/
theorem outcome_of_loads {r : Record U} {imports : List Specifier}
    (loads : a.Loads engine entry given s r imports) (other : given.isSome = true → s ≠ entry)
    {answer : Except LoadError String} (same : answer = a.source s) :
    (outcome engine s (s == entry) answer).1 = .ok r := by
  obtain ⟨raw, source, built, -⟩ := loads
  rw [same, ← Answers.sourceIn_of_not_given other, source]
  exact built

theorem calm_begin (cap : Nat) (complete : a.Complete engine entry given) :
    (begin engine entry given cap).Calm := by
  cases given with
  | some source =>
    have same : begin engine entry (some source) cap =
      (initial entry cap).conclude engine entry (.ok source) := rfl
    obtain ⟨r, imports, raw, source', built, resolved⟩ := complete entry .refl
    have own : raw = source := (Except.ok.inj (source'.symm.trans (if_pos rfl)))
    subst own
    have ended : (outcome engine entry (entry == (initial entry cap : Run U).graph.entry)
      (.ok raw)).1 = .ok r := built
    rw [same, conclude_eq, ended]
    exact Calm.deliver ⟨rfl, rfl⟩ resolved
  | none =>
    have same : begin engine entry none cap = (initial entry cap).startLoad entry := rfl
    rw [same, startLoad_eq]
    exact ⟨rfl, rfl⟩

theorem Calm.occurs (calm : run.Calm) (complete : a.Complete engine entry given)
    (kept : run.Kept engine entry given cap events) (hopeful : run.Hopeful engine)
    (answered : run.Answered a events) {event : Event} {next : Run U}
    (occurs : run.Occurs engine event next) (gives : a.Gives event) : next.Calm := by
  cases occurs.steps kept.permitted with
  | wait => exact calm
  | start idle => exact calm.start (kept.orderly calm.1) hopeful.unfailed idle
  | move awaits moves books =>
    refine ⟨books.failure.trans calm.1, ?_⟩
    rw [books.pending]
    exact calm.2
  | @close _ s old work answer base awaits ends books =>
    have met : run.Meets s := by
      obtain ⟨owner, mem⟩ := mem_awaited.mp awaits.1
      exact .inr ⟨_, mem, rfl⟩
    obtain ⟨r, imports, loads⟩ := complete s (answered.needs kept.sound hopeful met)
    have other : given.isSome = true → s ≠ entry := by
      rintro some rfl
      have none := kept.sound.unloaded some
      rw [awaits.2] at none
      cases none
    have same := (answered.expects s old awaits.2).ends gives ends
    have ok := outcome_of_loads loads other same
    rw [kept.sound.root] at books ⊢
    rw [ok]
    have before : base.Calm := ⟨books.failure.trans calm.1, by rw [books.pending]; exact calm.2⟩
    exact before.deliver loads.choose_spec.2.2

/-- A run whose events bring the answers meets no failure if all modules can be loaded. -/
theorem Reached.calm (h : Reached engine entry given cap events run)
    (complete : a.Complete engine entry given) (gives : ∀ event ∈ events, a.Gives event) :
    run.Calm := by
  have all := h.keepsEvents
    (P := fun events run => run.Kept engine entry given cap events ∧
      ((∀ event ∈ events, a.Gives event) →
        run.Calm ∧ run.Hopeful engine ∧ run.Answered a events))
    (fun going occurs ⟨kept, before⟩ => ⟨kept.occurs going occurs, fun gives => by
      obtain ⟨calm, hopeful, answered⟩ := before fun event mem =>
        gives event (List.mem_append_left _ mem)
      have here := gives _ (List.mem_append_right _ List.mem_cons_self)
      have next := calm.occurs complete kept hopeful answered occurs here
      exact ⟨next, hopeful.occurs kept going occurs next,
        answered.occurs kept going occurs here⟩⟩)
    ⟨kept_begin engine entry given cap, fun _ => by
      have calm := calm_begin cap complete
      exact ⟨calm, hopeful_begin engine entry given cap calm,
        answered_begin a engine entry given cap⟩⟩
  exact (all.2 gives).1

end Run

end ModuleLinker.Link
