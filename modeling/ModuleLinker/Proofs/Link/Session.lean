import ModuleLinker.Proofs.Cache.Entries
import ModuleLinker.Proofs.Link.Drive
import ModuleLinker.Proofs.Link.Schedule

/-!
# Sessions

What becomes of a cache in a session: sources are put into it, modules are fetched, and runs are linked
on hosts that use it, which may be given up after any of their events (`Session`). What the cache has for
a module stays, and what is new has been given to it or has been sent by the server of that very module
(`Session.keeps_entries`). A fetch by itself only takes a reply that is in time. In a run a late reply is
taken as well if it arrives while nobody waits for the fetch (`Overlooked`): its deadline is noticed by
those who wait for it only, and whoever asks for the module next finds the reply.
-/

set_option autoImplicit false

namespace ModuleLinker.Link

open Files Cache

variable {U V : Type}

/-! ## Replies -/

/-- Whether a server sends a text after some time, and says that the request succeeded. -/
def Reply.Sends (reply : Reply) (delay : Nat) (text : String) : Prop :=
  ∃ status, reply = .after delay (.ok ⟨status, text⟩) ∧ isSuccess status = true

theorem sends_of_accept {s : Specifier} {delay : Nat} {answer : Except String Response}
    {text : String} (accepted : accept s answer = .ok text) :
    (Reply.after delay answer).Sends delay text := by
  cases answer with
  | error cause => cases accepted
  | ok response =>
    rw [accept] at accepted
    split at accepted
    case isTrue success =>
      cases accepted
      exact ⟨response.status, rfl, success⟩
    case isFalse => cases accepted

/-- A text that a fetch has come to has been sent, and it has arrived. -/
theorem Reply.sends_of_outcome? {reply : Reply} {s : Specifier} {timeout elapsed : Nat}
    {text : String} (outcome : reply.outcome? s timeout elapsed = some (.ok text)) :
    ∃ delay, reply.Sends delay text ∧ delay ≤ elapsed := by
  cases reply with
  | hang =>
    rw [outcome?] at outcome
    split at outcome
    · cases outcome
    · cases outcome
  | after delay answer =>
    rw [outcome?] at outcome
    split at outcome
    case isTrue arrived => exact ⟨delay, sends_of_accept (Option.some.inj outcome), arrived⟩
    case isFalse =>
      split at outcome
      · cases outcome
      · cases outcome

namespace Host

/-- Whether the server of a module sends a text in time. -/
def Serves (host : Host (StateM Volume)) (s : Specifier) (text : String) : Prop :=
  ∃ delay, (host.reply s).Sends delay text ∧ delay ≤ host.timeout

/-! ## Late replies -/

/-- Whether nobody waits for the fetch of a module while its late reply arrives. -/
structure Overlooks (host : Host (StateM Volume)) (run : Run U) (s : Specifier) (time since delay : Nat) :
    Prop where
  requested : run.phase? s = some (.requested since)
  unawaited : s ∉ run.pending.awaited
  late : host.timeout < delay
  ahead : run.now - since < delay
  arrived : delay ≤ max time run.now - since

/-- Whether nobody has waited for the fetch of a module while its late reply arrived. -/
def Overlooked (engine : Engine U V) (host : Host (StateM Volume)) (entry : Specifier)
    (given : Option String) (events : List Event) (s : Specifier) (delay : Nat) : Prop :=
  ∃ before time after run since, events = before ++ .wait time :: after ∧
    Run.Reached engine entry given host.maxFetches before run ∧ host.Overlooks run s time since delay

/-- Whether events of a run bring a text from the server of a module. -/
structure Brought (engine : Engine U V) (host : Host (StateM Volume)) (entry : Specifier)
    (given : Option String) (events : List Event) (s : Specifier) (text : String) : Prop where
  asked : .request s ∈ events
  accepted : ∃ event ∈ events, text? event = some (s, text)
  sent : ∃ delay, (host.reply s).Sends delay text ∧
    (delay ≤ host.timeout ∨ Overlooked engine host entry given events s delay)

variable {engine : Engine U V} {host : Host (StateM Volume)} {entry : Specifier}
  {given : Option String} {events : List Event} {event : Event} {run next : Run U}
  {root : List String} {u v w : Volume} {s : Specifier} {text : String}

theorem Overlooked.append {delay : Nat} (h : Overlooked engine host entry given events s delay)
    (more : List Event) : Overlooked engine host entry given (events ++ more) s delay := by
  obtain ⟨before, time, after, run, since, split, reached, overlooks⟩ := h
  refine ⟨before, time, after ++ more, run, since, ?_, reached, overlooks⟩
  rw [split, List.append_assoc, List.cons_append]

theorem Brought.append (h : Brought engine host entry given events s text) (more : List Event) :
    Brought engine host entry given (events ++ more) s text := by
  constructor
  case asked => exact List.mem_append_left more h.asked
  case accepted =>
    obtain ⟨event, mem, found⟩ := h.accepted
    exact ⟨event, List.mem_append_left more mem, found⟩
  case sent =>
    obtain ⟨delay, sends, inTime | overlooked⟩ := h.sent
    · exact ⟨delay, sends, .inl inTime⟩
    · exact ⟨delay, sends, .inr (overlooked.append more)⟩

/-- What is known of the fetches that are under way in a run: their servers have been asked, and a late
reply is still to come unless it has been overlooked. -/
structure Watched (engine : Engine U V) (host : Host (StateM Volume)) (entry : Specifier)
    (given : Option String) (events : List Event) (run : Run U) : Prop where
  reached : Run.Reached engine entry given host.maxFetches events run
  kept : run.Kept engine entry given host.maxFetches events
  asked : ∀ s since, run.phase? s = some (.requested since) → .request s ∈ events
  ahead : ∀ s since delay text, run.phase? s = some (.requested since) →
    (host.reply s).Sends delay text → host.timeout < delay →
      run.now - since < delay ∨ Overlooked engine host entry given events s delay

theorem watched_begin (engine : Engine U V) (host : Host (StateM Volume)) (entry : Specifier)
    (given : Option String) :
    Watched engine host entry given [] (Run.begin engine entry given host.maxFetches) := by
  have unasked (s : Specifier) (since : Nat) :
      (Run.begin engine entry given host.maxFetches).phase? s ≠ some (.requested since) := by
    intro requested
    have first := Run.phase?_begin requested
    unfold Run.firstPhase at first
    split at first <;> cases first
  constructor
  case reached => exact .nil _
  case kept => exact Run.kept_begin engine entry given host.maxFetches
  case asked => exact fun s since requested => absurd requested (unasked s since)
  case ahead => exact fun s since _ _ requested => absurd requested (unasked s since)

/-- What is known of the fetches that are under way is kept by every event. -/
theorem Watched.occurs (h : Watched engine host entry given events run) (going : run.failure = none)
    (occurs : run.Occurs engine event next) (allows : host.Allows run v event w) :
    Watched engine host entry given (events ++ [event]) next := by
  obtain ⟨goes, clock⟩ := occurs.goes h.kept going
  constructor
  case reached => exact h.reached.append (.cons going occurs (.nil _))
  case kept => exact h.kept.occurs going occurs
  case asked =>
    intro s since requested
    rcases (goes s).requested requested with before | ⟨-, asked⟩
    · exact List.mem_append_left _ (h.asked s since before)
    · rw [asked]
      exact List.mem_concat_self
  case ahead =>
    intro s since delay text requested sends late
    rcases (goes s).requested requested with before | ⟨rfl, asked⟩
    · rcases h.ahead s since delay text before sends late with ahead | overlooked
      · rcases clock with now | ⟨time, rfl, now⟩
        · rw [now]
          exact .inl ahead
        · rw [now]
          by_cases arrived : delay ≤ max time run.now - since
          · -- Those who wait for a fetch would have noticed its deadline.
            have unawaited : s ∉ run.pending.awaited := by
              intro awaited
              obtain ⟨status, same, -⟩ := sends
              cases allows with
              | wait prompt =>
                have early := prompt s since ⟨awaited, before⟩ delay _ same late
                omega
            exact .inr ⟨events, time, [], run, since, rfl, h.reached,
              before, unawaited, late, ahead, arrived⟩
          · exact .inl (by omega)
      · exact .inr (overlooked.append _)
    · have now : next.now = run.now := by
        rcases clock with now | ⟨time, same, -⟩
        · exact now
        · rw [asked] at same
          cases same
      exact .inl (by omega)

/-! ## Runs -/

/-- What a run on a host makes of the cache. -/
structure Stocked (engine : Engine U V) (host : Host (StateM Volume)) (entry : Specifier)
    (given : Option String) (root : List String) (v : Volume) (events : List Event) (w : Volume) :
    Prop where
  opened : host.cache.IsOpen root w
  staged : ∀ below, w.get? (Store.stagingPlace root ++ below) = v.get? (Store.stagingPlace root ++ below)
  entries : ∀ s, host.cache.entry w s = host.cache.entry v s ∨
    (host.cache.entry v s = .ok none ∧ ∃ t text, t.text = s.text ∧
      host.cache.entry w s = .ok (some text) ∧ Brought engine host entry given events t text)
  unchanged : (∀ event ∈ events, text? event = none) → w = v

/-- A text that arrives has been brought from the server of the module. -/
theorem Watched.brought (h : Watched engine host entry given events run) {since : Nat}
    (found : text? event = some (s, text)) (requested : run.phase? s = some (.requested since))
    (arrived : (host.reply s).outcome? s host.timeout (run.now - since) = some (.ok text)) :
    Brought engine host entry given (events ++ [event]) s text := by
  constructor
  case asked => exact List.mem_append_left _ (h.asked s since requested)
  case accepted => exact ⟨event, List.mem_concat_self, found⟩
  case sent =>
    obtain ⟨delay, sends, elapsed⟩ := Reply.sends_of_outcome? arrived
    refine ⟨delay, sends, ?_⟩
    by_cases late : host.timeout < delay
    · rcases h.ahead s since delay text requested sends late with ahead | overlooked
      · omega
      · exact .inr (overlooked.append _)
    · exact .inl (by omega)

theorem stocked_begin (opened : host.cache.IsOpen root v) :
    Stocked engine host entry given root v [] v where
  opened := opened
  staged _ := rfl
  entries _ := .inl rfl
  unchanged _ := rfl

/-- What a run makes of the cache, one event later. -/
theorem Stocked.occurs (h : Stocked engine host entry given root v events w)
    (watched : Watched engine host entry given events run) (reads : host.OnlyReads)
    (allows : host.Allows run w event u) :
    Stocked engine host entry given root v (events ++ [event]) u := by
  rcases allows.puts reads with
    ⟨other, rfl⟩ | ⟨t, since, text, outcome, rfl, requested, arrived, put⟩
  · refine ⟨h.opened, h.staged, fun s => ?_, fun none => ?_⟩
    · rcases h.entries s with same | ⟨none, t, text, same, some, brought⟩
      · exact .inl same
      · exact .inr ⟨none, t, text, same, some, brought.append _⟩
    · exact h.unchanged fun event mem => none event (List.mem_append_left _ mem)
  · obtain ⟨opened, staged, entries⟩ := h.opened.put_entries put
    have found : text? (.reply t (.ok text) outcome) = some (t, text) := rfl
    have brought := watched.brought found requested arrived
    refine ⟨opened, fun below => (staged below).trans (h.staged below), fun s => ?_, fun none => ?_⟩
    · rcases entries s with same | ⟨written, nothing, some⟩
      · rcases h.entries s with same' | ⟨none, t, text, same', some, brought⟩
        · exact .inl (same.trans same')
        · exact .inr ⟨none, t, text, same', same.trans some, brought.append _⟩
      · rcases h.entries s with same' | ⟨-, t, text, -, some', -⟩
        · exact .inr ⟨same'.symm.trans nothing, t, text, written.symm, some, brought⟩
        · rw [nothing] at some'
          cases some'
    · rw [none _ List.mem_concat_self] at found
      cases found

/-- What a run on a host makes of the cache, whatever events have led to it. -/
theorem Reached.stocked (h : Reached engine host entry given v events run w)
    (opened : host.cache.IsOpen root v) (reads : host.OnlyReads) :
    Stocked engine host entry given root v events w := by
  have both := h.keepsEvents
    (P := fun events run w => Watched engine host entry given events run ∧
      Stocked engine host entry given root v events w)
    (fun going occurs allows both =>
      ⟨both.1.occurs going occurs allows, both.2.occurs both.1 reads allows⟩)
    ⟨watched_begin engine host entry given, stocked_begin opened⟩
  exact both.2

end Host

/-! ## Fetches -/

/-- Fetching a module puts what arrives in time into the cache, and does nothing else. -/
theorem fetch_apply (host : Host (StateM Volume)) (s : Specifier) (v : Volume) :
    (fetch host s : ExceptT LoadError (StateM Volume) String) v =
      if s.isLocal then (.error (.malformedSpecifier s.text "" "not a network specifier"), v)
      else
        match (host.reply s).settled s host.timeout with
        | .error e => (.error e, v)
        | .ok text =>
          ((host.cache.put s text : ExceptT LoadError (StateM Volume) Unit) v).map
            (Except.map fun _ => text) id := by
  have enough := Nat.le_refl ((host.reply s).duration host.timeout)
  obtain ⟨answer, outcome⟩ := Reply.outcome?_duration s enough
  have settled := Reply.settled_of_outcome? (Reply.isAhead_of_le enough) outcome
  unfold fetch
  rw [← settled]
  cases s.isLocal with
  | true => rfl
  | false =>
    rw [if_neg Bool.false_ne_true, if_neg Bool.false_ne_true]
    simp only [outcome]
    cases answer with
    | error e => rfl
    | ok text =>
      dsimp only
      rw [Store.bind_apply]
      rcases (host.cache.put s text : ExceptT LoadError (StateM Volume) Unit) v with ⟨_ | _, w⟩
      · rfl
      · rfl

/-- What a server sends in time is what the fetch comes to. -/
theorem serves_iff (host : Host (StateM Volume)) (s : Specifier) (text : String) :
    host.Serves s text ↔ (host.reply s).settled s host.timeout = .ok text := by
  constructor
  · rintro ⟨delay, ⟨status, sent, success⟩, inTime⟩
    rw [Reply.settled, sent, Reply.arrives?, if_pos inTime]
    simp [accept, success]
  · intro settled
    have enough := Nat.le_refl ((host.reply s).duration host.timeout)
    obtain ⟨answer, outcome⟩ := Reply.outcome?_duration s enough
    have same := Reply.settled_of_outcome? (Reply.isAhead_of_le enough) outcome
    rw [same, settled] at outcome
    obtain ⟨delay, sends, arrived⟩ := Reply.sends_of_outcome? outcome
    refine ⟨delay, sends, ?_⟩
    obtain ⟨status, sent, -⟩ := sends
    rw [sent, Reply.duration] at arrived
    omega

/-- What comes of fetching a module: the reply of its server is taken if it is in time, and else nothing
happens to the file system. -/
theorem fetch_cases (host : Host (StateM Volume)) (s : Specifier) (v : Volume) :
    (((fetch host s : ExceptT LoadError (StateM Volume) String) v).2 = v ∧
        (s.isLocal = true ∨ ∀ text, ¬ host.Serves s text)) ∨
      ∃ text outcome, s.isLocal = false ∧ host.Serves s text ∧
        (host.cache.put s text : ExceptT LoadError (StateM Volume) Unit) v =
          (outcome, ((fetch host s : ExceptT LoadError (StateM Volume) String) v).2) := by
  rw [fetch_apply]
  cases s.isLocal with
  | true => exact .inl ⟨rfl, .inl rfl⟩
  | false =>
    rw [if_neg Bool.false_ne_true]
    cases settled : (host.reply s).settled s host.timeout with
    | error e =>
      refine .inl ⟨rfl, .inr fun text served => ?_⟩
      rw [serves_iff, settled] at served
      cases served
    | ok text =>
      have served := (serves_iff host s text).mpr settled
      refine .inr
        ⟨text, ((host.cache.put s text : ExceptT LoadError (StateM Volume) Unit) v).1, rfl, served, ?_⟩
      simp only [Prod.map_snd, id_eq, Prod.eta]

/-! ## Sessions -/

/-- Something that is done with a cache. -/
inductive Deed (U V : Type) where
  /-- A source is put into it. -/
  | put (s : Specifier) (source : String)
  /-- A module is fetched on a host. -/
  | fetch (host : Host (StateM Volume)) (s : Specifier)
  /-- The modules that an entry imports are linked on a host, with the source of the entry given or not,
  until everything is done or the run is given up. -/
  | link (engine : Engine U V) (host : Host (StateM Volume)) (entry : Specifier)
    (given : Option String) (events : List Event)

namespace Deed

/-- What becomes of the file system when something is done with a cache. -/
def Does (c : Store) (v : Volume) : Deed U V → Volume → Prop
  | put s source, w => ((c.put s source : ExceptT LoadError (StateM Volume) Unit) v).2 = w
  | fetch host s, w => host.cache = c ∧
      ((ModuleLinker.fetch host s : ExceptT LoadError (StateM Volume) String) v).2 = w
  | link engine host entry given events, w => host.cache = c ∧ host.OnlyReads ∧
      ∃ run, host.Reached engine entry given v events run w

/-- Whether a text for a module is given to the cache, or is sent by the server of the module in a fetch
that is made and takes it. -/
def Brings (s : Specifier) (text : String) : Deed U V → Prop
  | put t source => t.text = s.text ∧ source = text
  | fetch host t => t.text = s.text ∧ t.isLocal = false ∧ host.Serves t text
  | link engine host entry given events => ∃ t : Specifier, t.text = s.text ∧
      host.Brought engine entry given events t text

/-- Whether nothing is given to the cache, and no fetch takes a reply. -/
def BringsNothing : Deed U V → Prop
  | put _ _ => False
  | fetch host s => s.isLocal = true ∨ ∀ text, ¬ host.Serves s text
  | link _ _ _ _ events => ∀ event ∈ events, Host.text? event = none

/-- What is done with a cache keeps what the cache has, adds only what is brought, leaves no file behind
that is not published, and does nothing if nothing is brought. -/
structure Keeps (c : Store) (root : List String) (v w : Volume) (deed : Deed U V) : Prop where
  opened : c.IsOpen root w
  staged : ∀ below, w.get? (Store.stagingPlace root ++ below) = v.get? (Store.stagingPlace root ++ below)
  entries : ∀ s, c.entry w s = c.entry v s ∨ (c.entry v s = .ok none ∧
    ∃ text, c.entry w s = .ok (some text) ∧ deed.Brings s text)
  unchanged : deed.BringsNothing → w = v

variable {c : Store} {root : List String} {v w : Volume} {deed : Deed U V}

/-- Linking is such a deed, whatever it comes to. -/
theorem does_link (engine : Engine U V) {host : Host (StateM Volume)} (reads : host.OnlyReads)
    (steps : Nat) (entry : Specifier) (given : Option String) (giveUp : Option Nat) (v : Volume) :
    ∃ events, (link engine host entry given events).Does host.cache v
      ((ModuleLinker.link engine host steps entry given giveUp : StateM Volume _) v).2 := by
  obtain ⟨events, run, reached, -⟩ := Run.link_reached engine host steps entry given giveUp v
  exact ⟨events, rfl, reads, run, reached⟩

/-- Putting a source into the cache keeps what the cache has, whether it is given or sent. -/
theorem keeps_of_put {t : Specifier} {source : String} {outcome : Except LoadError Unit}
    (opened : c.IsOpen root v)
    (put : (c.put t source : ExceptT LoadError (StateM Volume) Unit) v = (outcome, w))
    (brings : ∀ s : Specifier, s.text = t.text → deed.Brings s source)
    (some : ¬ deed.BringsNothing) : deed.Keeps c root v w := by
  obtain ⟨opened, staged, entries⟩ := opened.put_entries put
  refine ⟨opened, staged, fun s => ?_, fun nothing => absurd nothing some⟩
  rcases entries s with same | ⟨same, none, some⟩
  · exact .inl same
  · exact .inr ⟨none, source, some, brings s same⟩

/-- Whatever is done with a cache keeps what the cache has. -/
theorem Does.keeps (does : deed.Does c v w) (opened : c.IsOpen root v) : deed.Keeps c root v w := by
  cases deed with
  | put t source =>
    simp only [Does] at does
    have put : (c.put t source : ExceptT LoadError (StateM Volume) Unit) v =
        (((c.put t source : ExceptT LoadError (StateM Volume) Unit) v).1, w) := by
      rw [← does, Prod.eta]
    exact keeps_of_put opened put (fun s same => ⟨same.symm, rfl⟩) id
  | fetch host t =>
    obtain ⟨rfl, rfl⟩ := does
    rcases fetch_cases host t v with ⟨same, nothing⟩ | ⟨text, outcome, remote, serves, put⟩
    · rw [same]
      exact ⟨opened, fun _ => rfl, fun _ => .inl rfl, fun _ => rfl⟩
    · refine keeps_of_put opened put (fun s same => ⟨same.symm, remote, serves⟩) ?_
      rintro (here | none)
      · rw [remote] at here
        cases here
      · exact none text serves
  | link engine host entry given events =>
    obtain ⟨rfl, reads, run, reached⟩ := does
    obtain ⟨opened, staged, entries, unchanged⟩ := reached.stocked opened reads
    refine ⟨opened, staged, fun s => ?_, unchanged⟩
    rcases entries s with same | ⟨none, t, text, same, some, brought⟩
    · exact .inl same
    · exact .inr ⟨none, text, some, t, same, brought⟩

end Deed

/-- Deeds that are done one after the other with a cache, on hosts that can differ. -/
inductive Session (c : Store) : Volume → List (Deed U V) → Volume → Prop
  | nil (v : Volume) : Session c v [] v
  | cons {v w u : Volume} {deed : Deed U V} {deeds : List (Deed U V)} (does : deed.Does c v w)
      (more : Session c w deeds u) : Session c v (deed :: deeds) u

namespace Session

variable {c : Store} {root : List String} {v w : Volume} {deeds : List (Deed U V)}

/-- Everything that is done in a session keeps what the cache has. -/
theorem keeps_each (session : Session c v deeds w) (opened : c.IsOpen root v)
    {before after : List (Deed U V)} {deed : Deed U V} (split : deeds = before ++ deed :: after) :
    ∃ x y, Session c v before x ∧ deed.Does c x y ∧ Session c y after w ∧ deed.Keeps c root x y := by
  induction session generalizing before with
  | nil => exact absurd split.symm (by simp)
  | @cons v w u first deeds does more ih =>
    cases before with
    | nil =>
      cases split
      exact ⟨v, w, .nil v, does, more, does.keeps opened⟩
    | cons first' before =>
      cases split
      obtain ⟨x, y, session, done, rest, keeps⟩ := ih (does.keeps opened).opened rfl
      exact ⟨x, y, .cons does session, done, rest, keeps⟩

/-- What a cache has after a session it has had before, or it has been brought in the session. -/
theorem keeps_all (session : Session c v deeds w) (opened : c.IsOpen root v) :
    (∀ below, w.get? (Store.stagingPlace root ++ below) = v.get? (Store.stagingPlace root ++ below)) ∧
      ∀ s, c.entry w s = c.entry v s ∨ (c.entry v s = .ok none ∧
        ∃ text, c.entry w s = .ok (some text) ∧ ∃ deed ∈ deeds, deed.Brings s text) := by
  induction session with
  | nil v => exact ⟨fun _ => rfl, fun _ => .inl rfl⟩
  | @cons v w u deed deeds does more ih =>
    obtain ⟨opened, staged, entries, -⟩ := does.keeps opened
    obtain ⟨staged', entries'⟩ := ih opened
    refine ⟨fun below => (staged' below).trans (staged below), fun s => ?_⟩
    rcases entries' s with same' | ⟨none', text', some', deed', mem', brings'⟩
    · rcases entries s with same | ⟨none, text, some, brings⟩
      · exact .inl (same'.trans same)
      · exact .inr ⟨none, text, same'.trans some, deed, List.mem_cons_self, brings⟩
    · rcases entries s with same | ⟨-, text, some, -⟩
      · exact .inr ⟨same.symm.trans none', text', some', deed', List.mem_cons_of_mem _ mem', brings'⟩
      · rw [none'] at some
        cases some

/-- In every session, and in everything that is done in it: what a cache has for a module stays, what is
new has been given to it or has been sent by the server of that module in a fetch that took it, nothing
is left of the files that are written elsewhere, and nothing at all happens when nothing is given and no
fetch takes a reply. -/
theorem keeps_entries (session : Session c v deeds w) (opened : c.IsOpen root v) :
    (∀ before deed after, deeds = before ++ deed :: after → ∃ x y, Session c v before x ∧
        deed.Does c x y ∧ Session c y after w ∧ deed.Keeps c root x y) ∧
      (∀ below, w.get? (Store.stagingPlace root ++ below) = v.get? (Store.stagingPlace root ++ below)) ∧
      ∀ s, c.entry w s = c.entry v s ∨ (c.entry v s = .ok none ∧
        ∃ text, c.entry w s = .ok (some text) ∧ ∃ deed ∈ deeds, deed.Brings s text) :=
  ⟨fun _ _ _ split => session.keeps_each opened split, session.keeps_all opened⟩

/-- A module on a server. -/
def remoteModule : Specifier := ⟨.https, ⟨[], ['h'], none⟩, ['/'], none⟩

/-- A host whose servers have the same source for every module. -/
def quickHost : Host (StateM Volume) :=
  { (Host.cycleHost 0 .hang).toHost with reply := fun _ => .after 5 (.ok ⟨200, "export {};"⟩) }

/-- A session in which two modules that import each other are linked, another module is fetched, and the
same source is given for it: nothing but that source gets into the cache. -/
theorem keeps_entries_cycleHost :
    ∃ w, Session ⟨"/c"⟩ Host.emptyCache
        [.link Engine.inspector (Host.cycleHost 0 .hang).toHost (Run.rootModule "a.js")
          (some "import './b.js';")
          [.start, .read (Run.rootModule "b.js") (.ok "import './a.js';"), .start],
        .fetch quickHost remoteModule, .put remoteModule "export {};"] w ∧
      ∀ s text, Store.entry ⟨"/c"⟩ w s = .ok (some text) →
        Store.entry ⟨"/c"⟩ Host.emptyCache s = .ok (some text) ∨ text = "export {};" := by
  have linked : Deed.Does ⟨"/c"⟩ Host.emptyCache
      (.link Engine.inspector (Host.cycleHost 0 .hang).toHost (Run.rootModule "a.js")
        (some "import './b.js';")
        [.start, .read (Run.rootModule "b.js") (.ok "import './a.js';"), .start]) Host.emptyCache :=
    ⟨rfl, fun _ _ => rfl, Run.cycleRun, Host.reached_cycleHost⟩
  obtain ⟨v, fetched⟩ : ∃ v, Deed.Does ⟨"/c"⟩ Host.emptyCache
      (.fetch quickHost remoteModule : Deed Inspected Inspection) v := ⟨_, rfl, rfl⟩
  obtain ⟨w, given⟩ : ∃ w, Deed.Does ⟨"/c"⟩ v
      (.put remoteModule "export {};" : Deed Inspected Inspection) w := ⟨_, rfl⟩
  have session := Session.cons linked (.cons fetched (.cons given (.nil w)))
  refine ⟨w, session, fun s text some => ?_⟩
  obtain ⟨-, -, entries⟩ := session.keeps_entries Host.isOpen_emptyCache
  rcases entries s with same | ⟨-, text', some', deed, mem, brings⟩
  · exact .inl (same.symm.trans some)
  · right
    rw [some] at some'
    cases some'
    simp only [List.mem_cons, List.not_mem_nil, or_false] at mem
    rcases mem with rfl | rfl | rfl
    · obtain ⟨t, -, brought⟩ := brings
      obtain ⟨event, mem, found⟩ := brought.accepted
      simp only [List.mem_cons, List.not_mem_nil, or_false] at mem
      rcases mem with rfl | rfl | rfl <;> cases found
    · obtain ⟨-, -, delay, ⟨status, sent, -⟩, -⟩ := brings
      cases sent
      rfl
    · exact brings.2.symm

end Session

end ModuleLinker.Link
