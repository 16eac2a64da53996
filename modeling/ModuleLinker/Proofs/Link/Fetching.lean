import ModuleLinker.Proofs.Link.Fetcher
import ModuleLinker.Proofs.Link.Ledger
import ModuleLinker.Proofs.Link.Session

/-!
# The fetches of a run

The fetches of a run on a host are those of a fetcher for which the ticket of a fetch is its module
(`Run.Shows`): each event of the run is at most one event of the fetcher (`Run.Shows.occurs`). A module
that is fetched by itself is a fetch as well (`exists_reached_fetch`). What holds of fetchers therefore
holds of runs, and of all fetches that share their permits (`fetches_lawful`).
-/

set_option autoImplicit false

namespace ModuleLinker.Link

open Files Cache

variable {U V : Type}

/-- Whether a load is a fetch that has not ended. -/
def Phase.isFetch : Phase → Bool
  | queued | granted | requested _ | storing .. => true
  | reading | lookingUp | loaded | failed _ => false

theorem isFetch_ended (result : Except LoadError (Record U)) :
    (Phase.ended result).isFetch = false := by
  cases result <;> rfl

theorem isFetch_firstPhase (s : Specifier) : (Run.firstPhase s).isFetch = false := by
  unfold Run.firstPhase
  split <;> rfl

/-- What the fetches on a host are for. -/
def Host.errands {m : Type → Type} (host : Host m) : Errands Specifier :=
  ⟨id, host.reply, host.timeout⟩

namespace Fetcher

variable {κ : Type} [DecidableEq κ] {f : Fetcher κ} {k : κ}

/-- A fetch that does not wait for a permit can end before or after its permit is given back. -/
theorem leave_release (apart : k ∉ f.permits.queue) (phase : Phase) :
    f.release.leave k phase = (f.leave k phase).release := by
  rcases line : f.permits.queue with _ | ⟨t, more⟩
  · rw [release_of_nil line, release_of_nil (f := f.leave k phase) line]
    rfl
  · rw [line] at apart
    have other : (t, Phase.granted) ≠ (k, phase) := fun same => by
      cases same
      exact apart List.mem_cons_self
    rw [release_of_cons line, release_of_cons (f := f.leave k phase) line]
    unfold leave move
    rw [Multiset.erase_cons_tail _ other, Multiset.erase_comm]

end Fetcher

namespace Run

/-- The fetches among some loads. -/
def fetchesOf (loads : List (Specifier × Phase)) : Multiset (Specifier × Phase) :=
  (loads : Multiset (Specifier × Phase)).filter (·.2.isFetch = true)

/-- Whether the fetches of a run are those of a fetcher. -/
structure Shows (run : Run U) (f : Fetcher Specifier) : Prop where
  permits : f.permits = run.permits
  active : f.active = fetchesOf run.loads
  now : f.now = run.now

variable {run : Run U} {f : Fetcher Specifier} {s : Specifier} {old phase : Phase} {total : Nat}

/-- A run with the same loads, permits and time shows the same fetches. -/
theorem Shows.congr {run' : Run U} (h : run.Shows f) (loads : run'.loads = run.loads)
    (permits : run'.permits = run.permits) (now : run'.now = run.now) : run'.Shows f :=
  ⟨h.permits.trans permits.symm, by rw [loads]; exact h.active, h.now.trans now.symm⟩

/-- The fetch of a module among others, if its load is one. -/
def fetchOf (s : Specifier) (phase : Phase) : Multiset (Specifier × Phase) :=
  if phase.isFetch = true then {(s, phase)} else 0

theorem fetchOf_of_isFetch (is : phase.isFetch = true) : fetchOf s phase = {(s, phase)} := if_pos is

theorem fetchOf_of_not (not : phase.isFetch = false) : fetchOf s phase = 0 :=
  if_neg (by rw [not]; exact Bool.false_ne_true)

/-- The fetch of a module beside the others, before and after its load goes on. -/
theorem exists_others (unique : run.loading.Nodup) (found : run.phase? s = some old) (phase : Phase) :
    ∃ others, fetchesOf run.loads = fetchOf s old + others ∧
      fetchesOf (run.setPhase s phase).loads = fetchOf s phase + others := by
  obtain ⟨others, before, after⟩ := exists_perm_setPhase unique phase found
  refine ⟨fetchesOf others, ?_, ?_⟩
  · rw [fetchesOf, Multiset.coe_eq_coe.mpr before, ← Multiset.cons_coe, Multiset.filter_cons]
    rfl
  · rw [fetchesOf, Multiset.coe_eq_coe.mpr after, ← Multiset.cons_coe, Multiset.filter_cons]
    rfl

/-- A fetch that goes on. -/
theorem Shows.move (h : run.Shows f) (unique : run.loading.Nodup) (found : run.phase? s = some old)
    (was : old.isFetch = true) (becomes : phase.isFetch = true) :
    (s, old) ∈ f.active ∧ (run.setPhase s phase).Shows (f.move s old phase) := by
  obtain ⟨others, before, after⟩ := exists_others unique found phase
  rw [fetchOf_of_isFetch was, ← h.active] at before
  rw [fetchOf_of_isFetch becomes] at after
  refine ⟨by rw [before]; exact Multiset.mem_cons_self .., h.permits, ?_, h.now⟩
  unfold Fetcher.move
  dsimp only
  rw [after, before, Multiset.singleton_add, Multiset.singleton_add, Multiset.erase_cons_head]

/-- A fetch that ends. -/
theorem Shows.leave (h : run.Shows f) (unique : run.loading.Nodup) (found : run.phase? s = some old)
    (was : old.isFetch = true) (ends : phase.isFetch = false) :
    (s, old) ∈ f.active ∧ (run.setPhase s phase).Shows (f.leave s old) := by
  obtain ⟨others, before, after⟩ := exists_others unique found phase
  rw [fetchOf_of_isFetch was, ← h.active] at before
  rw [fetchOf_of_not ends, Multiset.zero_add] at after
  refine ⟨by rw [before]; exact Multiset.mem_cons_self .., h.permits, ?_, h.now⟩
  unfold Fetcher.leave
  dsimp only
  rw [after, before, Multiset.singleton_add, Multiset.erase_cons_head]

/-- A load that is no fetch and does not become one. -/
theorem Shows.setPhase (h : run.Shows f) (unique : run.loading.Nodup) (found : run.phase? s = some old)
    (was : old.isFetch = false) (becomes : phase.isFetch = false) : (run.setPhase s phase).Shows f := by
  obtain ⟨others, before, after⟩ := exists_others unique found phase
  rw [fetchOf_of_not was, Multiset.zero_add] at before
  rw [fetchOf_of_not becomes, Multiset.zero_add] at after
  exact ⟨h.permits, by rw [h.active, after, before], h.now⟩

/-- A load that becomes a fetch. -/
theorem Shows.call (h : run.Shows f) (unique : run.loading.Nodup) (found : run.phase? s = some .lookingUp) :
    (({ run with permits := (run.permits.acquire s).2 } : Run U).setPhase s
      (run.permits.acquire s).1).Shows (f.call s) := by
  have unique : ({ run with permits := (run.permits.acquire s).2 } : Run U).loading.Nodup := unique
  have becomes : (run.permits.acquire s).1.isFetch = true := by
    unfold Permits.acquire
    split <;> rfl
  obtain ⟨others, before, after⟩ := exists_others unique found (run.permits.acquire s).1
  rw [fetchOf_of_not rfl, Multiset.zero_add] at before
  rw [fetchOf_of_isFetch becomes] at after
  unfold Fetcher.call
  rw [h.permits]
  refine ⟨rfl, ?_, h.now⟩
  dsimp only
  rw [after, h.active, Multiset.singleton_add]
  exact congrArg _ before

/-- A permit is given back. -/
theorem Shows.release (h : run.Shows f) (permitted : run.Permitted total) : run.release.Shows f.release := by
  rcases line : run.permits.queue with _ | ⟨t, more⟩
  · rw [release_of_nil line, Fetcher.release_of_nil (h.permits ▸ line)]
    exact ⟨by rw [h.permits], h.active, h.now⟩
  · rw [release_of_cons line, Fetcher.release_of_cons (h.permits ▸ line)]
    have queued : run.phase? t = some .queued := (permitted.waiting t).mp (line ▸ List.mem_cons_self)
    have shows : ({ run with permits := ⟨run.permits.free, more⟩ } : Run U).Shows
        { f with permits := { f.permits with queue := more } } :=
      ⟨by rw [h.permits], h.active, h.now⟩
    exact (shows.move permitted.unique queued rfl rfl).2

/-- A load that ends without a permit. -/
theorem Shows.conclude (h : run.Shows f) (engine : Engine U V) (unique : run.loading.Nodup)
    (found : run.phase? s = some old) (was : old.isFetch = false) (answer : Except LoadError String) :
    (run.conclude engine s answer).Shows f := by
  rw [conclude_eq]
  refine Shows.congr ?_ (loads_deliver ..) (permits_deliver ..) (now_deliver ..)
  refine Shows.setPhase ?_ unique found was (isFetch_ended _)
  exact h.congr rfl rfl rfl

/-- A fetch that gives its permit back and ends. -/
theorem Shows.release_conclude (h : run.Shows f) (engine : Engine U V)
    (permitted : run.Permitted total) (found : run.phase? s = some old) (holds : old.holds = true)
    (was : old.isFetch = true) (answer : Except LoadError String) :
    (s, old) ∈ f.active ∧ (run.release.conclude engine s answer).Shows (f.leave s old).release := by
  have unqueued : old ≠ .queued := Permits.ne_queued_of_holds holds
  have apart : s ∉ f.permits.queue := by
    rw [h.permits, permitted.waiting, found]
    exact fun same => unqueued (Option.some.inj same)
  have still : run.release.phase? s = some old := by
    rcases permitted.phase?_release s with same | ⟨queued, -⟩
    · rw [same, found]
    · rw [found] at queued
      exact absurd (Option.some.inj queued) unqueued
  have left : (s, old) ∈ f.active ∧ (run.setPhase s .loaded).Shows (f.leave s old) :=
    h.leave permitted.unique found was rfl
  refine ⟨left.1, ?_⟩
  rw [conclude_eq, ← Fetcher.leave_release apart]
  refine Shows.congr ?_ (loads_deliver ..) (permits_deliver ..) (now_deliver ..)
  have noted : (run.release.note (outcome engine s (s == run.release.graph.entry) answer).2).Shows
      f.release := (h.release permitted).congr rfl rfl rfl
  exact (noted.leave permitted.release.unique still was (isFetch_ended _)).2

/-! ## Events -/

/-- A load that is started is no fetch. -/
theorem Shows.startLoad (h : run.Shows f) (s : Specifier) : (run.startLoad s).Shows f := by
  rw [startLoad_eq]
  refine ⟨h.permits, ?_, h.now⟩
  show f.active = fetchesOf (run.loads ++ [(s, firstPhase s)])
  rw [h.active, fetchesOf, fetchesOf, ← Multiset.coe_add, Multiset.filter_add,
    Multiset.coe_singleton, Multiset.filter_singleton, isFetch_firstPhase]
  exact (Multiset.add_zero _).symm

theorem Shows.startBase (h : run.Shows f) (s : Specifier) : (run.startBase s).Shows f := by
  unfold Run.startBase
  split
  · exact h
  · split
    · exact h
    · exact h.startLoad s

theorem Shows.start (h : run.Shows f) : run.start.Shows f := by
  obtain ⟨acts, account⟩ := Pending.exists_account startVisit finishFlagged .eager
    run.pending (run, false)
  have kept := account.passes.keeps (P := fun a => a.1.Shows f) ?_ ?_ h
  · obtain ⟨loads, permits, -, now, -⟩ := swept_books
      (run.pending.sweep startVisit finishFlagged .eager (run, false)).2.1
      (run.pending.sweep startVisit finishFlagged .eager (run, false)).1
    exact kept.congr loads permits now
  · rintro t ⟨run, flag⟩ h
    cases flag with
    | true => rw [startVisit_flagged]; exact h
    | false =>
      cases t with
      | waiting s owner => exact h
      | idle s => rw [startVisit_idle]; exact h.startBase s
  · exact fun s a h => h.congr rfl rfl rfl

/-- An event of a run on a host is at most one event of its fetches. -/
theorem Shows.occurs {host : Host (StateM Volume)} {engine : Engine U V} {event : Event} {next : Run U}
    {v w : Volume} (h : run.Shows f) (permitted : run.Permitted total)
    (isRemote : ∀ s, run.phase? s = some .lookingUp → s.isLocal = false)
    (occurs : run.Occurs engine event next) (allows : host.Allows run v event w) :
    ∃ events g, Fetcher.Leads host.errands f events g ∧ next.Shows g := by
  -- Nothing happens to the fetches until a module is not found in the cache.
  have nothing {next : Run U} (shows : next.Shows f) :
      ∃ events g, Fetcher.Leads host.errands f events g ∧ next.Shows g := ⟨[], f, .nil f, shows⟩
  have once {next : Run U} {event : Fetcher.Event Specifier} {g : Fetcher Specifier}
      (occurs : f.Occurs host.errands event g) (shows : next.Shows g) :
      ∃ events g, Fetcher.Leads host.errands f events g ∧ next.Shows g :=
    ⟨[event], g, .cons occurs (.nil g), shows⟩
  have unique := permitted.unique
  cases occurs with
  | start _ => exact nothing h.start
  | @read s answer awaits =>
    have h : (run.endExchange s).Shows f := h.congr rfl rfl rfl
    exact nothing (h.conclude engine unique awaits.2 rfl answer)
  | @lookUp s answer awaits =>
    have h : (run.endExchange s).Shows f := h.congr rfl rfl rfl
    match answer with
    | .error e =>
      have ended := h.conclude engine unique awaits.2 rfl (.error e)
      exact nothing ended
    | .ok (some source) =>
      have h : ((run.endExchange s).note [.hit s]).Shows f := h.congr rfl rfl rfl
      have ended := h.conclude engine unique awaits.2 rfl (.ok source)
      exact nothing ended
    | .ok none =>
      have called : (run.lookedUp engine s (.ok none)).Shows (f.call s) :=
        (h.call unique awaits.2).congr rfl rfl rfl
      exact once (.call (isRemote s awaits.2)) called
  | @request s awaits =>
    have noted : (run.note [.get s]).Shows f := h.congr rfl rfl rfl
    have moved : _ ∧ (run.request s).Shows (f.move s .granted (.requested run.now)) :=
      noted.move unique awaits.2 rfl rfl
    rw [← h.now] at moved
    exact once (.ask moved.1) moved.2
  | @receive s since body outcome awaits =>
    cases allows with
    | receive requested arrived _ =>
      cases awaits.2.symm.trans requested
      have waits : (run.exchange s).Shows f := h.congr rfl rfl rfl
      have moved : _ ∧ (run.received s body outcome).Shows
          (f.move s (.requested since) (.storing body outcome)) :=
        waits.move unique awaits.2 rfl rfl
      rw [← h.now] at arrived
      exact once (.receive moved.1 arrived) moved.2
  | @refuse s since e _ awaits =>
    cases allows with
    | refuse requested arrived =>
      cases awaits.2.symm.trans requested
      obtain ⟨mem, left⟩ := h.release_conclude engine permitted awaits.2 rfl rfl (.error e)
      rw [← h.now] at arrived
      exact once (.refuse mem arrived) ⟨left.permits, left.active, left.now⟩
  | @store s body outcome awaits =>
    have h : (run.endExchange s).Shows f := h.congr rfl rfl rfl
    have permitted : (run.endExchange s).Permitted total := permitted.congr rfl rfl
    obtain ⟨mem, left⟩ := h.release_conclude engine permitted awaits.2 rfl rfl
      (outcome.map fun _ => body)
    exact once (.store mem) ⟨left.permits, left.active, left.now⟩
  | @wait time => exact once .wait ⟨h.permits, h.active, congrArg (max time) h.now⟩

/-- Only a remote module is looked up in the cache. -/
theorem isRemote_of_lookingUp {engine : Engine U V} {isEntry : Bool} {events : List Event}
    {log seen : List Work} (h : Logged engine isEntry events s .lookingUp log seen) :
    s.isLocal = false := by
  cases h with
  | lookingUp isRemote => exact isRemote
  | ended _ same => exact absurd same (ne_ended rfl _)

theorem shows_begin (engine : Engine U V) (entry : Specifier) (given : Option String) (cap : Nat) :
    (begin engine entry given cap).Shows (.idle cap) := by
  have start : (initial entry cap : Run U).Shows (.idle cap) := ⟨rfl, rfl, rfl⟩
  cases given with
  | some source =>
    show ((initial entry cap).conclude engine entry (.ok source)).Shows _
    rw [conclude_eq]
    exact start.congr (loads_deliver ..) (permits_deliver ..) (now_deliver ..)
  | none =>
    exact start.startLoad entry

end Run

/-- What happens in a run on a host happens to the fetches of a fetcher. -/
theorem Host.Reached.exists_fetcher {engine : Engine U V} {host : Host (StateM Volume)} {entry : Specifier}
    {given : Option String} {v w : Volume} {events : List Event} {run : Run U}
    (h : Reached engine host entry given v events run w) :
    ∃ steps f, Fetcher.Reached host.errands host.maxFetches steps f ∧ run.Shows f := by
  refine h.keeps (P := fun _ run _ => ∃ steps f,
    Fetcher.Reached host.errands host.maxFetches steps f ∧ run.Shows f) ?_
    ⟨[], _, .nil _, Run.shows_begin engine entry given host.maxFetches⟩
  rintro done run u event next w reached going occurs allows ⟨steps, f, reaches, shows⟩
  have isRemote (s : Specifier) (found : run.phase? s = some .lookingUp) : s.isLocal = false :=
    Run.isRemote_of_lookingUp (reached.toReached.ledger.begun s _ found)
  obtain ⟨more, g, leads, shows⟩ :=
    shows.occurs reached.toReached.kept.permitted isRemote occurs allows
  exact ⟨steps ++ more, g, reaches.append leads, shows⟩

/-! ## A fetch by itself -/

namespace Fetcher

variable {κ : Type} [DecidableEq κ] {f : Fetcher κ} {k : κ} {old phase : Phase}

theorem active_move (alone : f.active = {(k, old)}) : (f.move k old phase).active = {(k, phase)} := by
  unfold move
  dsimp only
  rw [alone, ← Multiset.cons_zero, Multiset.erase_cons_head, Multiset.cons_zero]

/-- Nothing is under way when the only fetch has ended. -/
theorem active_finish (alone : f.active = {(k, phase)}) (none : f.permits.queue = [])
    (result : Except LoadError String) : (f.finish k phase result).active = 0 := by
  unfold finish
  dsimp only
  rw [release_of_nil (f := f.leave k phase) none]
  show f.active.erase (k, phase) = 0
  rw [alone, ← Multiset.cons_zero, Multiset.erase_cons_head]

/-- The first fetch gets a permit and asks the server at once; then time can go on. -/
theorem exists_reached_ask (errands : Errands κ) (isRemote : (errands.module k).isLocal = false)
    (cap time : Nat) :
    ∃ f, Reached errands cap [.call k, .ask k, .wait time] f ∧ f.active = {(k, .requested 0)} ∧
      f.permits.queue = [] ∧ f.ended = [] ∧ f.now = time := by
  have taken : (Permits.ofCap cap : Permits κ).acquire k = (.granted, ⟨max cap 1 - 1, []⟩) :=
    if_neg (by show max cap 1 ≠ 0; omega)
  have granted : ((idle cap).call k).active = {(k, .granted)} := by
    show (k, ((Permits.ofCap cap).acquire k).1) ::ₘ (0 : Multiset _) = _
    rw [taken, Multiset.cons_zero]
  have line : ((idle cap).call k).permits.queue = [] := by
    show ((Permits.ofCap cap : Permits κ).acquire k).2.queue = []
    rw [taken]
  have mem : (k, .granted) ∈ ((idle cap).call k).active := by
    rw [granted]
    exact Multiset.mem_singleton_self _
  exact ⟨_, .cons (.call isRemote) (.cons (.ask mem) (.cons .wait (.nil _))),
    active_move granted, line, rfl, Nat.max_zero time⟩

end Fetcher

/-- Fetching a module by itself is a fetch among no others, which comes to the same. -/
theorem exists_reached_fetch (host : Host (StateM Volume)) (s : Specifier) (v : Volume) (cap : Nat) :
    ∃ steps f, Fetcher.Reached host.errands cap steps f ∧ f.active = 0 ∧
      f.ended = [(s, ((fetch host s : ExceptT LoadError (StateM Volume) String) v).1)] := by
  rw [fetch_apply]
  cases place : s.isLocal with
  | true =>
    rw [if_pos rfl]
    exact ⟨[.call s], _, .cons (.reject place) (.nil _), rfl, rfl⟩
  | false =>
    rw [if_neg Bool.false_ne_true]
    have enough := Nat.le_refl ((host.reply s).duration host.timeout)
    obtain ⟨answer, outcome⟩ := Reply.outcome?_duration s enough
    rw [← Reply.settled_of_outcome? (Reply.isAhead_of_le enough) outcome]
    obtain ⟨f, reached, asked, line, ended, now⟩ :=
      Fetcher.exists_reached_ask host.errands place cap ((host.reply s).duration host.timeout)
    have mem : (s, Phase.requested 0) ∈ f.active := by
      rw [asked]
      exact Multiset.mem_singleton_self _
    have arrived : host.errands.outcome? s (f.now - 0) = some answer := by
      rw [now]
      exact outcome
    cases answer with
    | error e =>
      refine ⟨_, _, reached.append (.cons (.refuse mem arrived) (.nil _)),
        Fetcher.active_finish asked line _, ?_⟩
      exact congrArg (· ++ [(s, .error e)]) ended
    | ok body =>
      dsimp only
      generalize (host.cache.put s body : ExceptT LoadError (StateM Volume) Unit) v = put
      have received : (f.move s (.requested 0) (.storing body put.1)).active =
        {(s, .storing body put.1)} := Fetcher.active_move asked
      have mem' : (s, Phase.storing body put.1) ∈
          (f.move s (.requested 0) (.storing body put.1)).active := by
        rw [received]
        exact Multiset.mem_singleton_self _
      refine ⟨_, _, reached.append (.cons (.receive mem arrived) (.cons (.store mem') (.nil _))),
        Fetcher.active_finish received line _, ?_⟩
      exact congrArg (· ++ [(s, put.1.map fun _ => body)]) ended

/-! ## All fetches -/

/-- However many fetches share permits, and whatever becomes of them: the permits are respected and none is
lost, the clock of a fetch starts when it has a permit, and what it comes to is its reply if that is sent
within the deadline (`Fetcher.Lawful`). The fetches of a run on a host are such fetches at every point, and
so is a fetch by itself. -/
theorem fetches_lawful (engine : Engine U V) (host : Host (StateM Volume)) :
    (∀ (κ : Type) [DecidableEq κ] (errands : Errands κ) (cap : Nat) (steps : List (Fetcher.Event κ))
      (f : Fetcher κ), Fetcher.Reached errands cap steps f → f.Lawful errands cap steps) ∧
    (∀ (entry : Specifier) (given : Option String) (v : Volume) (events : List Event) (run : Run U)
      (w : Volume), Host.Reached engine host entry given v events run w →
        ∃ steps f, Fetcher.Reached host.errands host.maxFetches steps f ∧ run.Shows f) ∧
    ∀ (s : Specifier) (v : Volume) (cap : Nat), ∃ steps f,
      Fetcher.Reached host.errands cap steps f ∧ f.active = 0 ∧
      f.ended = [(s, ((fetch host s : ExceptT LoadError (StateM Volume) String) v).1)] :=
  ⟨fun _ _ _ _ _ _ reached => Fetcher.lawful_of_reached reached,
    fun _ _ _ _ _ _ reached => reached.exists_fetcher,
    fun s v cap => exists_reached_fetch host s v cap⟩

/-- Two fetches of a module. Nothing is sent to one of them; the other one gets its reply after five
milliseconds. -/
def rivals : Errands Bool where
  module _ := Session.remoteModule
  reply first := if first then .hang else .after 5 (.ok ⟨200, "export {};"⟩)
  timeout := 10

/-- The first fetch has the only permit and is given up after a long time. The second one has waited for
the permit all along. -/
def rivalSteps : List (Fetcher.Event Bool) :=
  [.call true, .call false, .ask true, .wait 9, .cancel true, .ask false, .wait 14, .answer false,
    .store false]

/-- The second fetch has waited longer than it may take, and gets its reply nevertheless. -/
theorem fetches_lawful_rivals :
    ∃ f : Fetcher Bool, Fetcher.Reached rivals 0 rivalSteps f ∧ f.now = 14 ∧
      f.ended = [(false, .ok "export {};")] ∧ f.Lawful rivals 0 rivalSteps := by
  have reached : Fetcher.Reached rivals 0 rivalSteps _ :=
    .cons (.call rfl) (.cons (.call rfl) (.cons (.ask (by decide +kernel)) (.cons .wait
      (.cons (@Fetcher.Occurs.cancel Bool _ rivals _ true (.requested 0) (by decide +kernel))
        (.cons (.ask (by decide +kernel)) (.cons .wait
          (.cons (@Fetcher.Occurs.receive Bool _ rivals _ false 9 "export {};" (.ok ())
              (by decide +kernel) (by decide +kernel))
            (.cons (@Fetcher.Occurs.store Bool _ rivals _ false "export {};" (.ok ())
              (by decide +kernel)) (.nil _)))))))))
  exact ⟨_, reached, rfl, by decide +kernel,
    (fetches_lawful Engine.inspector Session.quickHost).1 Bool rivals 0 rivalSteps _ reached⟩

end ModuleLinker.Link
