import Mathlib.Algebra.Order.BigOperators.Group.List
import Mathlib.Data.Prod.Lex
import ModuleLinker.Proofs.Link.Drive
import ModuleLinker.Proofs.Link.Starving
import ModuleLinker.Proofs.Link.Steady

/-!
# Turns of the loop

The loop ends. Every turn of it leaves less to do (`Turn.left_lt`): a load moves on; or an import that
nothing has been done for is met; or the loop sleeps, and does not have to sleep again. So it comes to an
end where there are finitely many modules to load (`exists_over`). It does not get stuck before it has
failed or has settled everything, unless the run starves (`next_ne_stuck`).
-/

set_option autoImplicit false

namespace ModuleLinker.Link

open Files

variable {U V : Type}

/-- What is left to do about the load of a module. -/
def effort : Option Phase → Nat
  | none => 6
  | some .lookingUp => 5
  | some .queued => 4
  | some .granted => 3
  | some (.requested _) => 2
  | some .reading | some (.storing ..) => 1
  | some .loaded | some (.failed _) => 0

/-- A load that moves on leaves less to do. -/
theorem Moves.effort_lt {now : Nat} {s : Specifier} {event : Event} {old phase : Phase} {work : List Work}
    (moves : Moves now s event old phase work) : effort (some phase) < effort (some old) := by
  cases moves <;> simp [effort]

theorem effort_pos {phase : Phase} (active : phase.isActive = true) : 0 < effort (some phase) := by
  cases phase <;> first | exact Nat.zero_lt_succ _ | cases active

/-- Whether nothing has been done for an import. -/
def Task.isIdle : Task → Bool
  | .idle _ => true
  | .waiting .. => false

/-- Whether a load needs the file system. -/
def Phase.isExchange : Phase → Bool
  | .reading | .lookingUp | .storing .. => true
  | _ => false

/-- Whether an action is to do nothing, for some time or for ever. -/
def Action.isQuiet : Action → Bool
  | .sleep _ | .abort | .stuck => true
  | _ => false

namespace Run

/-- What is left to do about the loads of some modules. -/
def effortFor (modules : List Specifier) (run : Run U) : Nat :=
  (modules.map fun s => effort (run.phase? s)).sum

/-- The number of imports that nothing has been done for. -/
def idles (run : Run U) : Nat := run.pending.tasks.countP Task.isIdle

/-- Whether nothing can be done at once about any import. -/
def isAsleep (host : Host (StateM Volume)) (run : Run U) : Bool :=
  (run.pending.tasks.findSome? (run.taskAction? host)).isNone

variable {engine : Engine U V} {entry : Specifier} {given : Option String} {cap : Nat}
  {events : List Event} {event : Event} {modules : List Specifier} {run next : Run U}
  {s : Specifier}

/-! ## Less to do -/

/-- No event leaves more to do about a load. -/
theorem Goes.effort_le {now : Nat} {s : Specifier} {before after : Option Phase}
    (goes : Goes engine entry now event s before after) : effort after ≤ effort before := by
  cases goes with
  | same => exact Nat.le_refl _
  | start =>
    unfold firstPhase
    split <;> decide
  | grant => decide
  | move moves => cases moves <;> simp [effort]
  | @finish _ _ answer =>
    generalize (outcome engine s (s == entry) answer).1 = result
    cases result <;> exact Nat.zero_le _

theorem Occurs.effortFor_le (occurs : run.Occurs engine event next)
    (kept : run.Kept engine entry given cap events) (going : run.failure = none)
    (modules : List Specifier) : next.effortFor modules ≤ run.effortFor modules :=
  List.sum_le_sum fun s _ => ((occurs.goes kept going).1 s).effort_le

/-- An event of a load leaves less to do about the modules that are loaded. -/
theorem Occurs.effortFor_lt (occurs : run.Occurs engine event next)
    (kept : run.Kept engine entry given cap events) (going : run.failure = none)
    (known : ∀ s ∈ run.loading, s ∈ modules) (other : event ≠ .start)
    (other' : ∀ time, event ≠ .wait time) : next.effortFor modules < run.effortFor modules := by
  have less {s : Specifier} {old : Phase} (found : run.phase? s = some old)
      (lt : effort (next.phase? s) < effort (run.phase? s)) :
      next.effortFor modules < run.effortFor modules := by
    refine List.sum_lt_sum _ _ (fun t _ => ((occurs.goes kept going).1 t).effort_le) ⟨s, ?_, lt⟩
    refine known s (not_not.mp fun absent => ?_)
    rw [phase?_eq_none_iff.mpr absent] at found
    cases found
  cases occurs.steps kept.permitted with
  | wait => exact absurd rfl (other' _)
  | start => exact absurd rfl other
  | @move _ s old phase work _ awaits moves books =>
    refine less awaits.2 ?_
    rw [awaits.2, books.here]
    exact moves.effort_lt
  | @close _ s old work answer base awaits ends books =>
    refine less awaits.2 ?_
    rw [awaits.2, phase?_deliver, books.here]
    refine Nat.lt_of_le_of_lt (Nat.le_of_eq ?_) (effort_pos ends.isActive.1)
    generalize (outcome engine s (s == run.graph.entry) answer).1 = result
    cases result <;> rfl

/-- Acts that leave imports as they are leave the imports they visit. -/
theorem leaves_of_stays {acts : List Act} (stay : ∀ act ∈ acts, act.stays = true) :
    acts.flatMap Act.leaves = acts.filterMap Act.task? := by
  induction acts with
  | nil => rfl
  | cons act acts ih =>
    obtain ⟨here, rest⟩ := List.forall_mem_cons.mp stay
    rw [List.flatMap_cons, ih rest]
    cases act with
    | finished s => rfl
    | visited t v =>
      cases v with
      | stay => rfl
      | _ => cases here

/-- Nothing is left to be met of an import that has been met. -/
theorem countP_leaves_startVerdict (run : Run U) (s : Specifier) :
    (Act.visited (.idle s) (run.startVerdict s)).leaves.countP Task.isIdle = 0 := by
  rcases startVerdict_cases run s with ⟨-, v⟩ | ⟨-, ⟨e, -, v⟩ | ⟨_, -, -, v⟩ | ⟨-, v⟩⟩ <;>
    rw [v] <;> rfl

/-- When an import is met for the first time, fewer are left that have not been. -/
theorem idles_start_lt (orderly : run.Orderly entry given) {s : Specifier}
    (idle : .idle s ∈ run.pending.tasks) (going : run.start.failure = none) :
    run.start.idles < run.idles := by
  obtain ⟨before, t, after, left, g, account, stay, -, same⟩ := start_account orderly.proper idle
  rw [same] at going ⊢
  cases left with
  | error e => cases going
  | ok q =>
    have visited := account.visited.countP_le (p := Task.isIdle)
    have left := (account.left q rfl).countP_le (p := Task.isIdle)
    simp only [List.filterMap_append, List.filterMap_cons, Act.task?, List.flatMap_append,
      List.flatMap_cons, List.countP_append, List.countP_cons, Task.isIdle, if_true] at visited left
    rw [leaves_of_stays fun act mem => stay act (List.mem_append_left _ mem),
      leaves_of_stays fun act mem => stay act (List.mem_append_right _ mem)] at left
    have none := countP_leaves_startVerdict run t
    show q.tasks.countP Task.isIdle < run.pending.tasks.countP Task.isIdle
    omega

/-! ## Sleeping -/

variable {host : Host (StateM Volume)}

theorem isQuiet_taskAction {t : Task} {action : Action} (found : run.taskAction? host t = some action) :
    action.isQuiet = false := by
  cases t with
  | idle s => cases found; rfl
  | waiting s owner =>
    unfold taskAction? at found
    dsimp only at found
    split at found
    case h_1 =>
      split at found
      · cases found; rfl
      · cases found
    case h_2 => cases found; rfl
    case h_3 =>
      obtain ⟨answer, -, rfl⟩ := Option.map_eq_some_iff.mp found
      rfl
    case h_4 => cases found

theorem isQuiet_exchangeAction {s : Specifier} {action : Action}
    (found : run.exchangeAction? s = some action) : action.isQuiet = false := by
  unfold exchangeAction? at found
  split at found
  case isFalse => cases found
  case isTrue => split at found <;> cases found <;> rfl

/-- Nothing is done next only where nothing can be done about an import or between the run and the file
system. -/
theorem of_isQuiet_next (host : Host (StateM Volume)) (run : Run U)
    (quiet : (run.next host none).isQuiet = true) :
    run.failure = none ∧ run.pending ≠ .nil ∧ run.isAsleep host = true ∧
      run.exchanges.findSome? run.exchangeAction? = none ∧
      run.next host none = (run.nextTime? host none).elim .stuck .sleep := by
  unfold isAsleep
  generalize same : run.next host none = action at quiet ⊢
  unfold next at same
  split at same
  case h_1 => subst same; cases quiet
  case h_2 => subst same; cases quiet
  case h_3 pending going unsettled =>
    split at same
    case h_1 found =>
      obtain ⟨t, -, found⟩ := List.exists_of_findSome?_eq_some found
      subst same
      rw [isQuiet_taskAction found] at quiet
      cases quiet
    case h_2 idle =>
      rw [if_neg (by simp)] at same
      split at same
      case h_1 found =>
        obtain ⟨s, -, found⟩ := List.exists_of_findSome?_eq_some found
        subst same
        rw [isQuiet_exchangeAction found] at quiet
        cases quiet
      case h_2 none =>
        refine ⟨going, unsettled, by rw [idle]; rfl, none, ?_⟩
        rw [← same]
        cases run.nextTime? host Option.none <;> rfl

/-- The next thing for which a run sleeps is the end of a fetch. -/
theorem exists_wakeTime {time : Nat} (found : run.nextTime? host none = some time) :
    ∃ s since, run.Awaits s (.requested since) ∧
      time = since + (host.reply s).duration host.timeout := by
  have mem := (List.min?_eq_some_iff.mp found).1
  rw [Option.toList_none, List.append_nil, List.mem_filterMap] at mem
  obtain ⟨s, awaited, wake⟩ := mem
  unfold wakeTime? at wake
  split at wake
  case h_1 since requested => exact ⟨s, since, ⟨awaited, requested⟩, (Option.some.inj wake).symm⟩
  case h_2 => cases wake

/-- The loop sleeps up to the next time at which something happens. -/
theorem nextTime_of_sleep {time : Nat} (sleeps : run.next host none = .sleep time) :
    run.nextTime? host none = some time := by
  obtain ⟨-, -, -, -, same⟩ := of_isQuiet_next host run (by rw [sleeps]; rfl)
  rw [sleeps] at same
  cases found : run.nextTime? host none with
  | none =>
    rw [found] at same
    cases same
  | some time' =>
    rw [found] at same
    cases same
    rfl

/-- After sleeping, something can be done about an import. -/
theorem isAsleep_of_sleep {time : Nat} (sleeps : run.next host none = .sleep time) :
    run.isAsleep host = true ∧
      ({ run with now := max time run.now } : Run U).isAsleep host = false := by
  obtain ⟨-, -, asleep, -, -⟩ := of_isQuiet_next host run (by rw [sleeps]; rfl)
  refine ⟨asleep, ?_⟩
  obtain ⟨s, since, ⟨awaited, requested⟩, rfl⟩ := exists_wakeTime (nextTime_of_sleep sleeps)
  obtain ⟨owner, mem⟩ := mem_awaited.mp awaited
  have enough : (host.reply s).duration host.timeout ≤
      max (since + (host.reply s).duration host.timeout) run.now - since := by omega
  obtain ⟨answer, outcome⟩ := Reply.outcome?_duration s enough
  unfold isAsleep
  rw [Option.isNone_eq_false_iff, List.findSome?_isSome_iff]
  refine ⟨_, mem, ?_⟩
  unfold taskAction?
  have requested : ({ run with now := max (since + (host.reply s).duration host.timeout) run.now } :
      Run U).phase? s = some (.requested since) := requested
  simp only [requested, outcome]
  rfl

/-! ## The end of the loop -/

/-- What is left to do in a run: about loads, about imports that nothing has been done for, and before
the loop sleeps. -/
def left (host : Host (StateM Volume)) (modules : List Specifier) (run : Run U) : ℕ ×ₗ ℕ ×ₗ ℕ :=
  toLex (run.effortFor modules, toLex (run.idles, (run.isAsleep host).toNat))

/-- Every turn leaves less to do, unless it ends in a failure. -/
theorem Turn.left_lt {v w : Volume} (turn : Turn engine host none run v event next w)
    (kept : run.Kept engine entry given cap events) (known : ∀ s ∈ run.loading, s ∈ modules)
    (going : next.failure = none) : next.left host modules < run.left host modules := by
  have le := turn.occurs.effortFor_le kept turn.going modules
  unfold left
  rw [Prod.Lex.toLex_lt_toLex, Prod.Lex.toLex_lt_toLex]
  cases turn.occurs with
  | start idle =>
    rcases Nat.lt_or_eq_of_le le with lt | same
    · exact .inl lt
    · exact .inr ⟨same, .inl (idles_start_lt (kept.orderly turn.going) idle going)⟩
  | @wait time =>
    obtain ⟨before, after⟩ := isAsleep_of_sleep (turn.sleeps time rfl)
    refine .inr ⟨rfl, .inr ⟨rfl, ?_⟩⟩
    rw [before, after]
    exact Nat.zero_lt_one
  | _ =>
    refine .inl (turn.occurs.effortFor_lt kept turn.going known ?_ ?_)
    · intro same
      cases same
    · intro _ same
      cases same

/-- The loop comes to an end in a run that has finitely many modules to load. What every turn keeps
holds at the end. -/
theorem exists_over {P : List Event → Run U → Volume → Prop} {v u : Volume}
    (step : ∀ {events run u event next w}, Host.Reached engine host entry given v events run u →
      P events run u → Turn engine host none run u event next w → P (events ++ [event]) next w)
    (known : ∀ {events run u}, Host.Reached engine host entry given v events run u → P events run u →
      run.failure = none → ∀ s ∈ run.loading, s ∈ modules)
    (reached : Host.Reached engine host entry given v events run u) (holds : P events run u) :
    ∃ events last w, Host.Reached engine host entry given v events last w ∧ P events last w ∧
      (last.next host none).ends = true ∧
      ∃ n, ∀ steps, (run.drive engine host none (steps + n) : StateM Volume _) u =
        (last.drive engine host none steps : StateM Volume _) w := by
  induction least : run.left host modules using WellFoundedLT.induction generalizing run u events with
  | ind m ih =>
    rcases exists_turn engine host none run u with ⟨event, next, w, turn⟩ | ends
    · have reached' := Host.Leads.concat reached turn.going turn.occurs turn.allows
      have holds' := step reached holds turn
      cases failed : next.failure with
      | some e =>
        refine ⟨_, next, w, reached', holds', ?_, 1, turn.drives⟩
        unfold Run.next
        rw [failed]
        rfl
      | none =>
        have less := turn.left_lt reached.toReached.kept (known reached holds turn.going) failed
        obtain ⟨events, last, w', after, holds, ends, n, drives⟩ :=
          ih _ (least ▸ less) reached' holds' rfl
        refine ⟨events, last, w', after, holds, ends, n + 1, fun steps => ?_⟩
        rw [← Nat.add_assoc, turn.drives, drives]
    · exact ⟨events, run, u, reached, holds, ends, 0, fun _ => rfl⟩

/-- Linking comes to an end on a host where there are finitely many modules to load. -/
theorem exists_link_eq (engine : Engine U V) (host : Host (StateM Volume)) (entry : Specifier)
    (given : Option String) {P : List Event → Run U → Volume → Prop} {v : Volume}
    (step : ∀ {events run u event next w}, Host.Reached engine host entry given v events run u →
      P events run u → Turn engine host none run u event next w → P (events ++ [event]) next w)
    (known : ∀ {events run u}, Host.Reached engine host entry given v events run u → P events run u →
      run.failure = none → ∀ s ∈ run.loading, s ∈ modules)
    (start : P [] (begin engine entry given host.maxFetches) v) :
    ∃ events last w, Host.Reached engine host entry given v events last w ∧ P events last w ∧
      (last.next host none).ends = true ∧
      ∃ n, ∀ steps, n ≤ steps → (link engine host steps entry given none : StateM Volume _) v =
        (last.verdict host none, w) := by
  obtain ⟨events, last, w, reached, holds, ends, n, drives⟩ :=
    exists_over step known (.nil _ v) start
  refine ⟨events, last, w, reached, holds, ends, n + 1, fun steps enough => ?_⟩
  obtain ⟨more, rfl⟩ : ∃ more, steps = more + 1 + n := ⟨steps - 1 - n, by omega⟩
  rw [link, drives, drive_of_ends engine ends]
  rfl

/-! ## What a run waits for -/

/-- Whether a run waits for the file system in every load that needs it, but for that of a module. -/
def ExchangingBut (run : Run U) (s : Specifier) : Prop :=
  ∀ t phase, run.phase? t = some phase → phase.isExchange = true → t = s ∨ t ∈ run.exchanges

/-- Whether a run waits for the file system in every load that needs it. -/
def Exchanging (run : Run U) : Prop :=
  ∀ t phase, run.phase? t = some phase → phase.isExchange = true → t ∈ run.exchanges

theorem Exchanging.but (h : run.Exchanging) (s : Specifier) : run.ExchangingBut s :=
  fun t phase found exchange => .inr (h t phase found exchange)

theorem Exchanging.endExchange (h : run.Exchanging) (s : Specifier) :
    (run.endExchange s).ExchangingBut s := by
  intro t phase found exchange
  by_cases same : t = s
  · exact .inl same
  · exact .inr ((List.mem_erase_of_ne same).mpr (h t phase found exchange))

theorem ExchangingBut.congr {base : Run U} (h : run.ExchangingBut s) (loads : base.loads = run.loads)
    (exchanges : base.exchanges = run.exchanges) : base.ExchangingBut s := by
  unfold ExchangingBut phase?
  rw [loads, exchanges]
  exact h

/-- The load of a module goes on to something for which the run waits if need be. -/
theorem ExchangingBut.setPhase (h : run.ExchangingBut s) {phase : Phase}
    (waits : phase.isExchange = true → s ∈ run.exchanges) : (run.setPhase s phase).Exchanging := by
  intro t phase' found exchange
  rw [phase?_setPhase] at found
  split at found
  case isTrue same =>
    obtain ⟨old, -, rfl⟩ := Option.map_eq_some_iff.mp found
    exact same ▸ waits exchange
  case isFalse other => exact (h t phase' found exchange).resolve_left other

theorem ExchangingBut.release (h : run.ExchangingBut s) {total : Nat} (permitted : run.Permitted total) :
    run.release.ExchangingBut s := by
  have exchanges : run.release.exchanges = run.exchanges := by
    rcases split : run.permits.queue with _ | ⟨t, more⟩
    · rw [release_of_nil split]
    · rw [release_of_cons split]
      rfl
  intro t phase found exchange
  rw [exchanges]
  rcases permitted.phase?_release t with same | ⟨-, granted⟩
  · exact h t phase (same.symm.trans found) exchange
  · rw [granted] at found
    cases found
    cases exchange

/-- What is left of the imports does not matter. -/
theorem Exchanging.swept (h : run.Exchanging) (left : Except LoadError Pending) :
    (run.swept left).Exchanging := by
  cases left <;> exact h

theorem Exchanging.deliver (h : run.Exchanging) (engine : Engine U V) (s : Specifier)
    (result : Except LoadError (Record U)) : (run.deliver engine s result).Exchanging := by
  have same (g : Graph U) : ({ run with graph := g } : Run U).Exchanging := h
  exact (same _).swept _

/-- A load that ends does not need the file system any more. -/
theorem ExchangingBut.conclude (h : run.ExchangingBut s) (engine : Engine U V)
    (answer : Except LoadError String) : (run.conclude engine s answer).Exchanging := by
  rw [conclude_eq]
  generalize (outcome engine s (s == run.graph.entry) answer).1 = result
  have noted : (run.note (outcome engine s (s == run.graph.entry) answer).2).ExchangingBut s :=
    h.congr rfl rfl
  refine (noted.setPhase fun exchange => ?_).deliver engine s result
  cases result <;> cases exchange

theorem isExchange_acquire (permits : Permits Specifier) (s : Specifier) :
    (permits.acquire s).1.isExchange = false := by
  unfold Permits.acquire
  split <;> rfl

/-- A module that has to be loaded is asked of the file system. -/
theorem Exchanging.startBase (h : run.Exchanging) (s : Specifier) : (run.startBase s).Exchanging := by
  unfold Run.startBase
  split
  · exact h
  · split
    · exact h
    case h_2 fresh =>
      intro t phase found exchange
      rw [phase?_startLoad run s t fresh] at found
      rw [startLoad_eq]
      show t ∈ run.exchanges ++ [s]
      rw [List.mem_append, List.mem_singleton]
      split at found
      case isTrue same => exact .inr same
      case isFalse => exact .inl (h t phase found exchange)

/-- After every event a run waits for the file system where it needs it. -/
theorem Exchanging.occurs (h : run.Exchanging) (kept : run.Kept engine entry given cap events)
    (going : run.failure = none) (occurs : run.Occurs engine event next) : next.Exchanging := by
  cases occurs with
  | start idle =>
    obtain ⟨before, s, after, left, g, -, -, -, same⟩ :=
      start_account (kept.orderly going).proper idle
    rw [same]
    have started : ({ run.startBase s with graph := g } : Run U).Exchanging := h.startBase s
    exact started.swept left
  | @read s => exact (h.endExchange s).conclude engine _
  | @lookUp s answer =>
    rcases answer with e | _ | source
    · exact (h.endExchange s).conclude engine (.error e)
    · have but : (({ run.endExchange s with permits := (run.permits.acquire s).2 } : Run U).note
          [.fetch s]).ExchangingBut s := (h.endExchange s).congr rfl rfl
      have none := isExchange_acquire (run.endExchange s).permits s
      exact but.setPhase fun exchange => absurd (none.symm.trans exchange) Bool.false_ne_true
    · have but : ((run.endExchange s).note [.hit s]).ExchangingBut s :=
        (h.endExchange s).congr rfl rfl
      exact but.conclude engine (.ok source)
  | @request s =>
    have but : (run.note [.get s]).ExchangingBut s := (h.but s).congr rfl rfl
    exact but.setPhase fun exchange => by cases exchange
  | @receive s =>
    have but : (run.exchange s).ExchangingBut s := fun t phase found exchange =>
      .inr (List.mem_append_left _ (h t phase found exchange))
    exact but.setPhase fun _ => List.mem_append_right _ List.mem_cons_self
  | @refuse s => exact ((h.but s).release kept.permitted).conclude engine (.error _)
  | @store s =>
    have permitted : (run.endExchange s).Permitted (max cap 1) := kept.permitted.congr rfl rfl
    exact ((h.endExchange s).release permitted).conclude engine _
  | wait => exact h

theorem exchanging_begin (engine : Engine U V) (entry : Specifier) (given : Option String)
    (cap : Nat) : (begin engine entry given cap).Exchanging := by
  have none : (initial entry cap : Run U).Exchanging := fun t phase found => by cases found
  cases given with
  | some source => exact (none.but entry).conclude engine (.ok source)
  | none => exact none.startBase entry

theorem Reached.exchanging (h : Reached engine entry given cap events run) : run.Exchanging := by
  have both := h.keepsEvents
    (P := fun events run => run.Kept engine entry given cap events ∧ run.Exchanging)
    (fun going occurs ⟨kept, exchanging⟩ =>
      ⟨kept.occurs going occurs, exchanging.occurs kept going occurs⟩)
    ⟨kept_begin engine entry given cap, exchanging_begin engine entry given cap⟩
  exact both.2

/-- What is waited for where nothing is done next: fetches, and permits for them. -/
theorem phase_of_quiet (reached : Reached engine entry given cap events run)
    (quiet : (run.next host none).isQuiet = true) {phase : Phase} (awaits : run.Awaits s phase)
    (active : phase.isActive = true) : phase = .queued ∨ ∃ since, phase = .requested since := by
  obtain ⟨-, -, asleep, exchanges, -⟩ := of_isQuiet_next host run quiet
  unfold isAsleep at asleep
  rw [Option.isNone_iff_eq_none] at asleep
  obtain ⟨awaited, found⟩ := awaits
  obtain ⟨owner, mem⟩ := mem_awaited.mp awaited
  have none := List.findSome?_eq_none_iff.mp asleep _ mem
  have exchange (waits : phase.isExchange = true) : run.exchangeAction? s = .none :=
    List.findSome?_eq_none_iff.mp exchanges s (reached.exchanging s phase found waits)
  unfold exchangeAction? at exchange
  rw [if_pos (List.contains_iff_mem.mpr awaited), found] at exchange
  unfold taskAction? at none
  simp only [found] at none
  cases phase with
  | reading => cases exchange rfl
  | lookingUp => cases exchange rfl
  | queued => exact .inl rfl
  | granted => cases none
  | requested since => exact .inr ⟨since, rfl⟩
  | storing body outcome => cases exchange rfl
  | loaded => cases active
  | failed e => cases active

/-- Every import has been met where nothing is done next. -/
theorem not_idle_of_quiet (quiet : (run.next host none).isQuiet = true) :
    .idle s ∉ run.pending.tasks := by
  intro idle
  obtain ⟨-, -, asleep, -, -⟩ := of_isQuiet_next host run quiet
  unfold isAsleep at asleep
  rw [Option.isNone_iff_eq_none] at asleep
  cases List.findSome?_eq_none_iff.mp asleep _ idle

theorem wakeTime_of_requested (host : Host (StateM Volume)) {since : Nat}
    (requested : run.phase? s = some (.requested since)) :
    run.wakeTime? host s = some (since + (host.reply s).duration host.timeout) := by
  unfold wakeTime?
  rw [requested]

/-- The loop does not get stuck in a run that has not failed, unless the run starves. -/
theorem next_ne_stuck (host : Host (StateM Volume))
    (reached : Reached engine entry given cap events run) (fed : ¬ run.Starved) :
    run.next host none ≠ .stuck := by
  intro stuck
  have quiet : (run.next host none).isQuiet = true := by
    rw [stuck]
    rfl
  obtain ⟨going, unsettled, -, -, ends⟩ := of_isQuiet_next host run quiet
  rcases exists_going going (reached.kept.orderly going) unsettled fed with
    ⟨s, idle⟩ | ⟨s, phase, awaits, active, other⟩
  · exact not_idle_of_quiet quiet idle
  · rcases phase_of_quiet reached quiet awaits active with queued | ⟨since, rfl⟩
    · exact other queued
    · have wakes : run.nextTime? host .none ≠ .none := by
        unfold nextTime?
        rw [Ne, List.min?_eq_none_iff, List.append_eq_nil_iff, not_and_or]
        exact .inl (List.ne_nil_of_mem
          (List.mem_filterMap.mpr ⟨s, awaits.1, wakeTime_of_requested host awaits.2⟩))
      obtain ⟨time, later⟩ := Option.ne_none_iff_exists'.mp wakes
      rw [stuck, later] at ends
      cases ends

/-- A run that is never given up is not given up. -/
theorem next_ne_abort (host : Host (StateM Volume)) (run : Run U) : run.next host none ≠ .abort := by
  intro abort
  obtain ⟨-, -, -, -, same⟩ := of_isQuiet_next host run (by rw [abort]; rfl)
  rw [abort] at same
  cases found : run.nextTime? host none with
  | none =>
    rw [found] at same
    cases same
  | some time =>
    rw [found] at same
    cases same

/-- The loop ends in a run that has linked everything or has failed, unless the run starves. -/
theorem verdict_of_ends (reached : Reached engine entry given cap events run) (fed : ¬ run.Starved)
    (ends : (run.next host none).ends = true) :
    (run.Succeeded ∧ run.verdict host none = .ok ⟨run.graph, run.work⟩) ∨
      ∃ e, run.failure = some e ∧ run.verdict host none = .error e := by
  have unstuck := next_ne_stuck host reached fed
  have fits := fits_next host none run
  have going := going_of_next host none run
  unfold verdict
  cases action : run.next host none with
  | done =>
    rw [action] at fits going
    exact .inl ⟨⟨going (by simp), fits⟩, rfl⟩
  | fail e =>
    rw [action] at fits
    exact .inr ⟨e, fits, rfl⟩
  | stuck => exact absurd action unstuck
  | abort => exact absurd action (next_ne_abort host run)
  | _ =>
    rw [action] at ends
    cases ends

end Run

/-- The loop links everything where the entry needs finitely many modules and all of them can be
loaded. -/
theorem Host.exists_linked {host : Host (StateM Volume)} {engine : Engine U V} {entry : Specifier}
    {given : Option String} {files : Specifier → Except LoadError String} {root : List String}
    {v : Volume} {modules : List Specifier} (reads : ∀ s, host.read s = pure (files s))
    (opened : host.cache.IsOpen root v) (written : entry.IsWritten)
    (complete : (host.answers files root v).Complete engine entry given)
    (known : ∀ s, (host.answers files root v).Needs engine entry given s → s ∈ modules) :
    ∃ events run w, host.Reached engine entry given v events run w ∧ run.Succeeded ∧
      ∃ n, ∀ steps, n ≤ steps → (link engine host steps entry given none : StateM Volume _) v =
        (.ok ⟨run.graph, run.work⟩, w) := by
  obtain ⟨events, run, w, reached, -, ends, n, links⟩ := Run.exists_link_eq engine host entry
    given (P := fun _ _ _ => True) (v := v) (fun _ _ _ => trivial) (fun reached _ going s loading => by
      have calm := reached.calm written opened reads complete
      cases found : Run.phase? _ s with
      | none => exact absurd loading (Run.phase?_eq_none_iff.mp found)
      | some phase =>
        exact known s ((reached.informed calm written opened reads).needs reached.toReached.kept calm
          found)) trivial
  have calm := reached.calm written opened reads complete
  have fed := calm.not_starved reached.toReached.kept (reached.toReached.hopeful calm)
  rcases Run.verdict_of_ends reached.toReached fed ends with ⟨succeeded, same⟩ | ⟨e, failed, -⟩
  · exact ⟨events, run, w, reached, succeeded, n, same ▸ links⟩
  · rw [calm.1] at failed
    cases failed

end ModuleLinker.Link
