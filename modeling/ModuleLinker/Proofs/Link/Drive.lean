import ModuleLinker.Proofs.Link.Host
import ModuleLinker.Proofs.Link.Step

/-!
# The loop

The loop that brings the events of a run on a host about takes one of the orders that they can come
in: whatever it comes to, a run on the host has come to (`Run.link_reached`).
-/

set_option autoImplicit false

namespace ModuleLinker.Link

open Files

variable {U V : Type}

/-- What an action says of the run that it is the next one of. -/
def Action.Fits (host : Host (StateM Volume)) (run : Run U) : Action → Prop
  | .start => ∃ s, .idle s ∈ run.pending.tasks
  | .read s => run.Awaits s .reading
  | .request s => run.Awaits s .granted
  | .reply s answer => ∃ since, run.Awaits s (.requested since) ∧
      (host.reply s).outcome? s host.timeout (run.now - since) = some answer
  | .lookUp s => run.Awaits s .lookingUp
  | .store s body outcome => run.Awaits s (.storing body outcome)
  | .sleep time => host.IsPrompt run (max time run.now)
  | .done => run.pending = .nil
  | .fail e => run.failure = some e
  | .abort | .stuck => True

/-- Whether an action ends the loop. -/
def Action.ends : Action → Bool
  | .done | .fail _ | .abort | .stuck => true
  | _ => false

namespace Run

variable {engine : Engine U V} {host : Host (StateM Volume)} {run : Run U}

theorem fits_taskAction {t : Task} (mem : t ∈ run.pending.tasks) {action : Action}
    (found : run.taskAction? host t = some action) : action.Fits host run := by
  cases t with
  | idle s =>
    cases found
    exact ⟨s, mem⟩
  | waiting s owner =>
    have awaited := mem_awaited.mpr ⟨owner, mem⟩
    unfold taskAction? at found
    dsimp only at found
    split at found
    case h_1 phase =>
      split at found
      · cases found
        exact ⟨awaited, phase⟩
      · cases found
    case h_2 phase =>
      cases found
      exact ⟨awaited, phase⟩
    case h_3 since phase =>
      obtain ⟨answer, outcome, same⟩ := Option.map_eq_some_iff.mp found
      subst same
      exact ⟨since, ⟨awaited, phase⟩, outcome⟩
    case h_4 => cases found

theorem fits_exchangeAction {s : Specifier} {action : Action}
    (found : run.exchangeAction? s = some action) : action.Fits host run := by
  unfold exchangeAction? at found
  split at found
  case isFalse => cases found
  case isTrue awaited =>
    have awaited : s ∈ run.pending.awaited := List.contains_iff_mem.mp awaited
    split at found
    case h_1 phase => cases found; exact ⟨awaited, phase⟩
    case h_2 phase => cases found; exact ⟨awaited, phase⟩
    case h_3 body outcome phase => cases found; exact ⟨awaited, phase⟩
    case h_4 => cases found

/-- The clock does not go further than to the next deadline. -/
theorem isPrompt_of_nextTime {giveUp : Option Nat} {time : Nat}
    (idle : run.pending.tasks.findSome? (run.taskAction? host) = none)
    (next : run.nextTime? host giveUp = some time) : host.IsPrompt run (max time run.now) := by
  apply Host.isPrompt_max
  · rintro s since ⟨awaited, requested⟩
    obtain ⟨owner, mem⟩ := mem_awaited.mp awaited
    have none := List.findSome?_eq_none_iff.mp idle _ mem
    unfold taskAction? at none
    simp only [requested] at none
    exact Option.map_eq_none_iff.mp none
  · rintro s since ⟨awaited, requested⟩
    have wake : run.wakeTime? host s = some (since + (host.reply s).duration host.timeout) := by
      unfold wakeTime?
      rw [requested]
    refine (List.min?_eq_some_iff.mp next).2 _ (List.mem_append_left _ ?_)
    exact List.mem_filterMap.mpr ⟨s, awaited, wake⟩

/-- The next action of a run fits it. -/
theorem fits_next (host : Host (StateM Volume)) (giveUp : Option Nat) (run : Run U) :
    (run.next host giveUp).Fits host run := by
  unfold next
  split
  case h_1 failed => exact failed
  case h_2 settled => exact settled
  case h_3 =>
    split
    case h_1 action found =>
      obtain ⟨t, mem, same⟩ := List.exists_of_findSome?_eq_some found
      exact fits_taskAction mem same
    case h_2 idle =>
      split
      case isTrue => trivial
      case isFalse =>
        split
        case h_1 action found =>
          obtain ⟨s, -, same⟩ := List.exists_of_findSome?_eq_some found
          exact fits_exchangeAction same
        case h_2 =>
          split
          case h_1 time next => exact isPrompt_of_nextTime idle next
          case h_2 => trivial

/-- A run goes on unless its next action is to fail. -/
theorem going_of_next (host : Host (StateM Volume)) (giveUp : Option Nat) (run : Run U)
    (other : ∀ e, run.next host giveUp ≠ .fail e) :
    run.failure = none := by
  cases failed : run.failure with
  | none => rfl
  | some e =>
    refine absurd ?_ (other e)
    unfold next
    rw [failed]

/-- A body that has arrived is put into the cache as it is then. -/
theorem allows_receive {v : Volume} {s : Specifier} {since : Nat} {body : String}
    (requested : run.phase? s = some (.requested since))
    (arrived : (host.reply s).outcome? s host.timeout (run.now - since) = some (.ok body)) :
    host.Allows run v
      (.reply s (.ok body) ((host.cache.put s body : ExceptT LoadError (StateM Volume) _) v).1)
      ((host.cache.put s body : ExceptT LoadError (StateM Volume) _) v).2 :=
  .receive requested arrived (Prod.eta _).symm

/-- A module is looked up in the cache as it is then. -/
theorem allows_lookUp (host : Host (StateM Volume)) (run : Run U) (v : Volume) (s : Specifier) :
    host.Allows run v
      (.lookUp s ((host.cache.get s : ExceptT LoadError (StateM Volume) _) v).1)
      ((host.cache.get s : ExceptT LoadError (StateM Volume) _) v).2 :=
  .lookUp (Prod.eta _).symm

/-- What the loop comes to in a run to which it brings about nothing more. -/
def verdict (host : Host (StateM Volume)) (giveUp : Option Nat) (run : Run U) :
    Except LoadError (Linked U) :=
  match run.next host giveUp with
  | .done => .ok ⟨run.graph, run.work⟩
  | .fail e => .error e
  | _ => .error .aborted

/-- An event that the loop brings about next in a run on a host. Time only goes on when that is the next
action. -/
structure Turn (engine : Engine U V) (host : Host (StateM Volume)) (giveUp : Option Nat) (run : Run U)
    (v : Volume) (event : Event) (next : Run U) (w : Volume) : Prop where
  going : run.failure = none
  occurs : run.Occurs engine event next
  allows : host.Allows run v event w
  sleeps : ∀ time, event = .wait time → run.next host giveUp = .sleep time
  drives : ∀ steps, (run.drive engine host giveUp (steps + 1) : StateM Volume _) v =
    (next.drive engine host giveUp steps : StateM Volume _) w

/-- The loop brings an event about, unless the next action ends it. -/
theorem exists_turn (engine : Engine U V) (host : Host (StateM Volume)) (giveUp : Option Nat)
    (run : Run U) (v : Volume) :
    (∃ event next w, Turn engine host giveUp run v event next w) ∨
      (run.next host giveUp).ends = true := by
  have fits := fits_next host giveUp run
  have going := going_of_next host giveUp run
  have drives (steps : Nat) := Run.drive.eq_2 engine host giveUp run steps
  generalize action : run.next host giveUp = next at fits going drives ⊢
  cases next with
  | start =>
    obtain ⟨s, idle⟩ := fits
    exact .inl ⟨.start, _, v, going (by simp), .start idle, .start, fun _ same => (by cases same),
      fun steps => congrFun (drives steps) v⟩
  | read s =>
    exact .inl ⟨.read s (host.read s v).1, _, _, going (by simp), .read fits, .read rfl,
      fun _ same => (by cases same), fun steps => congrFun (drives steps) v⟩
  | request s =>
    exact .inl ⟨.request s, _, v, going (by simp), .request fits, .request,
      fun _ same => (by cases same), fun steps => congrFun (drives steps) v⟩
  | reply s answer =>
    obtain ⟨since, awaits, arrived⟩ := fits
    cases answer with
    | ok body =>
      have allows := allows_receive (v := v) awaits.2 arrived
      dsimp only at drives
      generalize (host.cache.put s body : ExceptT LoadError (StateM Volume) _) = put at allows drives
      exact .inl ⟨_, _, _, going (by simp), .receive awaits, allows, fun _ same => (by cases same),
        fun steps => congrFun (drives steps) v⟩
    | error e =>
      exact .inl ⟨.reply s (.error e) (.ok ()), _, v, going (by simp), .refuse awaits,
        .refuse awaits.2 arrived, fun _ same => (by cases same), fun steps => congrFun (drives steps) v⟩
  | lookUp s =>
    have allows := allows_lookUp host run v s
    dsimp only at drives
    generalize (host.cache.get s : ExceptT LoadError (StateM Volume) _) = get at allows drives
    exact .inl ⟨_, _, _, going (by simp), .lookUp fits, allows, fun _ same => (by cases same),
      fun steps => congrFun (drives steps) v⟩
  | store s body outcome =>
    exact .inl ⟨.store s, _, v, going (by simp), .store fits, .store, fun _ same => (by cases same),
      fun steps => congrFun (drives steps) v⟩
  | sleep time =>
    exact .inl ⟨.wait time, _, v, going (by simp), .wait, .wait fits,
      fun _ same => (by cases same; exact action), fun steps => congrFun (drives steps) v⟩
  | done => exact .inr rfl
  | fail e => exact .inr rfl
  | abort => exact .inr rfl
  | stuck => exact .inr rfl

/-- The loop ends where the next action ends it. -/
theorem drive_of_ends (engine : Engine U V) {giveUp : Option Nat}
    (ends : (run.next host giveUp).ends = true) (steps : Nat) :
    (run.drive engine host giveUp (steps + 1) : StateM Volume _) =
      return run.verdict host giveUp := by
  rw [drive]
  unfold verdict
  cases action : run.next host giveUp with
  | done => rfl
  | fail e => rfl
  | abort => rfl
  | stuck => rfl
  | _ =>
    rw [action] at ends
    cases ends

/-- What the loop tells of a run that it has brought about. -/
def Tells (run : Run U) : Except LoadError (Linked U) → Prop
  | .ok linked => run.Succeeded ∧ linked = ⟨run.graph, run.work⟩
  | .error e => run.failure = some e ∨ e = .aborted

/-- What the loop comes to in a run is told of the run. -/
theorem tells_verdict (host : Host (StateM Volume)) (giveUp : Option Nat) (run : Run U) :
    run.Tells (run.verdict host giveUp) := by
  have fits := fits_next host giveUp run
  have going := going_of_next host giveUp run
  unfold verdict
  cases action : run.next host giveUp with
  | done =>
    rw [action] at fits going
    exact ⟨⟨going (by simp), fits⟩, rfl⟩
  | fail e =>
    rw [action] at fits
    exact .inl fits
  | _ => exact .inr rfl

/-- Whatever the loop comes to on a host, it comes to by events. -/
theorem drive_leads (engine : Engine U V) (host : Host (StateM Volume)) (giveUp : Option Nat)
    (steps : Nat) (run : Run U) (v : Volume) :
    ∃ events last, host.Leads engine run v events last
        ((run.drive engine host giveUp steps : StateM Volume _) v).2 ∧
      last.Tells ((run.drive engine host giveUp steps : StateM Volume _) v).1 := by
  induction steps generalizing run v with
  | zero => exact ⟨[], run, .nil run v, .inr rfl⟩
  | succ steps ih =>
    rcases exists_turn engine host giveUp run v with ⟨event, next, w, turn⟩ | ends
    · obtain ⟨events, last, leads, tells⟩ := ih next w
      rw [turn.drives]
      exact ⟨event :: events, last, .cons turn.going turn.occurs turn.allows leads, tells⟩
    · rw [drive_of_ends engine ends]
      exact ⟨[], run, .nil run v, tells_verdict host giveUp run⟩

/-- Whatever linking comes to on a host, a run on the host has come to. -/
theorem link_reached (engine : Engine U V) (host : Host (StateM Volume)) (steps : Nat)
    (entry : Specifier) (given : Option String) (giveUp : Option Nat) (v : Volume) :
    ∃ events run, host.Reached engine entry given v events run
        ((link engine host steps entry given giveUp : StateM Volume _) v).2 ∧
      run.Tells ((link engine host steps entry given giveUp : StateM Volume _) v).1 :=
  drive_leads engine host giveUp steps _ v

end Run

end ModuleLinker.Link
