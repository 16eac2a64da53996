import Mathlib.Data.Multiset.Filter
import ModuleLinker.Proofs.Link.Event
import ModuleLinker.Proofs.Link.Loads

/-!
# Fetches that share permits

A fetcher: any number of fetches, of one run or of many, that share the permits to ask a server. A fetch
takes a permit or waits for one, asks the server, waits for the reply under a deadline, puts what it has
got into the cache, and can be cancelled in between at any time. `Fetcher.Occurs` says when an event is
possible and what it does, and `Fetcher.Reached` is what can be reached by events in whatever order.

What every event keeps is that the permits are balanced (`Fetcher.Balanced`): each one is free or with a
fetch under way, and the line consists of the fetches that wait. Besides that, the clock of a fetch starts
when it asks the server, for which it has to have a permit (`Fetcher.exists_ask`), and what a fetch comes to
is what its reply has come to on that clock (`Fetcher.comesTo_of_reached`).
-/

set_option autoImplicit false

namespace ModuleLinker.Link

/-- Whether the server has been asked and the reply is waited for. -/
def Phase.isRequested : Phase → Bool
  | requested _ => true
  | _ => false

theorem Phase.holds_of_isRequested {phase : Phase} (asked : phase.isRequested = true) :
    phase.holds = true := by
  cases phase <;> first | rfl | cases asked

/-- What fetches are for, and what comes of asking the servers. -/
structure Errands (κ : Type) where
  /-- The module of a fetch. -/
  module : κ → Specifier
  /-- What comes of asking the server. -/
  reply : κ → Reply
  /-- How long a fetch may take, in milliseconds. -/
  timeout : Nat

namespace Errands

variable {κ : Type}

/-- What the reply to a fetch has come to after some time. -/
def outcome? (errands : Errands κ) (k : κ) (elapsed : Nat) : Option (Except LoadError String) :=
  (errands.reply k).outcome? (errands.module k) errands.timeout elapsed

/-- The error of a fetch of a local module. -/
def rejected (errands : Errands κ) (k : κ) : LoadError :=
  .malformedSpecifier (errands.module k).text "" "not a network specifier"

/-- What a fetch can come to: it has been for a local module, or its reply has come to something, which
has been put into the cache with some outcome if it was a source. -/
def ComesTo (errands : Errands κ) (k : κ) (result : Except LoadError String) : Prop :=
  ((errands.module k).isLocal = true ∧ result = .error (errands.rejected k)) ∨
    ∃ elapsed answer, ∃ outcome : Except LoadError Unit,
      errands.outcome? k elapsed = some answer ∧
      result = answer.bind fun body => outcome.map fun _ => body

/-- A reply that is sent within the deadline is taken, however late that is noticed. -/
theorem ComesTo.of_punctual {errands : Errands κ} {k : κ} {result : Except LoadError String}
    {delay : Nat} {answer : Except String Response} (h : errands.ComesTo k result)
    (isRemote : (errands.module k).isLocal = false) (replies : errands.reply k = .after delay answer)
    (punctual : delay ≤ errands.timeout) :
    ∃ outcome : Except LoadError Unit,
      result = (accept (errands.module k) answer).bind fun body => outcome.map fun _ => body := by
  rcases h with ⟨isLocal, -⟩ | ⟨elapsed, found, outcome, arrived, same⟩
  · rw [isLocal] at isRemote
    cases isRemote
  · refine ⟨outcome, ?_⟩
    rw [outcome?, replies, Reply.outcome?] at arrived
    split at arrived
    case isTrue =>
      cases arrived
      exact same
    case isFalse early =>
      rw [if_neg (by omega)] at arrived
      cases arrived

end Errands

/-! ## Permits -/

namespace Permits

variable {κ : Type}

/-- The fetches under way that wait for a permit. -/
def waiting (active : Multiset (κ × Phase)) : Multiset κ :=
  (active.filter (·.2 = .queued)).map Prod.fst

/-- How many fetches under way have a permit. -/
def holders (active : Multiset (κ × Phase)) : Nat := active.countP (·.2.holds = true)

/-- How many fetches under way have asked the server and wait for the reply. -/
def outstanding (active : Multiset (κ × Phase)) : Nat := active.countP (·.2.isRequested = true)

/-- What there is to some permits: each one is free or with a fetch under way, the line consists of the
fetches that wait, and they wait only while none is free. -/
structure Balanced (total : Nat) (p : Permits κ) (active : Multiset (κ × Phase)) : Prop where
  line : (p.queue : Multiset κ) = waiting active
  total : p.free + holders active = total
  busy : p.queue ≠ [] → p.free = 0
  under : ∀ k phase, (k, phase) ∈ active → phase = .queued ∨ phase.holds = true

variable {p : Permits κ} {active : Multiset (κ × Phase)} {total : Nat} {k : κ} {old phase : Phase}

theorem waiting_queued (k : κ) (active : Multiset (κ × Phase)) :
    waiting ((k, .queued) ::ₘ active) = k ::ₘ waiting active := by
  simp [waiting]

theorem waiting_other (k : κ) (other : phase ≠ .queued) (active : Multiset (κ × Phase)) :
    waiting ((k, phase) ::ₘ active) = waiting active := by
  simp [waiting, other]

theorem holders_of_holds (k : κ) (holds : phase.holds = true) (active : Multiset (κ × Phase)) :
    holders ((k, phase) ::ₘ active) = holders active + 1 := Multiset.countP_cons_of_pos _ holds

theorem holders_queued (k : κ) (active : Multiset (κ × Phase)) :
    holders ((k, .queued) ::ₘ active) = holders active :=
  Multiset.countP_cons_of_neg _ Bool.false_ne_true

theorem ne_queued_of_holds (holds : phase.holds = true) : phase ≠ .queued := fun same => by
  rw [same] at holds
  cases holds

theorem balanced_ofCap (cap : Nat) : (ofCap cap : Permits κ).Balanced (max cap 1) 0 where
  line := rfl
  total := Nat.add_zero _
  busy line := absurd rfl line
  under _ _ mem := absurd mem (Multiset.notMem_zero _)

/-- One fetch more is under way. -/
theorem under_cons (h : p.Balanced total active) (new : phase = .queued ∨ phase.holds = true) :
    ∀ t other, (t, other) ∈ (k, phase) ::ₘ active → other = .queued ∨ other.holds = true := by
  intro t other mem
  rcases Multiset.mem_cons.mp mem with same | mem
  · cases same
    exact new
  · exact h.under t other mem

theorem outstanding_le_holders (active : Multiset (κ × Phase)) :
    outstanding active ≤ holders active := by
  rw [outstanding, holders, Multiset.countP_eq_card_filter, Multiset.countP_eq_card_filter]
  exact Multiset.card_le_card
    (Multiset.monotone_filter_right active fun _ => Phase.holds_of_isRequested)

/-- A fetch takes a permit or waits for one. -/
theorem Balanced.acquire (h : p.Balanced total active) (k : κ) :
    (p.acquire k).2.Balanced total ((k, (p.acquire k).1) ::ₘ active) := by
  have line := h.line
  have total := h.total
  unfold Permits.acquire
  split
  case isTrue none =>
    constructor
    case line =>
      rw [waiting_queued, ← line]
      exact (Multiset.coe_add p.queue [k]).symm.trans (Multiset.add_comm _ _)
    case total => rw [holders_queued]; exact total
    case busy => exact fun _ => none
    case under => exact under_cons h (.inl rfl)
  case isFalse some =>
    constructor
    case line => rw [waiting_other k (ne_queued_of_holds rfl)]; exact line
    case total =>
      rw [holders_of_holds k rfl]
      show p.free - 1 + _ = _
      omega
    case busy => exact fun busy => absurd (h.busy busy) some
    case under => exact under_cons h (.inr rfl)

/-- A fetch that has a permit goes on with it. -/
theorem Balanced.move (h : p.Balanced total ((k, old) ::ₘ active)) (was : old.holds = true)
    (becomes : phase.holds = true) : p.Balanced total ((k, phase) ::ₘ active) where
  line := by
    have line := h.line
    rw [waiting_other k (ne_queued_of_holds was)] at line
    rw [waiting_other k (ne_queued_of_holds becomes)]
    exact line
  total := by
    have total := h.total
    rw [holders_of_holds k was] at total
    rw [holders_of_holds k becomes]
    exact total
  busy := h.busy
  under t other mem := by
    rcases Multiset.mem_cons.mp mem with same | mem
    · cases same
      exact .inr becomes
    · exact h.under t other (Multiset.mem_cons_of_mem mem)

/-- A fetch that has a permit takes it away with it. -/
theorem Balanced.drop (h : p.Balanced total ((k, phase) ::ₘ active)) (holds : phase.holds = true) :
    ∃ less, total = less + 1 ∧ p.Balanced less active := by
  have line := h.line
  have total := h.total
  rw [waiting_other k (ne_queued_of_holds holds)] at line
  rw [holders_of_holds k holds] at total
  exact ⟨p.free + holders active, total.symm, line, rfl, h.busy,
    fun t other mem => h.under t other (Multiset.mem_cons_of_mem mem)⟩

/-- A fetch leaves the line. -/
def leave [DecidableEq κ] (p : Permits κ) (k : κ) : Permits κ := { p with queue := p.queue.erase k }

theorem Balanced.leave [DecidableEq κ] (h : p.Balanced total ((k, .queued) ::ₘ active)) :
    (p.leave k).Balanced total active where
  line := by
    have line := h.line
    rw [waiting_queued] at line
    show ((p.queue.erase k : List κ) : Multiset κ) = _
    rw [← Multiset.coe_erase, line, Multiset.erase_cons_head]
  total := by
    have total := h.total
    rw [holders_queued] at total
    exact total
  busy busy := h.busy fun none => busy (by
    show p.queue.erase k = []
    rw [none]
    rfl)
  under t other mem := h.under t other (Multiset.mem_cons_of_mem mem)

/-- A permit that nobody waits for is free again. -/
theorem Balanced.free (h : p.Balanced total active) (none : p.queue = []) :
    Balanced (total + 1) ⟨p.free + 1, []⟩ active where
  line := none ▸ h.line
  total := by
    have total := h.total
    show p.free + 1 + _ = _
    omega
  busy line := absurd rfl line
  under := h.under

/-- A permit goes to the first one in the line. -/
theorem Balanced.grant {more : List κ} (h : p.Balanced total ((k, .queued) ::ₘ active))
    (first : p.queue = k :: more) :
    Balanced (total + 1) { p with queue := more } ((k, .granted) ::ₘ active) where
  line := by
    have line := h.line
    rw [first, waiting_queued, ← Multiset.cons_coe, Multiset.cons_inj_right] at line
    rw [waiting_other k (ne_queued_of_holds rfl)]
    exact line
  total := by
    have total := h.total
    rw [holders_queued] at total
    rw [holders_of_holds k rfl]
    show p.free + _ = _
    omega
  busy _ := h.busy (by rw [first]; exact List.cons_ne_nil k more)
  under t other mem := by
    rcases Multiset.mem_cons.mp mem with same | mem
    · cases same
      exact .inr rfl
    · exact h.under t other (Multiset.mem_cons_of_mem mem)

/-- Whoever is in the line is under way. -/
theorem Balanced.mem_active (h : p.Balanced total active) (mem : k ∈ p.queue) :
    (k, .queued) ∈ active := by
  have mem : k ∈ waiting active := h.line ▸ Multiset.mem_coe.mpr mem
  obtain ⟨⟨t, phase⟩, found, rfl⟩ := Multiset.mem_map.mp mem
  obtain ⟨found, queued⟩ := Multiset.mem_filter.mp found
  cases queued
  exact found

end Permits

/-- Fetches that share permits. -/
structure Fetcher (κ : Type) where
  /-- The permits to ask a server. -/
  permits : Permits κ
  /-- The fetches under way, and how far they have come. -/
  active : Multiset (κ × Phase)
  /-- What the fetches have come to that have ended by themselves. -/
  ended : List (κ × Except LoadError String)
  /-- The time. -/
  now : Nat

namespace Fetcher

variable {κ : Type} [DecidableEq κ]

/-- A fetcher without fetches. -/
def idle (cap : Nat) : Fetcher κ := ⟨.ofCap cap, 0, [], 0⟩

/-- A fetch goes on to another phase. -/
def move (f : Fetcher κ) (k : κ) (old phase : Phase) : Fetcher κ :=
  { f with active := (k, phase) ::ₘ f.active.erase (k, old) }

/-- A fetch in a phase is not under way any more. -/
def leave (f : Fetcher κ) (k : κ) (phase : Phase) : Fetcher κ :=
  { f with active := f.active.erase (k, phase) }

/-- Gives a permit back; the longest waiting fetch gets it. -/
def release (f : Fetcher κ) : Fetcher κ :=
  match f.permits.release with
  | (none, permits) => { f with permits := permits }
  | (some k, permits) => ({ f with permits := permits } : Fetcher κ).move k .queued .granted

/-- A fetch begins. -/
def call (f : Fetcher κ) (k : κ) : Fetcher κ :=
  { f with
    permits := (f.permits.acquire k).2
    active := (k, (f.permits.acquire k).1) ::ₘ f.active }

/-- A fetch comes to something, and gives its permit back. -/
def finish (f : Fetcher κ) (k : κ) (phase : Phase) (result : Except LoadError String) : Fetcher κ :=
  { (f.leave k phase).release with ended := f.ended ++ [(k, result)] }

/-- A fetch in a phase is given up: it leaves the line, or gives its permit back. -/
def cancel (f : Fetcher κ) (k : κ) (phase : Phase) : Fetcher κ :=
  if phase = .queued then { f.leave k phase with permits := f.permits.leave k }
  else (f.leave k phase).release

/-- What can happen to fetches. -/
inductive Event (κ : Type) where
  /-- A fetch begins. -/
  | call (k : κ)
  /-- The server is asked. -/
  | ask (k : κ)
  /-- The reply has come to something. -/
  | answer (k : κ)
  /-- What has been sent has been put into the cache. -/
  | store (k : κ)
  /-- A fetch is given up. -/
  | cancel (k : κ)
  /-- Time goes on. -/
  | wait (time : Nat)
  deriving DecidableEq

/-- The events that are possible, and the fetcher after them. -/
inductive Occurs (errands : Errands κ) (f : Fetcher κ) : Event κ → Fetcher κ → Prop
  | reject {k : κ} (isLocal : (errands.module k).isLocal = true) :
      Occurs errands f (.call k) { f with ended := f.ended ++ [(k, .error (errands.rejected k))] }
  | call {k : κ} (isRemote : (errands.module k).isLocal = false) :
      Occurs errands f (.call k) (f.call k)
  | ask {k : κ} (granted : (k, .granted) ∈ f.active) :
      Occurs errands f (.ask k) (f.move k .granted (.requested f.now))
  | receive {k : κ} {since : Nat} {body : String} {outcome : Except LoadError Unit}
      (asked : (k, .requested since) ∈ f.active)
      (arrived : errands.outcome? k (f.now - since) = some (.ok body)) :
      Occurs errands f (.answer k) (f.move k (.requested since) (.storing body outcome))
  | refuse {k : κ} {since : Nat} {e : LoadError} (asked : (k, .requested since) ∈ f.active)
      (arrived : errands.outcome? k (f.now - since) = some (.error e)) :
      Occurs errands f (.answer k) (f.finish k (.requested since) (.error e))
  | store {k : κ} {body : String} {outcome : Except LoadError Unit}
      (received : (k, .storing body outcome) ∈ f.active) :
      Occurs errands f (.store k) (f.finish k (.storing body outcome) (outcome.map fun _ => body))
  | cancel {k : κ} {phase : Phase} (active : (k, phase) ∈ f.active) :
      Occurs errands f (.cancel k) (f.cancel k phase)
  | wait {time : Nat} : Occurs errands f (.wait time) { f with now := max time f.now }

/-- The events that lead from one fetcher to another. -/
inductive Leads (errands : Errands κ) : Fetcher κ → List (Event κ) → Fetcher κ → Prop
  | nil (f : Fetcher κ) : Leads errands f [] f
  | cons {f g last : Fetcher κ} {event : Event κ} {events : List (Event κ)}
      (occurs : f.Occurs errands event g) (more : Leads errands g events last) :
      Leads errands f (event :: events) last

/-- A fetcher with some number of fetches at a time that events have led to. -/
def Reached (errands : Errands κ) (cap : Nat) (events : List (Event κ)) (f : Fetcher κ) : Prop :=
  Leads errands (idle cap) events f

variable {errands : Errands κ} {cap total : Nat} {f g : Fetcher κ} {k t : κ} {old phase : Phase}
  {event : Event κ} {events more : List (Event κ)}

theorem Leads.append {last : Fetcher κ} (first : Leads errands f events g)
    (second : Leads errands g more last) : Leads errands f (events ++ more) last := by
  induction first with
  | nil => exact second
  | cons occurs _ ih => exact .cons occurs (ih second)

/-- What every event keeps of what is reached holds of all of it. -/
theorem Reached.keeps {P : List (Event κ) → Fetcher κ → Prop} (h : Reached errands cap events f)
    (step : ∀ {done f event g}, Reached errands cap done f → f.Occurs errands event g → P done f →
      P (done ++ [event]) g)
    (start : P [] (idle cap)) : P events f := by
  have all : ∀ {done f events last}, Reached errands cap done f → P done f →
      Leads errands f events last → P (done ++ events) last := by
    intro done f events last reached holds leads
    induction leads generalizing done with
    | nil =>
      rw [List.append_nil]
      exact holds
    | cons occurs _ ih =>
      have next := ih (reached.append (.cons occurs (.nil _))) (step reached occurs holds)
      rw [List.append_assoc] at next
      exact next
  exact all (.nil _) start h

/-! ## Balance -/

theorem release_of_nil (none : f.permits.queue = []) :
    f.release = { f with permits := ⟨f.permits.free + 1, []⟩ } := by
  unfold release Permits.release
  rw [none]

theorem release_of_cons {line : List κ} (first : f.permits.queue = k :: line) :
    f.release = ({ f with permits := { f.permits with queue := line } } : Fetcher κ).move k
      .queued .granted := by
  unfold release Permits.release
  rw [first]

/-- A permit that is given back goes to a fetch that waits for one, or is free. -/
theorem balanced_release (h : f.permits.Balanced total f.active) :
    f.release.permits.Balanced (total + 1) f.release.active := by
  rcases line : f.permits.queue with _ | ⟨k, more⟩
  · rw [release_of_nil line]
    exact h.free line
  · rw [release_of_cons line]
    have queued := h.mem_active (line ▸ List.mem_cons_self)
    rw [← Multiset.cons_erase queued] at h
    exact h.grant line

/-- A fetch that has a permit gives it back when it ends. -/
theorem balanced_release_leave (h : f.permits.Balanced total f.active) (mem : (k, phase) ∈ f.active)
    (holds : phase.holds = true) :
    (f.leave k phase).release.permits.Balanced total (f.leave k phase).release.active := by
  rw [← Multiset.cons_erase mem] at h
  obtain ⟨less, rfl, rest⟩ := h.drop holds
  have left : (f.leave k phase).permits.Balanced less (f.leave k phase).active := rest
  exact balanced_release left

/-- The permits stay balanced. -/
theorem Occurs.balanced (h : f.permits.Balanced total f.active) (occurs : f.Occurs errands event g) :
    g.permits.Balanced total g.active := by
  cases occurs with
  | reject _ => exact h
  | @call k _ => exact h.acquire k
  | ask granted =>
    rw [← Multiset.cons_erase granted] at h
    exact h.move rfl rfl
  | receive asked _ =>
    rw [← Multiset.cons_erase asked] at h
    exact h.move rfl rfl
  | refuse asked _ => exact balanced_release_leave h asked rfl
  | store received => exact balanced_release_leave h received rfl
  | @cancel k phase active =>
    unfold Fetcher.cancel
    rcases h.under k phase active with queued | holds
    · subst queued
      rw [if_pos rfl]
      rw [← Multiset.cons_erase active] at h
      exact h.leave
    · rw [if_neg (Permits.ne_queued_of_holds holds)]
      exact balanced_release_leave h active holds
  | wait => exact h

/-- The permits are balanced whatever events have led to a fetcher. -/
theorem Reached.balanced (h : Reached errands cap events f) :
    f.permits.Balanced (max cap 1) f.active :=
  h.keeps (P := fun _ f => f.permits.Balanced (max cap 1) f.active)
    (fun _ occurs balanced => occurs.balanced balanced) (Permits.balanced_ofCap cap)

/-! ## The clock of a fetch -/

theorem mem_release (mem : (k, phase) ∈ f.release.active) :
    (k, phase) ∈ f.active ∨ phase = .granted := by
  rcases line : f.permits.queue with _ | ⟨t, more⟩
  · rw [release_of_nil line] at mem
    exact .inl mem
  · rw [release_of_cons line] at mem
    rcases Multiset.mem_cons.mp mem with same | mem
    · cases same
      exact .inr rfl
    · exact .inl (Multiset.mem_of_mem_erase mem)

/-- How a fetch comes into a phase in an event. -/
inductive Enters (errands : Errands κ) (f : Fetcher κ) : Event κ → κ → Phase → Prop
  | line {event : Event κ} {k : κ} : Enters errands f event k .queued
  | grant {event : Event κ} {k : κ} : Enters errands f event k .granted
  | ask {k : κ} (granted : (k, .granted) ∈ f.active) :
      Enters errands f (.ask k) k (.requested f.now)
  | receive {k : κ} {since : Nat} {body : String} {outcome : Except LoadError Unit}
      (arrived : errands.outcome? k (f.now - since) = some (.ok body)) :
      Enters errands f (.answer k) k (.storing body outcome)

/-- A fetch stays in its phase or comes into one. -/
theorem Occurs.enters (occurs : f.Occurs errands event g) (mem : (k, phase) ∈ g.active) :
    (k, phase) ∈ f.active ∨ Enters errands f event k phase := by
  -- A permit that is given back lets at most one fetch go on.
  have released {t : κ} {old : Phase} (mem : (k, phase) ∈ (f.leave t old).release.active) :
      (k, phase) ∈ f.active ∨ Enters errands f event k phase := by
    rcases mem_release mem with mem | granted
    · exact .inl (Multiset.mem_of_mem_erase mem)
    · subst granted
      exact .inr .grant
  cases occurs with
  | reject _ => exact .inl mem
  | @call t _ =>
    rcases Multiset.mem_cons.mp mem with same | mem
    · cases same
      unfold Permits.acquire
      split
      · exact .inr .line
      · exact .inr .grant
    · exact .inl mem
  | ask granted =>
    rcases Multiset.mem_cons.mp mem with same | mem
    · cases same
      exact .inr (.ask granted)
    · exact .inl (Multiset.mem_of_mem_erase mem)
  | receive _ arrived =>
    rcases Multiset.mem_cons.mp mem with same | mem
    · cases same
      exact .inr (.receive arrived)
    · exact .inl (Multiset.mem_of_mem_erase mem)
  | refuse => exact released mem
  | store => exact released mem
  | @cancel t old _ =>
    unfold Fetcher.cancel at mem
    split at mem
    · exact .inl (Multiset.mem_of_mem_erase mem)
    · exact released mem
  | wait => exact .inl mem

/-- The clock of a fetch has started when it has asked the server, and it had a permit then. -/
theorem exists_ask {since : Nat} (h : Reached errands cap events f)
    (mem : (k, .requested since) ∈ f.active) :
    ∃ before after g, events = before ++ .ask k :: after ∧ Reached errands cap before g ∧
      (k, .granted) ∈ g.active ∧ g.now = since := by
  revert k since
  refine h.keeps (P := fun events f => ∀ {k : κ} {since : Nat}, (k, .requested since) ∈ f.active →
    ∃ before after g, events = before ++ .ask k :: after ∧ Reached errands cap before g ∧
      (k, .granted) ∈ g.active ∧ g.now = since) ?_ fun mem => absurd mem (Multiset.notMem_zero _)
  intro done f event g reached occurs before k since mem
  rcases occurs.enters mem with mem | enters
  · obtain ⟨before, after, g, split, rest⟩ := before mem
    exact ⟨before, after ++ [event], g, by rw [split, List.append_assoc]; rfl, rest⟩
  · cases enters with
    | ask granted => exact ⟨done, [], f, rfl, reached, granted, rfl⟩

/-! ## What fetches come to -/

@[simp]
theorem ended_release (f : Fetcher κ) : f.release.ended = f.ended := by
  rcases line : f.permits.queue with _ | ⟨t, more⟩
  · rw [release_of_nil line]
  · rw [release_of_cons line]
    rfl

@[simp]
theorem now_release (f : Fetcher κ) : f.release.now = f.now := by
  rcases line : f.permits.queue with _ | ⟨t, more⟩
  · rw [release_of_nil line]
  · rw [release_of_cons line]
    rfl

/-- What a fetch comes to is what its reply has come to, also while it is put into the cache. -/
structure Truthful (errands : Errands κ) (f : Fetcher κ) : Prop where
  sent : ∀ k body outcome, (k, .storing body outcome) ∈ f.active →
    ∃ elapsed, errands.outcome? k elapsed = some (.ok body)
  ended : ∀ k result, (k, result) ∈ f.ended → errands.ComesTo k result

theorem Occurs.sent (h : f.Truthful errands) (occurs : f.Occurs errands event g) {body : String}
    {outcome : Except LoadError Unit} (mem : (k, .storing body outcome) ∈ g.active) :
    ∃ elapsed, errands.outcome? k elapsed = some (.ok body) := by
  rcases occurs.enters mem with mem | enters
  · exact h.sent k body outcome mem
  · cases enters with
    | receive arrived => exact ⟨_, arrived⟩

theorem Occurs.truthful (h : f.Truthful errands) (occurs : f.Occurs errands event g) :
    g.Truthful errands := by
  refine ⟨fun k body outcome mem => occurs.sent h mem, ?_⟩
  have more {t : κ} {result : Except LoadError String} (new : errands.ComesTo t result) :
      ∀ k found, (k, found) ∈ f.ended ++ [(t, result)] → errands.ComesTo k found := by
    intro k found mem
    rcases List.mem_append.mp mem with mem | mem
    · exact h.ended k found mem
    · cases List.mem_singleton.mp mem
      exact new
  cases occurs with
  | reject isLocal => exact more (.inl ⟨isLocal, rfl⟩)
  | refuse _ arrived => exact more (.inr ⟨_, _, .ok (), arrived, rfl⟩)
  | @store k body outcome received =>
    obtain ⟨elapsed, arrived⟩ := h.sent k body outcome received
    exact more (.inr ⟨elapsed, _, outcome, arrived, rfl⟩)
  | @cancel k phase _ =>
    unfold Fetcher.cancel
    split
    · exact h.ended
    · rw [ended_release]
      exact h.ended
  | _ => exact h.ended

/-- What a fetch comes to is what its reply has come to at some time. -/
theorem comesTo_of_reached (h : Reached errands cap events f) {result : Except LoadError String}
    (mem : (k, result) ∈ f.ended) : errands.ComesTo k result := by
  have truthful := h.keeps (P := fun _ f => f.Truthful errands)
    (fun _ occurs truthful => occurs.truthful truthful)
    ⟨fun _ _ _ mem => absurd mem (Multiset.notMem_zero _), fun _ _ mem => by cases mem⟩
  exact truthful.ended k result mem

/-! ## Giving up -/

/-- The tickets of the fetches under way. -/
def tickets (f : Fetcher κ) : Multiset κ := f.active.map Prod.fst

theorem tickets_release (h : f.permits.Balanced total f.active) : f.release.tickets = f.tickets := by
  rcases line : f.permits.queue with _ | ⟨k, more⟩
  · rw [release_of_nil line]
    rfl
  · rw [release_of_cons line]
    have queued := h.mem_active (line ▸ List.mem_cons_self)
    unfold tickets
    conv_rhs => rw [← Multiset.cons_erase queued, Multiset.map_cons]
    exact Multiset.map_cons ..

theorem tickets_leave (mem : (k, phase) ∈ f.active) : k ::ₘ (f.leave k phase).tickets = f.tickets := by
  unfold tickets
  conv_rhs => rw [← Multiset.cons_erase mem, Multiset.map_cons]
  rfl

/-- Only the fetch that is given up is gone. -/
theorem tickets_cancel (h : f.permits.Balanced total f.active) (mem : (k, phase) ∈ f.active) :
    k ::ₘ (f.cancel k phase).tickets = f.tickets := by
  rw [← tickets_leave mem]
  unfold Fetcher.cancel
  rcases h.under k phase mem with queued | holds
  · rw [if_pos queued]
    rfl
  · rw [if_neg (Permits.ne_queued_of_holds holds)]
    rw [← Multiset.cons_erase mem] at h
    obtain ⟨less, -, rest⟩ := h.drop holds
    have left : (f.leave k phase).permits.Balanced less (f.leave k phase).active := rest
    rw [tickets_release left]

theorem cancel_books (f : Fetcher κ) (k : κ) (phase : Phase) :
    (f.cancel k phase).ended = f.ended ∧ (f.cancel k phase).now = f.now := by
  unfold Fetcher.cancel
  split
  · exact ⟨rfl, rfl⟩
  · rw [ended_release, now_release]
    exact ⟨rfl, rfl⟩

/-- The fetches of a run that is given up can be given up one after another; the others stay. -/
theorem exists_leads_cancel (errands : Errands κ) (h : f.permits.Balanced total f.active)
    (mine : κ → Bool) :
    ∃ events g, (∀ event ∈ events, ∃ k, mine k = true ∧ event = .cancel k) ∧
      Leads errands f events g ∧ g.tickets = f.tickets.filter (mine · = false) ∧
      g.ended = f.ended ∧ g.now = f.now := by
  -- By induction on how many fetches are still to be given up.
  induction count : f.tickets.countP (mine · = true) generalizing f with
  | zero =>
    refine ⟨[], f, fun _ mem => (by cases mem), .nil f, ?_, rfl, rfl⟩
    refine (Multiset.filter_eq_self.mpr fun k mem => ?_).symm
    by_contra here
    exact Multiset.countP_eq_zero.mp count k mem (Bool.eq_true_of_not_eq_false here)
  | succ n ih =>
    obtain ⟨k, mem, here⟩ := Multiset.countP_pos.mp (by omega : 0 < f.tickets.countP (mine · = true))
    obtain ⟨⟨k, phase⟩, found, rfl⟩ := Multiset.mem_map.mp mem
    have here : mine k = true := here
    have occurs : f.Occurs errands (.cancel k) (f.cancel k phase) := .cancel found
    have tickets := tickets_cancel h found
    obtain ⟨ended, now⟩ := cancel_books f k phase
    have fewer : (f.cancel k phase).tickets.countP (mine · = true) = n := by
      rw [← tickets] at count
      simpa [here] using count
    have others : f.tickets.filter (mine · = false) =
        (f.cancel k phase).tickets.filter (mine · = false) := by
      rw [← tickets]
      simp [here]
    obtain ⟨events, g, all, leads, left, ended', now'⟩ := ih (occurs.balanced h) fewer
    refine ⟨.cancel k :: events, g, ?_, .cons occurs leads, left.trans others.symm,
      ended'.trans ended, now'.trans now⟩
    intro event mem
    rcases List.mem_cons.mp mem with rfl | mem
    · exact ⟨k, here, rfl⟩
    · exact all event mem

/-! ## Everything -/

/-- What there is to a fetcher that events have led to: no more replies are waited for than there are
permits, and each permit is free or with a fetch under way; the clock of a fetch has started when it has
asked the server with a permit; what a fetch comes to is what its reply comes to, and a reply that is sent
within the deadline is taken, however long the fetch has waited for its permit; and the fetches of a run
can all be given up. -/
structure Lawful (errands : Errands κ) (cap : Nat) (events : List (Event κ)) (f : Fetcher κ) :
    Prop where
  outstanding_le : Permits.outstanding f.active ≤ max cap 1
  total : f.permits.free + Permits.holders f.active = max cap 1
  busy : f.permits.queue ≠ [] → f.permits.free = 0
  free : f.active = 0 → f.permits.free = max cap 1
  clock : ∀ k since, (k, .requested since) ∈ f.active →
    ∃ before after g, events = before ++ .ask k :: after ∧ Reached errands cap before g ∧
      (k, .granted) ∈ g.active ∧ g.now = since
  comesTo : ∀ k result, (k, result) ∈ f.ended → errands.ComesTo k result
  punctual : ∀ k result delay answer, (k, result) ∈ f.ended →
    (errands.module k).isLocal = false → errands.reply k = .after delay answer →
    delay ≤ errands.timeout → ∃ outcome : Except LoadError Unit,
      result = (accept (errands.module k) answer).bind fun body => outcome.map fun _ => body
  abort : ∀ mine : κ → Bool, ∃ more g, (∀ event ∈ more, ∃ k, mine k = true ∧ event = .cancel k) ∧
    Reached errands cap (events ++ more) g ∧ g.tickets = f.tickets.filter (mine · = false) ∧
    g.ended = f.ended ∧ g.now = f.now

theorem lawful_of_reached (h : Reached errands cap events f) : f.Lawful errands cap events := by
  have balanced := h.balanced
  constructor
  case outstanding_le =>
    have total := balanced.total
    have less := Permits.outstanding_le_holders f.active
    omega
  case total => exact balanced.total
  case busy => exact balanced.busy
  case free =>
    intro none
    have total := balanced.total
    rw [none] at total
    exact total
  case clock => exact fun k since mem => exists_ask h mem
  case comesTo => exact fun k result mem => comesTo_of_reached h mem
  case punctual =>
    exact fun k result delay answer mem isRemote replies punctual =>
      (comesTo_of_reached h mem).of_punctual isRemote replies punctual
  case abort =>
    intro mine
    obtain ⟨more, g, all, leads, rest⟩ := exists_leads_cancel errands balanced mine
    exact ⟨more, g, all, Leads.append h leads, rest⟩

end Fetcher

end ModuleLinker.Link
