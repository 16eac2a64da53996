import ModuleLinker.Link.Pending

/-!
# What a sweep does

A sweep over the imports that are not settled visits imports one after another, from left to right,
and finishes modules on its way. `Pending.exists_account` says all that later proofs need to know of
it: which imports are visited, how the state is handed from one act to the next, what the visits
leave, and what becomes of the modules whose imports are looked after.

A failure among many imports is held back. From then on parts of the forest can be dropped without
having been settled, so the exact part of an account (`Pending.Exact`) is about sweeps without
failures, and `Pending.hopeless` marks the forests for which there is no such part.
-/

set_option autoImplicit false

namespace ModuleLinker.Link

/-- The module of an import. -/
def Task.specifier : Task → Specifier
  | .idle s => s
  | .waiting s _ => s

/-- The imports that a verdict leaves of one. -/
def Verdict.leaves (t : Task) : Verdict → List Task
  | .stay => [t]
  | .wait owner => [.waiting t.specifier owner]
  | .link imports => imports.map .idle
  | .settled | .fail _ => []

/-- What a sweep does in passing. -/
inductive Act where
  /-- An import is visited, with a verdict. -/
  | visited (t : Task) (v : Verdict)
  /-- A module is finished. -/
  | finished (s : Specifier)
  deriving DecidableEq

namespace Act

/-- The import that is visited. -/
def task? : Act → Option Task
  | visited t _ => some t
  | finished _ => none

/-- The imports that are left of the one that is visited. -/
def leaves : Act → List Task
  | visited t v => v.leaves t
  | finished _ => []

/-- Whether an import has failed. -/
def fails : Act → Bool
  | visited _ (.fail _) => true
  | _ => false

/-- Whether no import is visited, or one that stays as it is. -/
def stays : Act → Bool
  | visited _ .stay | finished _ => true
  | _ => false

end Act

section Passes

variable {σ : Type} (visit : Task → σ → Verdict × σ) (finish : Specifier → σ → σ)

/-- Acts that lead from one state to another. -/
inductive Passes : σ → List Act → σ → Prop
  | nil (a : σ) : Passes a [] a
  | visited {a b c : σ} {t : Task} {v : Verdict} {acts : List Act} (verdict : visit t a = (v, b))
      (more : Passes b acts c) : Passes a (.visited t v :: acts) c
  | finished {a c : σ} {s : Specifier} {acts : List Act} (more : Passes (finish s a) acts c) :
      Passes a (.finished s :: acts) c

variable {visit finish}

/-- Acts can be done one after another. -/
theorem Passes.append {a b c : σ} {acts more : List Act} (first : Passes visit finish a acts b)
    (second : Passes visit finish b more c) : Passes visit finish a (acts ++ more) c := by
  induction first with
  | nil => exact second
  | visited verdict _ ih => exact .visited verdict (ih second)
  | finished _ ih => exact .finished (ih second)

/-- Acts in two parts lead through a state between the parts. -/
theorem Passes.split {a c : σ} {acts more : List Act} (h : Passes visit finish a (acts ++ more) c) :
    ∃ b, Passes visit finish a acts b ∧ Passes visit finish b more c := by
  induction acts generalizing a with
  | nil => exact ⟨a, .nil a, h⟩
  | cons act acts ih =>
    cases h with
    | visited verdict rest =>
      obtain ⟨b, first, second⟩ := ih rest
      exact ⟨b, .visited verdict first, second⟩
    | finished rest =>
      obtain ⟨b, first, second⟩ := ih rest
      exact ⟨b, .finished first, second⟩

/-- What every act keeps is kept by all acts together. -/
theorem Passes.keeps {P : σ → Prop} {a b : σ} {acts : List Act} (h : Passes visit finish a acts b)
    (visited : ∀ t a, P a → P (visit t a).2) (finished : ∀ s a, P a → P (finish s a)) (start : P a) :
    P b := by
  induction h with
  | nil => exact start
  | @visited a b _ t v _ verdict _ ih =>
    have here := visited t a start
    rw [verdict] at here
    exact ih here
  | @finished a _ s _ _ ih => exact ih (finished s a start)

end Passes

namespace Pending

/-- The modules whose own imports are not settled, from left to right. -/
def linkings : Pending → List Specifier
  | .nil => []
  | .idle _ rest => linkings rest
  | .waiting _ _ rest => linkings rest
  | .linking s _ imports rest => s :: (linkings imports ++ linkings rest)
  | .held _ rest => linkings rest

/-- Whether a failure is held back somewhere. -/
def hopeless : Pending → Bool
  | .nil => false
  | .idle _ rest => hopeless rest
  | .waiting _ _ rest => hopeless rest
  | .linking _ _ imports rest => hopeless imports || hopeless rest
  | .held _ _ => true

/-- Whether imports start with one that is not settled and has not failed. -/
def opens : Pending → Bool
  | .nil | .held _ _ => false
  | _ => true

/-- Imports in the form in which a sweep leaves them: a module stays only as long as its first import
is not settled, and failures are held back only where they are told in order. How the failures among
the imports of a module are told is left to `told`. -/
def Proper (told : Specifier → Join → Prop) : Join → Pending → Prop
  | _, .nil => True
  | join, .idle _ rest => Proper told join rest
  | join, .waiting _ _ rest => Proper told join rest
  | join, .linking s inner imports rest =>
    told s inner ∧ imports.opens = true ∧ Proper told inner imports ∧ Proper told join rest
  | join, .held _ rest => join = .ordered ∧ Proper told join rest

/-- Some imports in front of others. -/
def append : Pending → Pending → Pending
  | .nil, more => more
  | .idle s rest, more => .idle s (append rest more)
  | .waiting s owner rest, more => .waiting s owner (append rest more)
  | .linking s join imports rest, more => .linking s join imports (append rest more)
  | .held e rest, more => .held e (append rest more)

@[simp]
theorem tasks_append (p q : Pending) : (p.append q).tasks = p.tasks ++ q.tasks := by
  induction p <;> simp_all [append, tasks]

@[simp]
theorem linkings_append (p q : Pending) : (p.append q).linkings = p.linkings ++ q.linkings := by
  induction p <;> simp_all [append, linkings]

@[simp]
theorem hopeless_append (p q : Pending) :
    (p.append q).hopeless = (p.hopeless || q.hopeless) := by
  induction p <;> simp_all [append, hopeless, Bool.or_assoc]

theorem proper_append {told : Specifier → Join → Prop} {join : Join} (p q : Pending) :
    (p.append q).Proper told join ↔ p.Proper told join ∧ q.Proper told join := by
  induction p <;> simp_all [append, Proper, and_assoc]

@[simp]
theorem tasks_ofList (imports : List Specifier) : (ofList imports).tasks = imports.map .idle := by
  induction imports <;> simp_all [ofList, tasks]

@[simp]
theorem hopeless_ofList (imports : List Specifier) : (ofList imports).hopeless = false := by
  induction imports <;> simp_all [ofList, hopeless]

theorem proper_ofList (told : Specifier → Join → Prop) (join : Join) (imports : List Specifier) :
    (ofList imports).Proper told join := by
  induction imports <;> simp_all [ofList, Proper]

/-! ## Accounts -/

/-- The exact part of an account: every import is visited, what is left is what the visits leave, and
a module whose imports are looked after is finished where they are settled. -/
structure Exact (p : Pending) (acts : List Act) (q : Pending) : Prop where
  visited : acts.filterMap Act.task? = p.tasks
  left : q.tasks = acts.flatMap Act.leaves
  hopeful : q.hopeless = false
  kept : ∀ s ∈ p.linkings, s ∈ q.linkings ∨ Act.finished s ∈ acts
  linked : ∀ t imports, Act.visited t (.link imports) ∈ acts → t.specifier ∈ q.linkings ∨
    [Act.visited t (.link imports), Act.finished t.specifier] <:+: acts

/-- Imports in front of others are accounted for together with them. -/
theorem Exact.append {p rest q r : Pending} {acts more : List Act} (first : Exact p acts q)
    (second : Exact rest more r) : Exact (p.append rest) (acts ++ more) (q.append r) where
  visited := by rw [List.filterMap_append, first.visited, second.visited, tasks_append]
  left := by rw [tasks_append, first.left, second.left, List.flatMap_append]
  hopeful := by rw [hopeless_append, first.hopeful, second.hopeful]; rfl
  kept s mem := by
    rw [linkings_append, List.mem_append] at mem ⊢
    rw [List.mem_append]
    rcases mem with mem | mem
    · rcases first.kept s mem with kept | done
      · exact .inl (.inl kept)
      · exact .inr (.inl done)
    · rcases second.kept s mem with kept | done
      · exact .inl (.inr kept)
      · exact .inr (.inr done)
  linked t imports mem := by
    rw [linkings_append, List.mem_append]
    rcases List.mem_append.mp mem with mem | mem
    · rcases first.linked t imports mem with kept | done
      · exact .inl (.inl kept)
      · exact .inr (done.trans (List.prefix_append acts more).isInfix)
    · rcases second.linked t imports mem with kept | done
      · exact .inl (.inr kept)
      · exact .inr (done.trans (List.suffix_append acts more).isInfix)

variable {σ : Type} {visit : Task → σ → Verdict × σ} {finish : Specifier → σ → σ}

/-- What some acts have to do with a sweep that starts from a state and has an outcome. -/
structure Account (visit : Task → σ → Verdict × σ) (finish : Specifier → σ → σ) (join : Join)
    (p : Pending) (a : σ) (acts : List Act) (out : Swept σ) : Prop where
  passes : Passes visit finish a acts out.2
  visited : (acts.filterMap Act.task?).Sublist p.tasks
  left : ∀ q, out.1 = .ok q → q.tasks.Sublist (acts.flatMap Act.leaves)
  exact : p.hopeless = false → (∀ act ∈ acts, act.fails = false) →
    ∃ q, out.1 = .ok q ∧ Exact p acts q
  hopeless : (p.hopeless = true ∨ ∃ act ∈ acts, act.fails = true) →
    ∀ q, out.1 = .ok q → q.hopeless = true
  proper : ∀ told, p.Proper told join →
    (∀ t imports, Act.visited t (.link imports) ∈ acts →
      told t.specifier (.ofCount imports.length)) →
    ∀ q, out.1 = .ok q → q.Proper told join
  still : ∀ told, p.Proper told join → (∀ act ∈ acts, act.stays = true) →
    acts.filterMap Act.task? = p.tasks ∧ out.1 = .ok p

/-- What is left of an import, as imports of its own. -/
def Head.left : Head → Except LoadError Pending
  | .gone => .ok .nil
  | .kept put => .ok (put .nil)
  | .failed e => .error e

/-- Whether what is left of an import is put in front of others as it is. -/
def Head.Fronts : Head → Prop
  | .kept put => ∀ q, put q = (put .nil).append q
  | .gone | .failed _ => True

/-- Where something is left of an import, the sweep goes on behind it. -/
theorem andThen_eq_prepend {join : Join} {next : σ → Swept σ} {h : Head × σ} {q : Pending}
    (fronts : h.1.Fronts) (left : h.1.left = .ok q) :
    andThen join next h = prepend q.append (next h.2) := by
  obtain ⟨head, b⟩ := h
  cases head with
  | gone =>
    cases left
    show next b = ((next b).1.map id, (next b).2)
    rw [Except.map_id]
    rfl
  | kept put =>
    cases left
    have same : put = (put .nil).append := funext fronts
    rw [andThen, ← same]
  | failed e => cases left

/-- The account of imports in front of others, where something is left of them. -/
theorem Account.append {join : Join} {p rest q : Pending} {a b : σ} {acts more : List Act}
    {out : Swept σ} (first : Account visit finish join p a acts (.ok q, b))
    (second : Account visit finish join rest b more out) :
    Account visit finish join (p.append rest) a (acts ++ more) (prepend q.append out) := by
  have inner : ∀ r, (prepend q.append out).1 = .ok r → ∃ r', out.1 = .ok r' ∧ r = q.append r' := by
    intro r same
    obtain ⟨left, c⟩ := out
    cases left with
    | error e => cases same
    | ok r' =>
      cases same
      exact ⟨r', rfl, rfl⟩
  constructor
  case passes => exact first.passes.append second.passes
  case visited =>
    rw [List.filterMap_append, tasks_append]
    exact first.visited.append second.visited
  case left =>
    intro r same
    obtain ⟨r', swept, rfl⟩ := inner r same
    rw [tasks_append, List.flatMap_append]
    exact (first.left q rfl).append (second.left r' swept)
  case exact =>
    intro hopeful calm
    rw [hopeless_append, Bool.or_eq_false_iff] at hopeful
    obtain ⟨q', same, exact₁⟩ := first.exact hopeful.1 fun act mem =>
      calm act (List.mem_append_left _ mem)
    obtain ⟨r', swept, exact₂⟩ := second.exact hopeful.2 fun act mem =>
      calm act (List.mem_append_right _ mem)
    cases same
    exact ⟨q.append r', by simp [prepend, swept, Except.map], exact₁.append exact₂⟩
  case hopeless =>
    intro why r same
    obtain ⟨r', swept, rfl⟩ := inner r same
    have one : (p.hopeless = true ∨ ∃ act ∈ acts, act.fails = true) ∨
        (rest.hopeless = true ∨ ∃ act ∈ more, act.fails = true) := by
      rcases why with hopeless | ⟨act, mem, fails⟩
      · rw [hopeless_append, Bool.or_eq_true] at hopeless
        exact hopeless.imp .inl .inl
      · rw [List.mem_append] at mem
        exact mem.imp (fun mem => .inr ⟨act, mem, fails⟩) fun mem => .inr ⟨act, mem, fails⟩
    rw [hopeless_append, Bool.or_eq_true]
    exact one.imp (fun why => first.hopeless why q rfl) fun why => second.hopeless why r' swept
  case proper =>
    intro told proper tells r same
    obtain ⟨r', swept, rfl⟩ := inner r same
    rw [proper_append] at proper ⊢
    exact ⟨first.proper told proper.1 (fun t imports mem =>
        tells t imports (List.mem_append_left _ mem)) q rfl,
      second.proper told proper.2 (fun t imports mem =>
        tells t imports (List.mem_append_right _ mem)) r' swept⟩
  case still =>
    intro told proper stays
    rw [proper_append] at proper
    obtain ⟨visited₁, same⟩ := first.still told proper.1 fun act mem =>
      stays act (List.mem_append_left _ mem)
    obtain ⟨visited₂, swept⟩ := second.still told proper.2 fun act mem =>
      stays act (List.mem_append_right _ mem)
    cases same
    refine ⟨by rw [List.filterMap_append, visited₁, visited₂, tasks_append], ?_⟩
    simp [prepend, swept, Except.map]

/-- The account of imports that end in a failure, in front of others that are not swept. -/
theorem Account.fail {join : Join} {p : Pending} (rest : Pending) {a b : σ} {acts : List Act}
    {e : LoadError} (first : Account visit finish join p a acts (.error e, b)) :
    Account visit finish join (p.append rest) a acts (.error e, b) := by
  have absurd (hopeful : (p.append rest).hopeless = false)
      (calm : ∀ act ∈ acts, act.fails = false) : False := by
    rw [hopeless_append, Bool.or_eq_false_iff] at hopeful
    obtain ⟨q, same, -⟩ := first.exact hopeful.1 calm
    cases same
  constructor
  case passes => exact first.passes
  case visited =>
    rw [tasks_append]
    exact first.visited.trans (List.sublist_append_left ..)
  case left => intro q same; cases same
  case exact => intro hopeful calm; exact (absurd hopeful calm).elim
  case hopeless => intro _ q same; cases same
  case proper => intro _ _ _ q same; cases same
  case still =>
    intro told proper stays
    rw [proper_append] at proper
    obtain ⟨-, same⟩ := first.still told proper.1 stays
    cases same

/-- The account of imports that end in a failure, which is held back in front of others. -/
theorem Account.hold {p rest : Pending} {a b : σ} {acts more : List Act} {e : LoadError}
    {out : Swept σ} (first : Account visit finish .ordered p a acts (.error e, b))
    (second : Account visit finish .ordered rest b more out) :
    Account visit finish .ordered (p.append rest) a (acts ++ more) (prepend (.held e) out) := by
  have inner : ∀ r, (prepend (.held e) out).1 = .ok r → ∃ r', out.1 = .ok r' ∧ r = .held e r' := by
    intro r same
    obtain ⟨left, c⟩ := out
    cases left with
    | error e => cases same
    | ok r' =>
      cases same
      exact ⟨r', rfl, rfl⟩
  constructor
  case passes => exact first.passes.append second.passes
  case visited =>
    rw [List.filterMap_append, tasks_append]
    exact first.visited.append second.visited
  case left =>
    intro r same
    obtain ⟨r', swept, rfl⟩ := inner r same
    rw [List.flatMap_append]
    exact (second.left r' swept).trans (List.sublist_append_right ..)
  case exact =>
    intro hopeful calm
    rw [hopeless_append, Bool.or_eq_false_iff] at hopeful
    obtain ⟨q, same, -⟩ := first.exact hopeful.1 fun act mem => calm act (List.mem_append_left _ mem)
    cases same
  case hopeless =>
    intro _ r same
    obtain ⟨r', -, rfl⟩ := inner r same
    rfl
  case proper =>
    intro told proper tells r same
    obtain ⟨r', swept, rfl⟩ := inner r same
    rw [proper_append] at proper
    exact ⟨rfl, second.proper told proper.2 (fun t imports mem =>
      tells t imports (List.mem_append_right _ mem)) r' swept⟩
  case still =>
    intro told proper stays
    rw [proper_append] at proper
    obtain ⟨-, same⟩ := first.still told proper.1 fun act mem => stays act (List.mem_append_left _ mem)
    cases same

/-- The account of an import in front of others. -/
theorem Account.andThen {join : Join} {p rest : Pending} {a : σ} {acts : List Act} {h : Head × σ}
    {next : σ → Swept σ} (fronts : h.1.Fronts)
    (first : Account visit finish join p a acts (h.1.left, h.2))
    (second : ∀ b, ∃ more, Account visit finish join rest b more (next b)) :
    ∃ all, Account visit finish join (p.append rest) a all (andThen join next h) := by
  cases left : h.1.left with
  | ok q =>
    obtain ⟨more, account⟩ := second h.2
    rw [left] at first
    rw [andThen_eq_prepend fronts left]
    exact ⟨acts ++ more, first.append account⟩
  | error e =>
    obtain ⟨head, b⟩ := h
    cases head with
    | gone => cases left
    | kept put => cases left
    | failed e =>
      cases join with
      | eager => exact ⟨acts, first.fail rest⟩
      | ordered =>
        obtain ⟨more, account⟩ := second b
        exact ⟨acts ++ more, first.hold account⟩

/-- A module stays where the first of its imports is not settled. -/
theorem relink_of_opens {s : Specifier} {join : Join} {q : Pending} {b : σ}
    (opens : q.opens = true) :
    relink finish s join (.ok q, b) = (.kept (.linking s join q), b) := by
  cases q with
  | nil => cases opens
  | held e rest => cases opens
  | idle s rest => rfl
  | waiting s owner rest => rfl
  | linking s join imports rest => rfl

/-- A sweep over the imports of a module ends in one of four ways for the module. -/
theorem opens_or (q : Pending) : q.opens = true ∨ q = .nil ∨ ∃ e rest, q = .held e rest := by
  cases q with
  | nil => exact .inr (.inl rfl)
  | held e rest => exact .inr (.inr ⟨e, rest, rfl⟩)
  | idle s rest => exact .inl rfl
  | waiting s owner rest => exact .inl rfl
  | linking s join imports rest => exact .inl rfl

theorem relink_fronts (s : Specifier) (join : Join) (out : Swept σ) :
    (relink finish s join out).1.Fronts := by
  obtain ⟨left, b⟩ := out
  cases left with
  | error e => trivial
  | ok q =>
    rcases opens_or q with opens | rfl | ⟨e, rest, rfl⟩
    · rw [relink_of_opens opens]
      intro _
      rfl
    · trivial
    · trivial

/-- The account of a module whose imports fail. -/
theorem Account.relinkFailed {join inner : Join} {s : Specifier} {imports : Pending} {a : σ}
    {acts : List Act} {out : Swept σ} {e : LoadError}
    (swept : Account visit finish inner imports a acts out)
    (failed : ∀ q, out.1 = .ok q → q.hopeless = true ∧ q.opens = false) :
    Account visit finish join (.linking s inner imports .nil) a acts (.error e, out.2) := by
  have same : (Pending.linking s inner imports .nil).hopeless = imports.hopeless := by
    simp [Pending.hopeless]
  constructor
  case passes => exact swept.passes
  case visited => simpa [tasks] using swept.visited
  case left => intro _ same; cases same
  case exact =>
    intro hopeful calm
    rw [same] at hopeful
    obtain ⟨q, same, exact⟩ := swept.exact hopeful calm
    have := (failed q same).1
    rw [exact.hopeful] at this
    cases this
  case hopeless => intro _ _ same; cases same
  case proper => intro _ _ _ _ same; cases same
  case still =>
    intro told proper stays
    obtain ⟨-, opens, proper, -⟩ := proper
    obtain ⟨-, same⟩ := swept.still told proper stays
    rw [(failed imports same).2] at opens
    cases opens

/-- The account of a module whose imports are all settled. -/
theorem Account.relinkFinished {join inner : Join} {s : Specifier} {imports : Pending} {a b : σ}
    {acts : List Act} (swept : Account visit finish inner imports a acts (.ok .nil, b)) :
    Account visit finish join (.linking s inner imports .nil) a (acts ++ [.finished s])
      (.ok .nil, finish s b) := by
  have fails : ∀ act ∈ acts ++ [Act.finished s], act.fails = true → act ∈ acts := by
    intro act mem fails
    rcases List.mem_append.mp mem with mem | mem
    · exact mem
    · rw [List.mem_singleton.mp mem] at fails
      cases fails
  constructor
  case passes => exact swept.passes.append (.finished (.nil _))
  case visited => simpa [tasks, List.filterMap_cons, Act.task?] using swept.visited
  case left => intro q same; cases same; exact List.nil_sublist _
  case exact =>
    intro hopeful calm
    obtain ⟨q, same, exact⟩ := swept.exact (by simpa [Pending.hopeless] using hopeful)
      fun act mem => calm act (List.mem_append_left _ mem)
    cases same
    refine ⟨.nil, rfl, ?_, ?_, rfl, ?_, ?_⟩
    · simpa [tasks, List.filterMap_cons, Act.task?] using exact.visited
    · simpa [tasks, Act.leaves] using exact.left
    · intro t mem
      rw [linkings, List.mem_cons, List.mem_append] at mem
      rcases mem with rfl | mem | mem
      · simp
      · exact .inr (List.mem_append_left _ ((exact.kept t mem).resolve_left (by simp [linkings])))
      · cases mem
    · intro t found mem
      have mem : Act.visited t (.link found) ∈ acts := by simpa using mem
      exact .inr (((exact.linked t found mem).resolve_left (by simp [linkings])).trans
        (List.prefix_append acts _).isInfix)
  case hopeless =>
    intro why q same
    cases same
    refine swept.hopeless ?_ .nil rfl
    rcases why with why | ⟨act, mem, why⟩
    · exact .inl (by simpa [Pending.hopeless] using why)
    · exact .inr ⟨act, fails act mem why, why⟩
  case proper => intro _ _ _ q same; cases same; trivial
  case still =>
    intro told proper stays
    obtain ⟨-, opens, proper, -⟩ := proper
    obtain ⟨-, same⟩ := swept.still told proper fun act mem => stays act (List.mem_append_left _ mem)
    cases same
    cases opens

/-- The account of a module some of whose imports are not settled. -/
theorem Account.relinkKept {join inner : Join} {s : Specifier} {imports q : Pending} {a b : σ}
    {acts : List Act} (opens : q.opens = true)
    (swept : Account visit finish inner imports a acts (.ok q, b)) :
    Account visit finish join (.linking s inner imports .nil) a acts
      (.ok (.linking s inner q .nil), b) := by
  constructor
  case passes => exact swept.passes
  case visited => simpa [tasks] using swept.visited
  case left => intro r same; cases same; simpa [tasks] using swept.left q rfl
  case exact =>
    intro hopeful calm
    obtain ⟨q', same, exact⟩ := swept.exact (by simpa [Pending.hopeless] using hopeful) calm
    cases same
    refine ⟨_, rfl, ?_, ?_, ?_, ?_, ?_⟩
    · simpa [tasks] using exact.visited
    · simpa [tasks] using exact.left
    · simpa [Pending.hopeless] using exact.hopeful
    · intro t mem
      simp only [linkings, List.append_nil, List.mem_cons] at mem ⊢
      rcases mem with rfl | mem
      · exact .inl (.inl rfl)
      · exact (exact.kept t mem).imp .inr id
    · intro t found mem
      simp only [linkings, List.append_nil, List.mem_cons]
      exact (exact.linked t found mem).imp .inr id
  case hopeless =>
    intro why r same
    cases same
    simpa [Pending.hopeless] using swept.hopeless (by simpa [Pending.hopeless] using why) q rfl
  case proper =>
    intro told proper tells r same
    cases same
    exact ⟨proper.1, opens, swept.proper told proper.2.2.1 tells q rfl, trivial⟩
  case still =>
    intro told proper stays
    obtain ⟨visited, same⟩ := swept.still told proper.2.2.1 stays
    cases same
    exact ⟨by simpa [tasks] using visited, rfl⟩

/-- The account of a module whose imports have been swept. -/
theorem Account.relink (join : Join) (s : Specifier) {inner : Join} {imports : Pending} {a : σ}
    {acts : List Act} {out : Swept σ} (swept : Account visit finish inner imports a acts out) :
    ∃ all, Account visit finish join (.linking s inner imports .nil) a all
      ((relink finish s inner out).1.left, (relink finish s inner out).2) := by
  obtain ⟨left, b⟩ := out
  cases left with
  | error e => exact ⟨acts, swept.relinkFailed fun _ same => by cases same⟩
  | ok q =>
    rcases opens_or q with opens | rfl | ⟨e, rest, rfl⟩
    · rw [relink_of_opens opens]
      exact ⟨acts, swept.relinkKept opens⟩
    · exact ⟨_, swept.relinkFinished⟩
    · exact ⟨acts, swept.relinkFailed fun _ same => by cases same; exact ⟨rfl, rfl⟩⟩

/-- An import on its own. -/
def single : Task → Pending
  | .idle s => .idle s .nil
  | .waiting s owner => .waiting s owner .nil

/-- An import in front of others. -/
def front : Task → Pending → Pending
  | .idle s => .idle s
  | .waiting s owner => .waiting s owner

theorem judge_fronts (t : Task) (decided : Verdict × σ) :
    (judge finish t.specifier (front t) decided).1.Fronts := by
  obtain ⟨v, b⟩ := decided
  cases v with
  | stay => cases t <;> intro _ <;> rfl
  | wait owner => intro _; rfl
  | settled => trivial
  | link imports => exact relink_fronts ..
  | fail e => trivial

/-- The account of an import on its own whose verdict neither links a module nor fails. -/
theorem account_single {join : Join} {t : Task} {a b : σ} {v : Verdict} {q : Pending}
    (verdict : visit t a = (v, b)) (left : q.tasks = v.leaves t) (hopeful : q.hopeless = false)
    (plain : ∀ imports, v ≠ .link imports) (stays : v = .stay → q = single t)
    (proper : ∀ told, q.Proper told join) (fails : (Act.visited t v).fails = false) :
    Account visit finish join (single t) a [.visited t v] (.ok q, b) := by
  have visited : [Act.visited t v].filterMap Act.task? = (single t).tasks := by
    cases t <;> rfl
  have leaves : q.tasks = [Act.visited t v].flatMap Act.leaves := by
    rw [left, List.flatMap_cons, List.flatMap_nil, List.append_nil]
    rfl
  constructor
  case passes => exact .visited verdict (.nil b)
  case visited => exact visited ▸ List.Sublist.refl _
  case left => intro r same; cases same; exact leaves ▸ List.Sublist.refl _
  case exact =>
    intro _ _
    refine ⟨q, rfl, visited, leaves, hopeful, ?_, ?_⟩
    · intro s mem
      cases t <;> cases mem
    · intro t' imports mem
      cases List.mem_singleton.mp mem
      exact absurd rfl (plain imports)
  case hopeless =>
    intro why
    rcases why with why | ⟨act, mem, why⟩
    · cases t <;> cases why
    · rw [List.mem_singleton.mp mem, fails] at why
      cases why
  case proper => intro told _ _ r same; cases same; exact proper told
  case still =>
    intro _ _ still
    refine ⟨visited, ?_⟩
    have := still _ (List.mem_singleton_self _)
    cases v with
    | stay => rw [stays rfl]
    | wait owner => cases this
    | settled => cases this
    | link imports => cases this
    | fail e => cases this

/-- The account of an import on its own whose own imports are looked after from now on. -/
theorem account_link {join : Join} {t : Task} {a b : σ} {imports : List Specifier}
    (verdict : visit t a = (.link imports, b)) :
    ∃ acts, Account visit finish join (single t) a acts
      ((judge finish t.specifier (front t) (.link imports, b)).1.left,
        (judge finish t.specifier (front t) (.link imports, b)).2) := by
  cases imports with
  | nil =>
    refine ⟨[.visited t (.link []), .finished t.specifier], ?_⟩
    constructor
    case passes => exact .visited verdict (.finished (.nil _))
    case visited => cases t <;> exact List.Sublist.refl _
    case left => intro q same; cases same; exact List.nil_sublist _
    case exact =>
      intro _ _
      refine ⟨.nil, rfl, by cases t <;> rfl, rfl, rfl, ?_, ?_⟩
      · intro s mem
        cases t <;> cases mem
      · intro t' imports mem
        have same : Act.visited t' (.link imports) = .visited t (.link []) := by simpa using mem
        cases same
        exact .inr (List.infix_refl _)
    case hopeless =>
      intro why
      rcases why with why | ⟨act, mem, why⟩
      · cases t <;> cases why
      · simp only [List.mem_cons, List.not_mem_nil, or_false] at mem
        rcases mem with rfl | rfl <;> cases why
    case proper => intro _ _ _ q same; cases same; trivial
    case still =>
      intro _ _ still
      cases still _ List.mem_cons_self
  | cons d ds =>
    refine ⟨[.visited t (.link (d :: ds))], ?_⟩
    rw [judge, relink_of_opens rfl]
    constructor
    case passes => exact .visited verdict (.nil b)
    case visited => cases t <;> exact List.Sublist.refl _
    case left =>
      intro q same
      cases same
      simp [tasks, Act.leaves, Verdict.leaves]
    case exact =>
      intro _ _
      refine ⟨_, rfl, by cases t <;> rfl, ?_, ?_, ?_, ?_⟩
      · simp [tasks, Act.leaves, Verdict.leaves]
      · simp [Pending.hopeless]
      · intro s mem
        cases t <;> cases mem
      · intro t' imports mem
        cases List.mem_singleton.mp mem
        exact .inl (by simp [linkings])
    case hopeless =>
      intro why
      rcases why with why | ⟨act, mem, why⟩
      · cases t <;> cases why
      · rw [List.mem_singleton.mp mem] at why
        cases why
    case proper =>
      intro told _ tells q same
      cases same
      exact ⟨tells t _ List.mem_cons_self, rfl, proper_ofList .., trivial⟩
    case still =>
      intro _ _ still
      cases still _ List.mem_cons_self

/-- The account of an import on its own that fails. -/
theorem account_fail {join : Join} {t : Task} {a b : σ} {e : LoadError}
    (verdict : visit t a = (.fail e, b)) :
    Account visit finish join (single t) a [.visited t (.fail e)] (.error e, b) := by
  constructor
  case passes => exact .visited verdict (.nil b)
  case visited => cases t <;> exact List.Sublist.refl _
  case left => intro q same; cases same
  case exact => intro _ calm; cases calm _ List.mem_cons_self
  case hopeless => intro _ q same; cases same
  case proper => intro _ _ _ q same; cases same
  case still => intro _ _ still; cases still _ List.mem_cons_self

/-- The account of an import on its own. -/
theorem Account.judge (finish : Specifier → σ → σ) (join : Join) (t : Task) (a : σ) :
    ∃ acts, Account visit finish join (single t) a acts
      ((judge finish t.specifier (front t) (visit t a)).1.left,
        (judge finish t.specifier (front t) (visit t a)).2) := by
  rcases verdict : visit t a with ⟨v, b⟩
  cases v with
  | stay =>
    refine ⟨_, account_single verdict ?_ ?_ ?_ ?_ ?_ rfl⟩
    · cases t <;> rfl
    · cases t <;> rfl
    · intro _ same; cases same
    · intro _; cases t <;> rfl
    · intro _; cases t <;> trivial
  | wait owner =>
    refine ⟨_, account_single verdict rfl rfl ?_ ?_ ?_ rfl⟩
    · intro _ same; cases same
    · intro same; cases same
    · intro _; trivial
  | settled =>
    refine ⟨_, account_single verdict rfl rfl ?_ ?_ ?_ rfl⟩
    · intro _ same; cases same
    · intro same; cases same
    · intro _; trivial
  | link imports => exact account_link verdict
  | fail e => exact ⟨_, account_fail verdict⟩

/-- The account of no imports. -/
theorem account_nil {join : Join} (a : σ) :
    Account visit finish join .nil a [] (.ok .nil, a) where
  passes := .nil a
  visited := List.Sublist.refl _
  left q same := by cases same; exact List.Sublist.refl _
  exact _ _ := ⟨.nil, rfl, rfl, rfl, rfl, (fun _ mem => by cases mem), fun _ _ mem => by cases mem⟩
  hopeless why := by
    rcases why with why | ⟨_, mem, _⟩
    · cases why
    · cases mem
  proper _ _ _ q same := by cases same; trivial
  still _ _ _ := ⟨rfl, rfl⟩

/-- The account of imports behind a failure that is held back. -/
theorem Account.held {join : Join} {rest : Pending} {a : σ} {acts : List Act} {out : Swept σ}
    (e : LoadError) (swept : Account visit finish join rest a acts out) :
    Account visit finish join (.held e rest) a acts (prepend (.held e) out) := by
  have inner : ∀ r, (prepend (.held e) out).1 = .ok r → ∃ r', out.1 = .ok r' ∧ r = .held e r' := by
    intro r same
    obtain ⟨left, c⟩ := out
    cases left with
    | error e => cases same
    | ok r' =>
      cases same
      exact ⟨r', rfl, rfl⟩
  constructor
  case passes => exact swept.passes
  case visited => exact swept.visited
  case left =>
    intro r same
    obtain ⟨r', left, rfl⟩ := inner r same
    exact swept.left r' left
  case exact => intro hopeful; cases hopeful
  case hopeless =>
    intro _ r same
    obtain ⟨r', -, rfl⟩ := inner r same
    rfl
  case proper =>
    intro told proper tells r same
    obtain ⟨r', left, rfl⟩ := inner r same
    exact ⟨proper.1, swept.proper told proper.2 tells r' left⟩
  case still =>
    intro told proper stays
    obtain ⟨visited, same⟩ := swept.still told proper.2 stays
    refine ⟨visited, ?_⟩
    simp [prepend, same, Except.map]

/-- Every sweep can be accounted for. -/
theorem exists_account (visit : Task → σ → Verdict × σ) (finish : Specifier → σ → σ) (join : Join)
    (p : Pending) (a : σ) :
    ∃ acts, Account visit finish join p a acts (sweep visit finish join p a) := by
  induction p generalizing join a with
  | nil => exact ⟨[], account_nil a⟩
  | idle s rest ih =>
    obtain ⟨acts, first⟩ := Account.judge finish join (.idle s) a
    exact first.andThen (judge_fronts ..) (ih join)
  | waiting s owner rest ih =>
    obtain ⟨acts, first⟩ := Account.judge finish join (.waiting s owner) a
    exact first.andThen (judge_fronts ..) (ih join)
  | linking s inner imports rest ihImports ihRest =>
    obtain ⟨acts, swept⟩ := ihImports inner a
    obtain ⟨all, first⟩ := swept.relink join s
    exact first.andThen (relink_fronts ..) (ihRest join)
  | held e rest ih =>
    obtain ⟨acts, swept⟩ := ih join a
    exact ⟨acts, swept.held e⟩

end Pending

end ModuleLinker.Link
