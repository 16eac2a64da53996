import ModuleLinker.Specifier

/-!
# Imports that are not settled

The imports of a module are looked after side by side, and those of an import below it in turn, so
that what a run still has to do is a forest. It is kept in the form "first child, next sibling".
Few imports fail together: the first failure among them is that of the module. Of many imports the
failures are told in order: a failure is held back until all imports before it are settled.

A sweep passes over the forest from left to right, lets a visitor decide about each import that is
not being linked itself, and takes away what is settled.
-/

set_option autoImplicit false

namespace ModuleLinker.Link

/-- How failures among the imports of a module are told. -/
inductive Join where
  /-- At once. -/
  | eager
  /-- After everything before them is settled. -/
  | ordered
  deriving DecidableEq, Repr

/-- The most imports whose failures are told at once. -/
def eagerLimit : Nat := 30

/-- How failures among some number of imports are told. -/
def Join.ofCount (count : Nat) : Join := if count ≤ eagerLimit then .eager else .ordered

/-- The imports of a module that are not settled, in order. -/
inductive Pending where
  /-- All imports are settled. -/
  | nil
  /-- An import that nothing has been done for. -/
  | idle (s : Specifier) (rest : Pending)
  /-- An import that is being loaded. The owner is the one that goes on with its imports. -/
  | waiting (s : Specifier) (owner : Bool) (rest : Pending)
  /-- An import that is in the graph and whose own imports are not settled. -/
  | linking (s : Specifier) (join : Join) (imports rest : Pending)
  /-- An import that has failed, behind others that are not settled. -/
  | held (e : LoadError) (rest : Pending)
  deriving DecidableEq, Repr

/-- An import that is not being linked itself. -/
inductive Task where
  /-- Nothing has been done for it. -/
  | idle (s : Specifier)
  /-- It is being loaded. -/
  | waiting (s : Specifier) (owner : Bool)
  deriving DecidableEq, Repr

/-- What becomes of an import. -/
inductive Verdict where
  /-- It stays as it is. -/
  | stay
  /-- It waits for its module. -/
  | wait (owner : Bool)
  /-- It is settled. -/
  | settled
  /-- Its own imports are looked after. -/
  | link (imports : List Specifier)
  /-- It has failed. -/
  | fail (e : LoadError)
  deriving DecidableEq, Repr

namespace Pending

/-- Imports that nothing has been done for. -/
def ofList : List Specifier → Pending
  | [] => .nil
  | s :: more => .idle s (ofList more)

/-- The imports that are not being linked themselves, from left to right. -/
def tasks : Pending → List Task
  | .nil => []
  | .idle s rest => .idle s :: tasks rest
  | .waiting s owner rest => .waiting s owner :: tasks rest
  | .linking _ _ imports rest => tasks imports ++ tasks rest
  | .held _ rest => tasks rest

/-- The modules that are waited for, from left to right. -/
def awaited (p : Pending) : List Specifier :=
  p.tasks.filterMap fun
    | .waiting s _ => some s
    | .idle _ => none

/-- What a sweep leaves of one import. -/
inductive Head where
  /-- Nothing. -/
  | gone
  /-- Something in front of the other imports. -/
  | kept (put : Pending → Pending)
  /-- A failure. -/
  | failed (e : LoadError)

/-- The outcome of a sweep: what is left, or the failure that is told; and the new state. -/
abbrev Swept (σ : Type) := Except LoadError Pending × σ

variable {σ : Type}

/-- Puts something in front of what a sweep leaves. -/
def prepend (put : Pending → Pending) (swept : Swept σ) : Swept σ := (swept.1.map put, swept.2)

/-- Goes on with the imports behind one. -/
def andThen (join : Join) (rest : σ → Swept σ) : Head × σ → Swept σ
  | (.gone, state) => rest state
  | (.kept put, state) => prepend put (rest state)
  | (.failed e, state) =>
    match join with
    | .eager => (.error e, state)
    | .ordered => prepend (.held e) (rest state)

/-- What is left of an import whose own imports have been swept. -/
def relink (finish : Specifier → σ → σ) (s : Specifier) (join : Join) :
    Swept σ → Head × σ
  | (.error e, state) => (.failed e, state)
  | (.ok .nil, state) => (.gone, finish s state)
  | (.ok (.held e _), state) => (.failed e, state)
  | (.ok imports, state) => (.kept (.linking s join imports), state)

/-- What is left of an import after a verdict on it. -/
def judge (finish : Specifier → σ → σ) (s : Specifier) (stay : Pending → Pending) :
    Verdict × σ → Head × σ
  | (.stay, state) => (.kept stay, state)
  | (.wait owner, state) => (.kept (.waiting s owner), state)
  | (.settled, state) => (.gone, state)
  | (.link imports, state) =>
    relink finish s (.ofCount imports.length) (.ok (ofList imports), state)
  | (.fail e, state) => (.failed e, state)

/-- Passes over imports whose failures are told in a way. A module is finished when all its imports
are settled. -/
def sweep (visit : Task → σ → Verdict × σ) (finish : Specifier → σ → σ) (join : Join) :
    Pending → σ → Swept σ
  | .nil, state => (.ok .nil, state)
  | .idle s rest, state =>
    andThen join (sweep visit finish join rest)
      (judge finish s (.idle s) (visit (.idle s) state))
  | .waiting s owner rest, state =>
    andThen join (sweep visit finish join rest)
      (judge finish s (.waiting s owner) (visit (.waiting s owner) state))
  | .linking s inner imports rest, state =>
    andThen join (sweep visit finish join rest)
      (relink finish s inner (sweep visit finish inner imports state))
  | .held e rest, state => prepend (.held e) (sweep visit finish join rest state)

end Pending

end ModuleLinker.Link
