import EagerLambda.Eval.Context
import EagerLambda.Eval.Trace

/-!
# Evaluation — runs

A run changes a context and the store, records events, and ends in a result or an error.  What it
did before an error stays done.

The primitive runs are here: looking at the interrupt flag, entering and leaving a call, recording
an event, changing the store, failing.
-/

namespace EagerLambda

/-- The state of a run. -/
structure Run.State (κ σ : Type) where
  context : Context
  store : Store σ
  /-- The events so far, the latest first. -/
  log : List (Event κ)

/-- A run with results in `α`. -/
def Run (κ σ α : Type) : Type := Run.State κ σ → Except (EvalError κ) α × Run.State κ σ

namespace Run

variable {κ σ α β : Type}

namespace State

/-- The state a run starts in. -/
def start (context : Context) (store : Store σ) : State κ σ := { context, store, log := [] }

/-- The events so far, in the order in which they happened. -/
def events (s : State κ σ) : List (Event κ) := s.log.reverse

end State

/-- Nothing but a result. -/
@[inline] protected def pure (a : α) : Run κ σ α := fun s => (.ok a, s)

/-- One run after the other, the second depending on the result of the first.  An error of the first
ends both. -/
@[inline] protected def bind (x : Run κ σ α) (f : α → Run κ σ β) : Run κ σ β := fun s =>
  match x s with
  | (.ok a, s)    => f a s
  | (.error e, s) => (.error e, s)

instance : Monad (Run κ σ) where
  pure := Run.pure
  bind := Run.bind

/-- End in an error. -/
@[inline] def fail (e : EvalError κ) : Run κ σ α := fun s => (.error e, s)

/-- End as `r` says. -/
@[inline] def ofExcept (r : Except (EvalError κ) α) : Run κ σ α := fun s => (r, s)

/-- Record an event. -/
@[inline] def record (event : Event κ) : Run κ σ Unit := fun s =>
  (.ok (), { s with log := event :: s.log })

/-- Change the store. -/
@[inline] def alloc (x : Alloc σ α) : Run κ σ α := fun s =>
  let (a, store) := x s.store
  (.ok a, { s with store })

/-- Fail if the flag of the context is raised; `kind` is the node about to be evaluated. -/
def poll (kind : Kind) : Run κ σ Unit := fun s =>
  if s.context.isInterrupted s.store then
    (.error .interrupted, { s with log := .interrupted kind :: s.log })
  else
    (.ok (), s)

/-- Refuse a call at the present depth. -/
def overflow : Run κ σ α := fun s =>
  (.error (.stackOverflow s.context.depth s.context.limit),
    { s with log := .limitReached s.context.depth s.context.limit :: s.log })

/-- Count one call more and yield the new depth; refuse the call at the limit. -/
def enter : Run κ σ Nat := fun s =>
  match s.context.enter? with
  | some context => (.ok context.depth, { s with context })
  | none => overflow s

/-- Run `x`, then count one call less, however `x` ended. -/
@[inline] def leaving (x : Run κ σ α) : Run κ σ α := fun s =>
  let (r, s) := x s
  (r, { s with context := s.context.leave })

end Run

end EagerLambda
