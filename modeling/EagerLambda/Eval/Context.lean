import EagerLambda.Eval.Store

/-!
# Evaluation — contexts

What bounds an evaluation: how many calls may be nested, how many are at the moment, and the flag
that interrupts it.  A copy of a context counts its own calls and has the same flag.
-/

namespace EagerLambda

/-- A context. -/
structure Context where
  limit : Nat
  depth : Nat
  flag : Flag

namespace Context

variable {σ : Type}

/-- The limit of a context that is not given one. -/
def defaultLimit : Nat := 1000000

/-- A new context with a flag of its own, which is down. -/
def make (limit : Nat) : Alloc σ Context := do
  let flag ← Store.fresh
  modify (·.setFlag flag false)
  return { limit, depth := 0, flag }

/-- A new context with the default limit. -/
def default : Alloc σ Context := make defaultLimit

/-- How many more calls may be nested. -/
def room (c : Context) : Nat := c.limit - c.depth

/-- Count one call more, unless that would pass the limit. -/
def enter? (c : Context) : Option Context :=
  if c.depth < c.limit then some { c with depth := c.depth + 1 } else none

/-- Count one call less. -/
def leave (c : Context) : Context := { c with depth := c.depth - 1 }

/-- Whether the context's flag is raised. -/
def isInterrupted (c : Context) (store : Store σ) : Bool := store.raised c.flag

/-- Raise the context's flag. -/
def interrupt (c : Context) : Alloc σ Unit := modify (·.setFlag c.flag true)

/-- Lower the context's flag. -/
def resetInterrupt (c : Context) : Alloc σ Unit := modify (·.setFlag c.flag false)

/-- The context in constructor notation. -/
def outline (c : Context) (store : Store σ) : String :=
  Text.record "EvalContext" [("max_call_depth", Text.decimal c.limit),
    ("interrupt", Text.truth (c.isInterrupted store)),
    ("depth", Text.record "Cell" [("value", Text.decimal c.depth)])]

end Context

end EagerLambda
