import EagerLambda.Eval.Context
import EagerLambda.Eval.Operation

/-!
# Evaluation — stock functions

A host with a handful of functions: the identity, negation, a function that always fails, one that
joins two strings given one after the other, and one that raises a flag from a certain call on.
-/

namespace EagerLambda

/-- The codes of the stock functions. -/
inductive Stock where
  /-- Yields its argument. -/
  | identity
  /-- Subtracts its argument from zero. -/
  | negate
  /-- Complains that its argument is no function. -/
  | fail
  /-- Yields a function, named after `name`, that waits for the second string. -/
  | pair (name : String)
  /-- Joins the string it has captured and its argument. -/
  | join
  /-- Yields its argument; from the call number `after` on it raises the flag first.  The calls are
  counted in `cell`. -/
  | stop (cell : Nat) (flag : Flag) (after : Int)

namespace Stock

/-- What the host keeps: for every cell, the number of calls it has counted. -/
abbrev Counts := Nat → Nat

/-- Count one call more in `cell`. -/
def Counts.count (counts : Counts) (cell : Nat) : Counts :=
  fun c => if c = cell then counts cell + 1 else counts c

/-- The name under which a pairing function keeps the first string. -/
def first : String := "first"

/-- The call of a stock function. -/
def call (code : Stock) (captured : Env Stock) (arg : Value Stock) :
    Alloc Counts (Except (EvalError Stock) (Value Stock)) :=
  match code with
  | .identity => return .ok arg
  | .negate => return Operator.subtract.apply (.int 0) arg
  | .fail => return .error (.notAFunction arg)
  | .pair name => do
    let captured ← Env.empty.extend first arg
    let waiting ← Builtin.make (name ++ "'") (.host .join) captured
    return .ok (.builtin waiting)
  | .join =>
    match captured.lookup? first with
    | some a => return Operator.concat.apply a arg
    | none   => return .error (.unboundVariable first)
  | .stop cell flag after => do
    modify fun store => { store with host := store.host.count cell }
    let store ← get
    if after ≤ store.host cell then
      set (store.setFlag flag true)
    return .ok arg

/-- The host that provides the stock functions. -/
def host : Host Stock Counts := ⟨call⟩

/-- A function that stops the evaluations of `context` from the call number `after` on. -/
def stopper (name : String) (context : Context) (after : Int) : Alloc Counts (Builtin Stock) := do
  let cell ← Store.fresh
  Builtin.make name (.host (.stop cell context.flag after)) .empty

end Stock

end EagerLambda
