import EagerLambda.Value.Error

/-!
# Evaluation — the store and the host

What evaluations share and leave behind: which identities are taken, which interrupt flags are
raised, and the state `σ` that the functions of the host keep.  Making a closure, a builtin, a frame
or a flag takes the next identity.

The functions a program can call that are not written in the language are the host's.  A host says
what each of its codes does: called with the values it has captured and an argument, a function
answers a value or an error, and it may make new closures or builtins, raise or lower flags and
change the state the host keeps.  It sees neither the depth of the calls nor the trace.
-/

namespace EagerLambda

/-- The identity of an interrupt flag. -/
abbrev Flag := Nat

/-- The shared state. -/
structure Store (σ : Type) where
  /-- The next identity; it and all above it are free. -/
  next : Nat
  /-- The flags that are raised. -/
  raised : Flag → Bool
  /-- What the host keeps. -/
  host : σ

/-- A change of the store that yields a result and cannot fail. -/
abbrev Alloc (σ α : Type) : Type := StateM (Store σ) α

/-- The meaning of the codes `κ` of the host's functions. -/
structure Host (κ σ : Type) where
  call : κ → Env κ → Value κ → Alloc σ (Except (EvalError κ) (Value κ))

variable {κ σ : Type}

namespace Store

/-- The store before anything was made. -/
def initial (host : σ) : Store σ := ⟨0, fun _ => false, host⟩

/-- Raise or lower a flag. -/
def setFlag (store : Store σ) (flag : Flag) (up : Bool) : Store σ :=
  { store with raised := fun f => if f = flag then up else store.raised f }

/-- Take the next identity. -/
def fresh : Alloc σ Nat := fun store => (store.next, { store with next := store.next + 1 })

end Store

/-- Bind `name` in a new frame. -/
def Env.extend (env : Env κ) (name : String) (value : Value κ) : Alloc σ (Env κ) := do
  return .frame (← Store.fresh) name value env

/-- A new closure over `env`. -/
def Closure.make (env : Env κ) (param : String) (body : Expr) (selfName : Option String) :
    Alloc σ (Closure κ) := do
  return { id := ← Store.fresh, param, body, selfName, env }

/-- A new builtin that has captured `captured`. -/
def Builtin.make (name : String) (code : Code κ) (captured : Env κ) : Alloc σ (Builtin κ) := do
  return { id := ← Store.fresh, name, code, captured }

/-- A new builtin for the intrinsic, under its own name. -/
def Intrinsic.toBuiltin (i : Intrinsic) : Alloc σ (Builtin κ) :=
  Builtin.make i.name (.intrinsic i) .empty

namespace Env

/-- Bind a builtin under its own name. -/
def extendBuiltin (env : Env κ) (b : Builtin κ) : Alloc σ (Env κ) := env.extend b.name (.builtin b)

/-- Bind new builtins for the intrinsics, in their order. -/
def loadPrelude (env : Env κ) : Alloc σ (Env κ) :=
  Intrinsic.all.foldlM (fun env i => do env.extendBuiltin (← i.toBuiltin)) env

/-- The environment that binds nothing but the intrinsics. -/
def withPrelude : Alloc σ (Env κ) := loadPrelude .empty

/-- Bind the names one after the other. -/
def extendAll (env : Env κ) (bindings : List (String × Value κ)) : Alloc σ (Env κ) :=
  bindings.foldlM (fun env (name, value) => env.extend name value) env

end Env

namespace Closure

/-- The captured environment, with the closure itself under its self name if it has one. -/
def selfEnv (c : Closure κ) : Alloc σ (Env κ) :=
  match c.selfName with
  | some name => c.env.extend name (.closure c)
  | none      => pure c.env

/-- The closure that `let rec name` binds for `c`: a new one that calls itself `name`.  If `c` calls
itself by some name, that name goes on to mean `c`. -/
def tie (c : Closure κ) (name : String) : Alloc σ (Closure κ) := do
  let env ← c.selfEnv
  make env c.param c.body (some name)

/-- The environment in which the body runs: the argument goes by the parameter, in front of the
closure's self name and what it has captured. -/
def callEnv (c : Closure κ) (arg : Value κ) : Alloc σ (Env κ) := do
  let env ← c.selfEnv
  env.extend c.param arg

end Closure

end EagerLambda
