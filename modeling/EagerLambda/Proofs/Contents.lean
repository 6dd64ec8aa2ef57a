import EagerLambda.Eval.Store
import EagerLambda.Proofs.Primitives

/-!
# Contents — what a value holds

A value can hold closures and functions of the host at any depth: in the environment a closure has
captured, in the values of that environment, and so on.  `Every P Q` says that all the closures in a
value satisfy `P` and all the functions of the host in it satisfy `Q`.  It is how the laws of
evaluation say which programs they are about:

* `Every (fun _ => True) Q`: the builtins are intrinsics or functions in `Q`;
* `Every P (fun _ => False)`: the builtins are intrinsics, and the closures satisfy `P`;
* `Every (fun _ => False) (fun _ => False)`: nothing but words, truth values, strings and
  intrinsics.
-/

namespace EagerLambda

variable {κ σ : Type} {P P' : Closure κ → Prop} {Q Q' : κ → Prop}

mutual

/-- Every closure in the value satisfies `P`, and every function of the host in it satisfies `Q`. -/
def Value.Every (P : Closure κ → Prop) (Q : κ → Prop) : Value κ → Prop
  | .int _ | .bool _ | .str _ => True
  | .closure c => c.Every P Q
  | .builtin b => b.Every P Q

/-- The closure satisfies `P`, and so on for the environment it has captured. -/
def Closure.Every (P : Closure κ → Prop) (Q : κ → Prop) : Closure κ → Prop
  | .mk id param body selfName env => P ⟨id, param, body, selfName, env⟩ ∧ env.Every P Q

/-- The builtin is an intrinsic, or a function of the host that satisfies `Q`, and so on for what
that function has captured. -/
def Builtin.Every (P : Closure κ → Prop) (Q : κ → Prop) : Builtin κ → Prop
  | .mk _ _ (.intrinsic _) _ => True
  | .mk _ _ (.host code) captured => Q code ∧ captured.Every P Q

/-- `Value.Every` of all the values in the chain. -/
def Env.Every (P : Closure κ → Prop) (Q : κ → Prop) : Env κ → Prop
  | .empty => True
  | .frame _ _ value rest => value.Every P Q ∧ rest.Every P Q

end

/-- The builtins in the value are intrinsics or functions in `Q`. -/
abbrev Value.Within (Q : κ → Prop) (v : Value κ) : Prop := v.Every (fun _ => True) Q

/-- The builtins in the environment are intrinsics or functions in `Q`. -/
abbrev Env.Within (Q : κ → Prop) (env : Env κ) : Prop := env.Every (fun _ => True) Q

mutual

theorem Value.Every.mono (hP : ∀ c, P c → P' c) (hQ : ∀ k, Q k → Q' k) :
    ∀ {v : Value κ}, v.Every P Q → v.Every P' Q'
  | .int _, _ | .bool _, _ | .str _, _ => trivial
  | .closure _, h => Closure.Every.mono hP hQ h
  | .builtin _, h => Builtin.Every.mono hP hQ h

theorem Closure.Every.mono (hP : ∀ c, P c → P' c) (hQ : ∀ k, Q k → Q' k) :
    ∀ {c : Closure κ}, c.Every P Q → c.Every P' Q'
  | .mk _ _ _ _ _, h => ⟨hP _ h.1, Env.Every.mono hP hQ h.2⟩

theorem Builtin.Every.mono (hP : ∀ c, P c → P' c) (hQ : ∀ k, Q k → Q' k) :
    ∀ {b : Builtin κ}, b.Every P Q → b.Every P' Q'
  | .mk _ _ (.intrinsic _) _, _ => trivial
  | .mk _ _ (.host _) _, h => ⟨hQ _ h.1, Env.Every.mono hP hQ h.2⟩

theorem Env.Every.mono (hP : ∀ c, P c → P' c) (hQ : ∀ k, Q k → Q' k) :
    ∀ {env : Env κ}, env.Every P Q → env.Every P' Q'
  | .empty, _ => trivial
  | .frame _ _ _ _, h => ⟨Value.Every.mono hP hQ h.1, Env.Every.mono hP hQ h.2⟩

end

theorem Closure.every_iff {c : Closure κ} : c.Every P Q ↔ P c ∧ c.env.Every P Q := by
  cases c
  exact Iff.rfl

/-- A builtin that is neither an intrinsic nor a function in `Q` is not held. -/
theorem Builtin.Every.of_host {b : Builtin κ} {code : κ} (h : b.Every P Q)
    (hcode : b.code = .host code) : Q code ∧ b.captured.Every P Q := by
  obtain ⟨id, name, code', captured⟩ := b
  subst hcode
  exact h

/-- A value that is no function holds nothing. -/
theorem Value.every_of_not_callable {v : Value κ} (h : v.isCallable = false) : v.Every P Q := by
  cases v with
  | int n => trivial
  | bool b => trivial
  | str s => trivial
  | closure c => cases h
  | builtin b => cases h

/-- The result of an operator holds nothing. -/
theorem Operator.every_of_apply {op : Operator} {l r v : Value κ} (h : op.apply l r = .ok v) :
    v.Every P Q := by
  have hans := h ▸ op.apply_answer l r
  cases hans with
  | base _ hv => exact Value.every_of_not_callable hv

/-- The result of an intrinsic holds nothing. -/
theorem Intrinsic.every_of_apply {i : Intrinsic} {u v : Value κ} (h : i.apply u = .ok v) :
    v.Every P Q := by
  have hans := h ▸ i.apply_answer u
  cases hans with
  | base _ hv => exact Value.every_of_not_callable hv

/-! ### Environments -/

/-- What is looked up is held. -/
theorem Env.Every.lookup {name : String} {v : Value κ} :
    ∀ {env : Env κ}, env.Every P Q → env.lookup? name = some v → v.Every P Q
  | .empty, _, hv => by cases hv
  | .frame _ bound value rest, h, hv => by
      simp only [Env.lookup?] at hv
      split at hv
      · cases hv; exact h.1
      · exact Env.Every.lookup h.2 hv

theorem Env.Every.extend {env : Env κ} (h : env.Every P Q) {v : Value κ} (hv : v.Every P Q)
    (name : String) (store : Store σ) : (env.extend name v store).1.Every P Q :=
  ⟨hv, h⟩

theorem Closure.Every.selfEnv {c : Closure κ} (h : c.Every P Q) (store : Store σ) :
    (c.selfEnv store).1.Every P Q := by
  have hself : (Value.closure c).Every P Q := h
  unfold Closure.selfEnv
  cases c.selfName with
  | none => exact (Closure.every_iff.mp h).2
  | some name => exact (Closure.every_iff.mp h).2.extend hself name store

/-- The environment of a call holds what the closure and the argument hold. -/
theorem Closure.Every.callEnv {c : Closure κ} (h : c.Every P Q) {arg : Value κ}
    (harg : arg.Every P Q) (store : Store σ) : (c.callEnv arg store).1.Every P Q :=
  (h.selfEnv store).extend harg c.param _

/-- The closure that `let rec` binds holds what the given one holds, and itself. -/
theorem Closure.Every.tie {c : Closure κ} (h : c.Every P Q) (name : String) (store : Store σ)
    (hP : P (c.tie name store).1) : (c.tie name store).1.Every P Q :=
  Closure.every_iff.mpr ⟨hP, h.selfEnv store⟩

end EagerLambda
