import EagerLambda.Eval.Stock
import EagerLambda.Proofs.Invariants

/-!
# Scope — where a name can turn out to be unbound

A closure is scoped if the free names of its body are bound where it runs: in the environment it has
captured, as its parameter or as its self name (`Closure.Scoped`).  Evaluation keeps this of every
closure there is, at any depth, and so a name that turns out to be unbound was free in the
expression to begin with (`eval_scope_safe`).

The invariant that is kept lets some names through (`scope`): `ScopedBut M` is the same but for the
names in `M`, and nothing but those is found to be unbound.  With no name in `M` it says that
nothing goes wrong; with the free names that the environment does not bind, that nothing else does.
-/

namespace EagerLambda

variable {κ σ : Type}

/-! ### Free names -/

/-- The free names of an expression.  A recursive `let` binds its name in the body, and in the value
only where the value is a lambda. -/
def Expr.free : Expr → List String
  | .var x => [x]
  | .lam x _ b => b.free.filter (· ≠ x)
  | .app f a => f.free ++ a.free
  | .cond e yes no => e.free ++ yes.free ++ no.free
  | .binary l _ r => l.free ++ r.free
  | .letIn rec x e b =>
    (if rec && e.isLam then e.free.filter (· ≠ x) else e.free) ++ b.free.filter (· ≠ x)
  | .int _ | .bool _ | .str _ => []

/-! ### Bound names -/

theorem Env.lookup?_eq_none_iff {x : String} :
    ∀ {env : Env κ}, env.lookup? x = none ↔ x ∉ env.names
  | .empty => by simp [Env.lookup?, Env.names]
  | .frame _ y v rest => by
      have ih : rest.lookup? x = none ↔ x ∉ rest.names := Env.lookup?_eq_none_iff
      simp only [Env.lookup?, Env.names, List.mem_cons, not_or]
      by_cases hxy : y = x
      · simp [hxy]
      · rw [if_neg hxy, ih]
        exact ⟨fun h => ⟨fun h' => hxy h'.symm, h⟩, fun h => h.2⟩

theorem Closure.names_selfEnv (c : Closure κ) (store : Store σ) :
    (c.selfEnv store).1.names = c.selfName.toList ++ c.env.names := by
  unfold Closure.selfEnv
  cases c.selfName <;> rfl

theorem Closure.names_callEnv (c : Closure κ) (arg : Value κ) (store : Store σ) :
    (c.callEnv arg store).1.names = c.param :: (c.selfName.toList ++ c.env.names) :=
  congrArg (c.param :: ·) (c.names_selfEnv store)

/-! ### Scope, but for some names -/

/-- The free names of the closure's body are bound where it runs: in the environment it has
captured, as its parameter or as its self name. -/
def Closure.Scoped (c : Closure κ) : Prop :=
  ∀ x ∈ c.body.free, x ∈ c.env.names ∨ x = c.param ∨ c.selfName = some x

/-- Every closure in the environment is scoped, and the builtins in it are intrinsics. -/
abbrev Env.WellScoped (env : Env κ) : Prop := env.Every Closure.Scoped fun _ => False

/-- Every closure in the value is scoped, and the builtins in it are intrinsics. -/
abbrev Value.WellScoped (v : Value κ) : Prop := v.Every Closure.Scoped fun _ => False

/-- `Closure.Scoped`, but for the names in `M`. -/
def Closure.ScopedBut (M : String → Prop) (c : Closure κ) : Prop :=
  ∀ x ∈ c.body.free, x ∈ c.env.names ∨ x = c.param ∨ c.selfName = some x ∨ M x

/-- `WellScoped`, but for the names in `M`. -/
abbrev Env.ScopedBut (M : String → Prop) (env : Env κ) : Prop :=
  env.Every (Closure.ScopedBut M) fun _ => False

abbrev Value.ScopedBut (M : String → Prop) (v : Value κ) : Prop :=
  v.Every (Closure.ScopedBut M) fun _ => False

namespace Closure.ScopedBut

variable {M : String → Prop} {c : Closure κ}

/-- A closure over an environment that binds the free names of its body, but for the parameter and
the self name. -/
theorem of_free {id : Nat} {x : String} {b : Expr} {self : Option String} {env : Env κ}
    (h : ∀ y ∈ b.free, y ≠ x → self ≠ some y → y ∈ env.names ∨ M y) :
    Closure.ScopedBut M ⟨id, x, b, self, env⟩ := by
  intro y hy
  by_cases hyx : y = x
  · exact .inr (.inl hyx)
  · by_cases hself : self = some y
    · exact .inr (.inr (.inl hself))
    · rcases h y hy hyx hself with h | h
      · exact .inl h
      · exact .inr (.inr (.inr h))

/-- A name that is free in the body is bound where the body runs. -/
theorem callEnv (h : c.ScopedBut M) (arg : Value κ) (store : Store σ) :
    ∀ x ∈ c.body.free, x ∈ (c.callEnv arg store).1.names ∨ M x := by
  intro x hx
  rw [c.names_callEnv]
  rcases h x hx with h | h | h | h
  · exact .inl (by simp [h])
  · exact .inl (by simp [h])
  · exact .inl (by simp [h])
  · exact .inr h

/-- Under a new self name the old one is still bound, in the captured environment. -/
theorem tie (h : c.ScopedBut M) (name : String) (store : Store σ) :
    (c.tie name store).1.ScopedBut M := by
  intro x hx
  show x ∈ (c.selfEnv store).1.names ∨ _
  rw [c.names_selfEnv]
  rcases h x hx with h | h | h | h
  · exact .inl (by simp [h])
  · exact .inr (.inl h)
  · exact .inl (by simp [h])
  · exact .inr (.inr (.inr h))

end Closure.ScopedBut

/-! ### Evaluation keeps the scope -/

/-- Values are well scoped but for `M`, expressions are evaluated where their free names are bound
or in `M`, and only a name in `M` is found to be unbound. -/
def scope (M : String → Prop) : Invariant κ σ where
  value := Value.ScopedBut M
  sees e env := env.ScopedBut M ∧ ∀ x ∈ e.free, x ∈ env.names ∨ M x
  after _ r _ := ∀ x, r = some (.unboundVariable x) → M x

/-- What is free in a part is free in the whole. -/
theorem Expr.free_of_part {e part : Expr} (h : part ∈ e.parts) : part.free ⊆ e.free := by
  intro x hx
  cases e with
  | var | lam | int | bool | str => cases h
  | app f a =>
      simp only [Expr.parts, List.mem_cons, List.not_mem_nil, or_false] at h
      rcases h with rfl | rfl <;> simp [Expr.free, hx]
  | cond e yes no =>
      simp only [Expr.parts, List.mem_cons, List.not_mem_nil, or_false] at h
      rcases h with rfl | rfl | rfl <;> simp [Expr.free, hx]
  | binary l op r =>
      simp only [Expr.parts, List.mem_cons, List.not_mem_nil, or_false] at h
      rcases h with rfl | rfl <;> simp [Expr.free, hx]
  | letIn rec y e b =>
      simp only [Expr.parts] at h
      split at h
      · cases h
      · next hlam =>
          obtain rfl := List.mem_singleton.mp h
          simp [Expr.free, hlam, hx]

theorem scope_closed (M : String → Prop) : (scope (κ := κ) (σ := σ) M).Closed where
  base := Value.every_of_not_callable
  lookup h hx := h.1.lookup hx
  parts h part hpart := ⟨h.1, fun x hx => h.2 x (Expr.free_of_part hpart hx)⟩
  lam h _ := ⟨.of_free fun y hy hyx _ => h.2 y (by simp [Expr.free, hy, hyx]), h.1⟩
  knot {f x ty b e env} h _ := by
    refine ⟨.of_free fun y hy hyx hyf => h.2 y ?_, h.1⟩
    have hne : y ≠ f := fun h => hyf (congrArg some h.symm)
    simp [Expr.free, Expr.isLam, hy, hyx, hne]
  tie hc name t := Closure.Every.tie hc name t ((Closure.every_iff.mp hc).1.tie name t)
  body {rec x e b env v} h hv _ := by
    refine ⟨⟨hv, h.1⟩, fun y hy => ?_⟩
    by_cases hyx : y = x
    · exact .inl (by simp [Env.names, hyx])
    · rcases h.2 y (by simp [Expr.free, hy, hyx]) with h | h
      · exact .inl (by simp [Env.names, h])
      · exact .inr h
  callEnv hc hv t := ⟨Closure.Every.callEnv hc hv t, (Closure.every_iff.mp hc).1.callEnv _ t⟩

/-- No error but one of a name is about a name. -/
theorem EvalError.Raised.ne_unbound {e : EvalError κ} (h : e.Raised) (x : String) :
    e ≠ .unboundVariable x := by
  rintro rfl
  cases h with
  | operator h => exact Operator.apply_ne_unbound _ _ _ x h

/-- **Evaluation keeps the scope.** -/
theorem scope_lawful (M : String → Prop) (host : Host κ σ) : (scope M).Lawful host where
  toClosed := scope_closed M
  refl _ _ h := by cases h
  trans _ _ h := h
  taken _ _ _ h := by cases h
  tied _ _ _ _ h := by cases h
  raised he _ x hx := absurd (Option.some.inj hx) (he.ne_unbound x)
  unbound {x env} h hx _ y hy := by
    cases hy
    exact (h.2 x (by simp [Expr.free])).resolve_left (Env.lookup?_eq_none_iff.mp hx)
  interrupted _ _ _ h := by cases h
  intrinsic i name v _ x hx := by
    cases hout : i.apply v with
    | ok w => rw [hout] at hx; cases hx
    | error e =>
        rw [hout] at hx
        obtain rfl : e = .unboundVariable x := Option.some.inj hx
        exact absurd hout (i.apply_ne_unbound v x)
  host hb hcode _ _ := (Builtin.Every.of_host hb hcode).1.elim
  call _ _ h := h
  refused _ _ h := by cases h

/-! ### Scope safety -/

theorem Closure.Scoped.but {c : Closure κ} (h : c.Scoped) (M : String → Prop) : c.ScopedBut M := by
  intro x hx
  rcases h x hx with h | h | h
  · exact .inl h
  · exact .inr (.inl h)
  · exact .inr (.inr (.inl h))

theorem Closure.ScopedBut.scoped {c : Closure κ} (h : c.ScopedBut fun _ => False) : c.Scoped := by
  intro x hx
  rcases h x hx with h | h | h | h
  · exact .inl h
  · exact .inr (.inl h)
  · exact .inr (.inr h)
  · exact h.elim

/-- An expression whose free names are bound, or in `M`, is evaluated in scope. -/
theorem eval_scoped (host : Host κ σ) {M : String → Prop} {env : Env κ} (henv : env.ScopedBut M)
    {e : Expr} (hfree : ∀ x ∈ e.free, x ∈ env.names ∨ M x) (s : Run.State κ σ) :
    (scope M).Allows (Value.ScopedBut M) s (e.eval host env s) :=
  (scope_lawful M host).eval ⟨henv, hfree⟩ s

/-- A name that is found to be unbound is in `M`. -/
theorem mem_of_unbound (host : Host κ σ) {M : String → Prop} {env : Env κ}
    (henv : env.ScopedBut M) {e : Expr} (hfree : ∀ x ∈ e.free, x ∈ env.names ∨ M x)
    {s : Run.State κ σ} {x : String} (hx : (e.eval host env s).1 = .error (.unboundVariable x)) :
    M x :=
  (eval_scoped host henv hfree s).after x (by rw [hx]; rfl)

/-- **Scope safety.**  In a well-scoped environment a name is found to be unbound only if it is free
in the expression and not bound in the environment.  If all the free names are bound, no name is
found to be unbound, and a result is again well scoped. -/
theorem eval_scope_safe (host : Host κ σ) {env : Env κ} (henv : env.WellScoped) (e : Expr)
    (s : Run.State κ σ) :
    (∀ x, (e.eval host env s).1 = .error (.unboundVariable x) → x ∈ e.free ∧ x ∉ env.names) ∧
    (e.free ⊆ env.names → (∀ x, (e.eval host env s).1 ≠ .error (.unboundVariable x)) ∧
      ∀ v, (e.eval host env s).1 = .ok v → v.WellScoped) := by
  have hbut (M : String → Prop) : env.ScopedBut M := henv.mono (fun _ h => h.but M) fun _ h => h
  refine ⟨fun x hx => ?_, fun hfree => ⟨fun x hx => ?_, fun v hv => ?_⟩⟩
  · exact mem_of_unbound host (M := fun x => x ∈ e.free ∧ x ∉ env.names) (hbut _)
      (fun y hy => (Classical.em (y ∈ env.names)).imp_right fun h => ⟨hy, h⟩) hx
  · exact mem_of_unbound host (hbut fun _ => False) (fun y hy => .inl (hfree hy)) hx
  · have hsafe := eval_scoped host (hbut fun _ => False) (fun y hy => .inl (hfree hy)) s
    exact (hsafe.result v hv).mono (fun _ h => h.scoped) fun _ h => h

/-- A closure that applies itself, under its self name `h`, to a name it has captured. -/
def selfApplying : Closure Stock :=
  ⟨1, "x", .app (.var "h") (.var "y"), some "h", .frame 0 "y" (.int 5) .empty⟩

/-- `let rec f = k in e`. -/
def aliasing (e : Expr) : Expr := .letIn true "f" (.var "k") e

/-- Tied to the name `f` the closure still finds its old name; a name that is bound nowhere is
free. -/
theorem eval_scope_safe_aliasing :
    let env : Env Stock := .frame 2 "k" (.closure selfApplying) .empty
    let s : Run.State Stock Stock.Counts := .start ⟨1, 0, 0⟩ ⟨3, fun _ => false, fun _ => 0⟩
    let tied : Value Stock := .closure
      ⟨4, "x", selfApplying.body, some "f", .frame 3 "h" (.closure selfApplying) selfApplying.env⟩
    (((aliasing (.var "z")).eval Stock.host env s).1 = .error (.unboundVariable "z") ∧
      "z" ∈ (aliasing (.var "z")).free ∧ "z" ∉ env.names) ∧
    ((aliasing (.var "f")).eval Stock.host env s).1 = .ok tied ∧ tied.WellScoped := by
  intro env s tied
  have hscoped : env.WellScoped := by
    refine ⟨⟨fun x hx => ?_, trivial, trivial⟩, trivial⟩
    rcases List.mem_cons.mp hx with rfl | hx
    · exact .inr (.inr rfl)
    · exact .inl hx
  exact ⟨⟨rfl, (eval_scope_safe Stock.host hscoped (aliasing (.var "z")) s).1 "z" rfl⟩, rfl,
    ((eval_scope_safe Stock.host hscoped (aliasing (.var "f")) s).2 (by decide)).2 tied rfl⟩

end EagerLambda
