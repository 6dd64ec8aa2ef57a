import EagerLambda.Proofs.Contents
import EagerLambda.Proofs.Runs

/-!
# Big steps — the meaning of expressions, without a limit

The call-by-value meaning of an expression as an inductive relation.  There is no context in it: no
limit, no depth, no flag and no trace.  A derivation relates an environment and an expression to an
outcome, a value or the first error, and to the height of the derivation in calls: how many calls of
closures are nested where most of them are.  Calls of builtins do not count.

Identities are drawn from the store, so every rule threads one: the store says in which order things
were made, and with it the order of evaluation.  New frames and closures are written out in the
rules.  A closure that has a self name is bound under it, in front of what it has captured and
behind the parameter.

A derivation keeps what its environment holds: with functions of the host that leave a flag alone
and yield only such functions (`Host.Leaves`), the flag stays as it is and the result holds no
others (`BigStep.leaves`).
-/

namespace EagerLambda

variable {κ σ : Type}

/-- `BigStep host t env e r h t'`: with the store `t`, the expression `e` has in `env` the outcome
`r` and leaves the store `t'`, and its calls of closures are nested `h` deep. -/
inductive BigStep (host : Host κ σ) :
    Store σ → Env κ → Expr → Except (EvalError κ) (Value κ) → Nat → Store σ → Prop where
  | int {t : Store σ} {env : Env κ} {n : Int64} : BigStep host t env (.int n) (.ok (.int n)) 0 t
  | bool {t : Store σ} {env : Env κ} {b : Bool} : BigStep host t env (.bool b) (.ok (.bool b)) 0 t
  | str {t : Store σ} {env : Env κ} {s : String} : BigStep host t env (.str s) (.ok (.str s)) 0 t
  | var {t : Store σ} {env : Env κ} {x : String} {v : Value κ} (hx : env.lookup? x = some v) :
      BigStep host t env (.var x) (.ok v) 0 t
  | unbound {t : Store σ} {env : Env κ} {x : String} (hx : env.lookup? x = none) :
      BigStep host t env (.var x) (.error (.unboundVariable x)) 0 t
  | lam {t : Store σ} {env : Env κ} {x : String} {ty : Option Ty} {b : Expr} :
      BigStep host t env (.lam x ty b) (.ok (.closure ⟨t.next, x, b, none, env⟩)) 0 (t.taken 1)
  | appFuncError {t t₁ : Store σ} {env : Env κ} {f a : Expr} {err : EvalError κ} {h : Nat}
      (hf : BigStep host t env f (.error err) h t₁) :
      BigStep host t env (.app f a) (.error err) h t₁
  | appNoFunction {t t₁ : Store σ} {env : Env κ} {f a : Expr} {u : Value κ} {h : Nat}
      (hf : BigStep host t env f (.ok u) h t₁) (hu : u.isCallable = false) :
      BigStep host t env (.app f a) (.error (.notAFunction u)) h t₁
  | appArgError {t t₁ t₂ : Store σ} {env : Env κ} {f a : Expr} {u : Value κ} {err : EvalError κ}
      {h₁ h₂ : Nat} (hf : BigStep host t env f (.ok u) h₁ t₁) (hu : u.isCallable = true)
      (ha : BigStep host t₁ env a (.error err) h₂ t₂) :
      BigStep host t env (.app f a) (.error err) (max h₁ h₂) t₂
  | appIntrinsic {t t₁ t₂ : Store σ} {env : Env κ} {f a : Expr} {b : Builtin κ} {i : Intrinsic}
      {v : Value κ} {h₁ h₂ : Nat} (hf : BigStep host t env f (.ok (.builtin b)) h₁ t₁)
      (ha : BigStep host t₁ env a (.ok v) h₂ t₂) (hb : b.code = .intrinsic i) :
      BigStep host t env (.app f a) (i.apply v) (max h₁ h₂) t₂
  | appHost {t t₁ t₂ t₃ : Store σ} {env : Env κ} {f a : Expr} {b : Builtin κ} {code : κ}
      {v : Value κ} {r : Except (EvalError κ) (Value κ)} {h₁ h₂ : Nat}
      (hf : BigStep host t env f (.ok (.builtin b)) h₁ t₁)
      (ha : BigStep host t₁ env a (.ok v) h₂ t₂) (hb : b.code = .host code)
      (hr : host.call code b.captured v t₂ = (r, t₃)) :
      BigStep host t env (.app f a) r (max h₁ h₂) t₃
  | appClosure {t t₁ t₂ t₃ : Store σ} {env : Env κ} {f a : Expr} {c : Closure κ} {v : Value κ}
      {r : Except (EvalError κ) (Value κ)} {h₁ h₂ h₃ : Nat}
      (hf : BigStep host t env f (.ok (.closure c)) h₁ t₁)
      (ha : BigStep host t₁ env a (.ok v) h₂ t₂) (hc : c.selfName = none)
      (hb : BigStep host (t₂.taken 1) (.frame t₂.next c.param v c.env) c.body r h₃ t₃) :
      BigStep host t env (.app f a) r (max (max h₁ h₂) (h₃ + 1)) t₃
  | appRecursive {t t₁ t₂ t₃ : Store σ} {env : Env κ} {f a : Expr} {c : Closure κ} {v : Value κ}
      {g : String} {r : Except (EvalError κ) (Value κ)} {h₁ h₂ h₃ : Nat}
      (hf : BigStep host t env f (.ok (.closure c)) h₁ t₁)
      (ha : BigStep host t₁ env a (.ok v) h₂ t₂) (hc : c.selfName = some g)
      (hb : BigStep host (t₂.taken 2)
        (.frame (t₂.next + 1) c.param v (.frame t₂.next g (.closure c) c.env)) c.body r h₃ t₃) :
      BigStep host t env (.app f a) r (max (max h₁ h₂) (h₃ + 1)) t₃
  | condError {t t₁ : Store σ} {env : Env κ} {e yes no : Expr} {err : EvalError κ} {h : Nat}
      (he : BigStep host t env e (.error err) h t₁) :
      BigStep host t env (.cond e yes no) (.error err) h t₁
  | condTrue {t t₁ t₂ : Store σ} {env : Env κ} {e yes no : Expr}
      {r : Except (EvalError κ) (Value κ)} {h₁ h₂ : Nat}
      (he : BigStep host t env e (.ok (.bool true)) h₁ t₁) (hy : BigStep host t₁ env yes r h₂ t₂) :
      BigStep host t env (.cond e yes no) r (max h₁ h₂) t₂
  | condFalse {t t₁ t₂ : Store σ} {env : Env κ} {e yes no : Expr}
      {r : Except (EvalError κ) (Value κ)} {h₁ h₂ : Nat}
      (he : BigStep host t env e (.ok (.bool false)) h₁ t₁) (hn : BigStep host t₁ env no r h₂ t₂) :
      BigStep host t env (.cond e yes no) r (max h₁ h₂) t₂
  | condNoBool {t t₁ : Store σ} {env : Env κ} {e yes no : Expr} {u : Value κ} {h : Nat}
      (he : BigStep host t env e (.ok u) h t₁) (hu : ∀ b, u ≠ .bool b) :
      BigStep host t env (.cond e yes no) (.error (.nonBooleanCondition u)) h t₁
  | binaryLeftError {t t₁ : Store σ} {env : Env κ} {l r : Expr} {op : Operator} {err : EvalError κ}
      {h : Nat} (hl : BigStep host t env l (.error err) h t₁) :
      BigStep host t env (.binary l op r) (.error err) h t₁
  | binaryRightError {t t₁ t₂ : Store σ} {env : Env κ} {l r : Expr} {op : Operator} {u : Value κ}
      {err : EvalError κ} {h₁ h₂ : Nat} (hl : BigStep host t env l (.ok u) h₁ t₁)
      (hr : BigStep host t₁ env r (.error err) h₂ t₂) :
      BigStep host t env (.binary l op r) (.error err) (max h₁ h₂) t₂
  | binary {t t₁ t₂ : Store σ} {env : Env κ} {l r : Expr} {op : Operator} {u v : Value κ}
      {h₁ h₂ : Nat} (hl : BigStep host t env l (.ok u) h₁ t₁)
      (hr : BigStep host t₁ env r (.ok v) h₂ t₂) :
      BigStep host t env (.binary l op r) (op.apply u v) (max h₁ h₂) t₂
  | letError {t t₁ : Store σ} {env : Env κ} {rec : Bool} {x : String} {e b : Expr}
      {err : EvalError κ} {h : Nat} (he : BigStep host t env e (.error err) h t₁) :
      BigStep host t env (.letIn rec x e b) (.error err) h t₁
  | letPlain {t t₁ t₂ : Store σ} {env : Env κ} {rec : Bool} {x : String} {e b : Expr} {v : Value κ}
      {r : Except (EvalError κ) (Value κ)} {h₁ h₂ : Nat} (he : BigStep host t env e (.ok v) h₁ t₁)
      (hv : rec = false ∨ ∀ c, v ≠ .closure c)
      (hb : BigStep host (t₁.taken 1) (.frame t₁.next x v env) b r h₂ t₂) :
      BigStep host t env (.letIn rec x e b) r (max h₁ h₂) t₂
  | letRec {t t₁ t₂ : Store σ} {env : Env κ} {x : String} {e b : Expr} {c : Closure κ}
      {r : Except (EvalError κ) (Value κ)} {h₁ h₂ : Nat}
      (he : BigStep host t env e (.ok (.closure c)) h₁ t₁) (hc : c.selfName = none)
      (hb : BigStep host (t₁.taken 2) (.frame (t₁.next + 1) x
        (.closure ⟨t₁.next, c.param, c.body, some x, c.env⟩) env) b r h₂ t₂) :
      BigStep host t env (.letIn true x e b) r (max h₁ h₂) t₂
  | letRecAgain {t t₁ t₂ : Store σ} {env : Env κ} {x g : String} {e b : Expr} {c : Closure κ}
      {r : Except (EvalError κ) (Value κ)} {h₁ h₂ : Nat}
      (he : BigStep host t env e (.ok (.closure c)) h₁ t₁) (hc : c.selfName = some g)
      (hb : BigStep host (t₁.taken 3) (.frame (t₁.next + 2) x (.closure ⟨t₁.next + 1, c.param,
        c.body, some x, .frame t₁.next g (.closure c) c.env⟩) env) b r h₂ t₂) :
      BigStep host t env (.letIn true x e b) r (max h₁ h₂) t₂

/-! ### What a derivation leaves as it was -/

/-- The functions in `Q` leave the flag alone, and what they yield holds no other functions than
those in `Q`. -/
def Host.Leaves (host : Host κ σ) (flag : Flag) (Q : κ → Prop) : Prop :=
  ∀ code captured arg t, Q code → captured.Within Q → arg.Within Q →
    (host.call code captured arg t).2.raised flag = t.raised flag ∧
      ∀ v, (host.call code captured arg t).1 = .ok v → v.Within Q

/-- From `t` to `t'` the flag has not changed, and the outcome holds no functions but those in
`Q`. -/
structure Kept (flag : Flag) (Q : κ → Prop) (t : Store σ) (r : Except (EvalError κ) (Value κ))
    (t' : Store σ) : Prop where
  flag : t'.raised flag = t.raised flag
  within : ∀ v, r = .ok v → v.Within Q

namespace Kept

variable {flag : Flag} {Q : κ → Prop} {t t₁ t₂ : Store σ} {r : Except (EvalError κ) (Value κ)}

theorem value {v : Value κ} (h : Kept flag Q t (.ok v) t₁) : v.Within Q := h.within v rfl

theorem ok {v : Value κ} (hv : v.Within Q) (hf : t₁.raised flag = t.raised flag) :
    Kept flag Q t (.ok v) t₁ :=
  ⟨hf, fun _ h => Except.ok.inj h ▸ hv⟩

theorem error {err : EvalError κ} (hf : t₁.raised flag = t.raised flag) :
    Kept flag Q t (.error err) t₁ :=
  ⟨hf, fun _ h => nomatch h⟩

theorem trans {r₁ : Except (EvalError κ) (Value κ)} (h₁ : Kept flag Q t r₁ t₁)
    (h₂ : Kept flag Q t₁ r t₂) : Kept flag Q t r t₂ :=
  ⟨h₂.flag.trans h₁.flag, h₂.within⟩

/-- Identities may have been taken before. -/
theorem of_taken {n : Nat} (h : Kept flag Q (t.taken n) r t₁) : Kept flag Q t r t₁ :=
  ⟨h.flag, h.within⟩

end Kept

/-- **What a derivation leaves**: the flag, and the functions of the host that can be held. -/
theorem BigStep.leaves {host : Host κ σ} {flag : Flag} {Q : κ → Prop} (hQ : host.Leaves flag Q)
    {t t' : Store σ} {env : Env κ} {e : Expr} {r : Except (EvalError κ) (Value κ)} {h : Nat}
    (hb : BigStep host t env e r h t') : env.Within Q → Kept flag Q t r t' := by
  induction hb with
  | int | bool | str => exact fun _ => .ok trivial rfl
  | var hx => exact fun henv => .ok (henv.lookup hx) rfl
  | unbound => exact fun _ => .error rfl
  | lam => exact fun henv => .ok ⟨trivial, henv⟩ rfl
  | appFuncError _ ih | condError _ ih | binaryLeftError _ ih | letError _ ih =>
      exact fun henv => .error (ih henv).flag
  | appNoFunction _ _ ih | condNoBool _ _ ih => exact fun henv => .error (ih henv).flag
  | appArgError _ _ _ ihf iha => exact fun henv => (ihf henv).trans (iha henv)
  | binaryRightError _ _ ihl ihr => exact fun henv => (ihl henv).trans (ihr henv)
  | condTrue _ _ ihe ihb | condFalse _ _ ihe ihb => exact fun henv => (ihe henv).trans (ihb henv)
  | binary _ _ ihl ihr =>
      exact fun henv => (ihl henv).trans ⟨(ihr henv).flag, fun _ => Operator.every_of_apply⟩
  | appIntrinsic _ _ _ ihf iha =>
      exact fun henv => (ihf henv).trans ⟨(iha henv).flag, fun _ => Intrinsic.every_of_apply⟩
  | appHost _ _ hb hr ihf iha =>
      intro henv
      -- the function was held by the callee, so it is one of `Q`
      obtain ⟨hcode, hcaptured⟩ := Builtin.Every.of_host (ihf henv).value hb
      obtain ⟨hflag, hval⟩ := hQ _ _ _ _ hcode hcaptured (iha henv).value
      rw [hr] at hflag hval
      exact (ihf henv).trans ((iha henv).trans ⟨hflag, hval⟩)
  | appClosure _ _ _ _ ihf iha ihb =>
      intro henv
      have hc := Closure.every_iff.mp (ihf henv).value
      exact (ihf henv).trans ((iha henv).trans (ihb ⟨(iha henv).value, hc.2⟩).of_taken)
  | appRecursive _ _ _ _ ihf iha ihb =>
      intro henv
      have hc := Closure.every_iff.mp (ihf henv).value
      have hself := (ihf henv).value
      exact (ihf henv).trans
        ((iha henv).trans (ihb ⟨(iha henv).value, hself, hc.2⟩).of_taken)
  | letPlain _ _ _ ihe ihb =>
      exact fun henv => (ihe henv).trans (ihb ⟨(ihe henv).value, henv⟩).of_taken
  | letRec _ _ _ ihe ihb =>
      intro henv
      have hc := Closure.every_iff.mp (ihe henv).value
      exact (ihe henv).trans (ihb ⟨⟨trivial, hc.2⟩, henv⟩).of_taken
  | letRecAgain _ _ _ ihe ihb =>
      intro henv
      have hc := Closure.every_iff.mp (ihe henv).value
      have hself := (ihe henv).value
      exact (ihe henv).trans (ihb ⟨⟨trivial, hself, hc.2⟩, henv⟩).of_taken

end EagerLambda
