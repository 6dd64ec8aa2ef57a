import EagerLambda.Proofs.Scope
import EagerLambda.Proofs.Simulation

/-!
# Closures — what their bodies see

The free names of a body are bound by a call in three layers: the parameter, the self name, and what
was captured.  `Closure.sees?` puts the last two together.  The environment of a call has the
parameter in front of what is seen; a closure that is tied to a new name captures what is seen, so
its old self name is from then on one of the names that it takes from outside (`Closure.sees?_tie`).

A relation between values is lexical if it relates closures only where their code is the same and
their bodies see related values, and relates those that have captured related ones
(`Value.Lexical`).  Evaluation cannot tell related values apart, whatever the lexical relation
(`Value.Lexical.eval`).
-/

namespace EagerLambda

variable {κ σ : Type}

/-- The value that the body of a closure sees under a name, if the name is not the parameter. -/
def Closure.sees? (c : Closure κ) (x : String) : Option (Value κ) :=
  if c.selfName = some x then some (.closure c) else c.env.lookup? x

/-- A closure that is tied to a name sees itself under that name, and else what it has seen
before. -/
theorem Closure.sees?_tie (c : Closure κ) (f : String) (store : Store σ) (x : String) :
    (c.tie f store).1.sees? x =
      if f = x then some (.closure (c.tie f store).1) else c.sees? x := by
  show (if some f = some x then _ else (c.selfEnv store).1.lookup? x) = _
  simp only [c.lookup?_selfEnv, Option.some.injEq]
  rfl

/-- Each of the names is unbound in both environments, or bound in both to related values. -/
def Env.AgreeOn (V : Value κ → Value κ → Prop) (names : List String) (env env' : Env κ) : Prop :=
  ∀ x ∈ names, Option.Rel V (env.lookup? x) (env'.lookup? x)

/-- Equal values that are no functions, builtins that are the same intrinsic, or closures of the
same code. -/
inductive Value.SameShape : Value κ → Value κ → Prop where
  | base {v : Value κ} (h : v.isCallable = false) : SameShape v v
  | intrinsic {b b' : Builtin κ} {i : Intrinsic} (hname : b.name = b'.name)
      (hb : b.code = .intrinsic i) (hb' : b'.code = .intrinsic i) :
      SameShape (.builtin b) (.builtin b')
  | closure {c d : Closure κ} (hparam : c.param = d.param) (hbody : c.body = d.body) :
      SameShape (.closure c) (.closure d)

/-- A relation between values of the same shape that looks at what the bodies of closures see. -/
structure Value.Lexical (V : Value κ → Value κ → Prop) : Prop where
  shape : ∀ {v w : Value κ}, V v w → v.SameShape w
  base : ∀ {v : Value κ}, v.isCallable = false → V v v
  intrinsic : ∀ {b b' : Builtin κ} {i : Intrinsic}, b.name = b'.name → b.code = .intrinsic i →
    b'.code = .intrinsic i → V (.builtin b) (.builtin b')
  /-- The bodies of related closures see related values. -/
  seen : ∀ {c d : Closure κ}, V (.closure c) (.closure d) →
    ∀ x ∈ c.body.free, x ≠ c.param → Option.Rel V (c.sees? x) (d.sees? x)
  /-- Closures of the same code are related if they have captured related values. -/
  captured : ∀ {c d : Closure κ}, c.param = d.param → c.body = d.body → c.selfName = d.selfName →
    (∀ x ∈ c.body.free, x ≠ c.param → c.selfName ≠ some x →
      Option.Rel V (c.env.lookup? x) (d.env.lookup? x)) → V (.closure c) (.closure d)

variable {V : Value κ → Value κ → Prop}

namespace Env.AgreeOn

variable {names : List String} {env env' : Env κ}

theorem mono (h : env.AgreeOn V names env') {fewer : List String} (hsub : fewer ⊆ names) :
    env.AgreeOn V fewer env' := fun x hx => h x (hsub hx)

/-- A new frame on both sides takes care of its name. -/
theorem frame {x : String} (h : env.AgreeOn V (names.filter (· ≠ x)) env') {v v' : Value κ}
    (hv : V v v') (id id' : Nat) :
    Env.AgreeOn V names (.frame id x v env) (.frame id' x v' env') := by
  intro y hy
  simp only [Env.lookup?]
  by_cases hxy : x = y
  · rw [if_pos hxy, if_pos hxy]
    exact .some hv
  · rw [if_neg hxy, if_neg hxy]
    exact h y (by simp [hy, Ne.symm hxy])

end Env.AgreeOn

namespace Value.Lexical

theorem faithful (hV : Value.Lexical V) : Value.Faithful V where
  base := hV.base
  eq h hv := by
    cases hV.shape h with
    | base => rfl
    | intrinsic | closure => cases hv
  tag h := by cases hV.shape h <;> rfl
  render h := by
    cases hV.shape h with
    | base => rfl
    | intrinsic hname => exact congrArg ("<builtin " ++ · ++ ">") hname
    | closure hparam => exact congrArg ("<closure \\" ++ · ++ ">") hparam

theorem likeness (hV : Value.Lexical V) : Run.Likeness V (Event.Like V) := hV.faithful.likeness

mutual

/-- A value without functions of the host is related to itself. -/
theorem self (hV : Value.Lexical V) : ∀ {v : Value κ}, v.Within (fun _ => False) → V v v
  | .int _, _ | .bool _, _ | .str _, _ => hV.base rfl
  | .closure (.mk _ _ _ _ _), h => hV.captured rfl rfl rfl fun x _ _ _ => hV.lookup_self h.2 x
  | .builtin (.mk _ _ (.intrinsic _) _), _ => hV.intrinsic rfl rfl rfl
  | .builtin (.mk _ _ (.host _) _), h => h.1.elim

theorem lookup_self (hV : Value.Lexical V) : ∀ {env : Env κ}, env.Within (fun _ => False) →
    ∀ x, Option.Rel V (env.lookup? x) (env.lookup? x)
  | .empty, _, _ => .none
  | .frame _ y _ _, h, x => by
      simp only [Env.lookup?]
      split
      · exact .some (hV.self h.1)
      · exact hV.lookup_self h.2 x

end

/-! ### Calls and knots -/

section

variable {c d : Closure κ}

/-- Related closures have the same code. -/
theorem code (hV : Value.Lexical V) (h : V (.closure c) (.closure d)) :
    c.param = d.param ∧ c.body = d.body := by
  cases hV.shape h with
  | base => exact ⟨rfl, rfl⟩
  | closure hparam hbody => exact ⟨hparam, hbody⟩

/-- The environments of two calls agree on all that the body can see. -/
theorem callEnv (hV : Value.Lexical V) (h : V (.closure c) (.closure d)) {v v' : Value κ}
    (hv : V v v') (store store' : Store σ) :
    (c.callEnv v store).1.AgreeOn V c.body.free (d.callEnv v' store').1 := by
  show Env.AgreeOn V _ (.frame _ c.param v (c.selfEnv store).1)
    (.frame _ d.param v' (d.selfEnv store').1)
  rw [← (hV.code h).1]
  refine .frame (fun x hx => ?_) hv _ _
  obtain ⟨hfree, hx⟩ := List.mem_filter.mp hx
  rw [c.lookup?_selfEnv, d.lookup?_selfEnv]
  exact hV.seen h x hfree (of_decide_eq_true hx)

/-- Related closures can be tied to the same name. -/
theorem tie (hV : Value.Lexical V) (h : V (.closure c) (.closure d)) (x : String)
    (store store' : Store σ) :
    V (.closure (c.tie x store).1) (.closure (d.tie x store').1) := by
  -- what is captured is what was seen, whether or not it came from the old self name
  refine hV.captured (hV.code h).1 (hV.code h).2 rfl fun y hy hyp _ => ?_
  show Option.Rel V ((c.selfEnv store).1.lookup? y) ((d.selfEnv store').1.lookup? y)
  rw [c.lookup?_selfEnv, d.lookup?_selfEnv]
  exact hV.seen h y hy hyp

end

/-- What a `let` binds for related values. -/
theorem bound (hV : Value.Lexical V) {v w : Value κ} (h : V v w) (rec : Bool) (x : String) :
    Run.Sim V V (v.bound rec x : Run κ σ (Value κ)) (w.bound rec x) :=
  .bound hV.likeness rec (fun c _ hcd => ⟨(hV.code hcd).1 ▸ .tied x c.param, hV.tie hcd x⟩) h

/-! ### Evaluation cannot tell related values apart -/

theorem evalWith (hV : Value.Lexical V) {call call' : Value κ → Value κ → Run κ σ (Value κ)}
    (hcall : ∀ u u' v v', V u u' → V v v' → Run.Sim V V (call u v) (call' u' v')) (e : Expr) :
    ∀ env env', env.AgreeOn V e.free env' →
      Run.Sim V V (e.evalWith call env) (e.evalWith call' env') := by
  have hlike := hV.likeness
  induction e with
  | int n | bool b | str s =>
      exact fun env env' _ => (Run.SimBy.poll hlike _).bind fun _ _ _ => .pure (hV.base rfl)
  | var x =>
      intro env env' henv
      exact .var hlike (henv x (by simp [Expr.free])) fun _ => rfl
  | lam x ty b ih =>
      intro env env' henv
      refine .lam hlike fun _ _ => hV.captured rfl rfl rfl fun y hy hyx _ => henv y ?_
      simp [Expr.free, hy, hyx]
  | app f a ihf iha =>
      intro env env' henv
      refine .app hlike hcall (ihf env env' (henv.mono ?_))
        (iha env env' (henv.mono ?_))
      · exact List.subset_append_left _ _
      · exact List.subset_append_right _ _
  | cond e yes no ihe ihy ihn =>
      intro env env' henv
      refine .cond hlike (ihe env env' (henv.mono ?_)) (ihy env env' (henv.mono ?_))
        (ihn env env' (henv.mono ?_))
      · exact fun x hx => by simp [Expr.free, hx]
      · exact fun x hx => by simp [Expr.free, hx]
      · exact fun x hx => by simp [Expr.free, hx]
  | binary l op r ihl ihr =>
      intro env env' henv
      refine .binary hlike op (ihl env env' (henv.mono ?_))
        (ihr env env' (henv.mono ?_))
      · exact List.subset_append_left _ _
      · exact List.subset_append_right _ _
  | letIn rec x e b ihe ihb =>
      intro env env' henv
      refine (Run.SimBy.poll hlike _).bind fun _ _ _ => ?_
      have hvalue : Run.Sim V
          (fun v w => Run.Sim V V (v.bound rec x : Run κ σ (Value κ)) (w.bound rec x))
          (e.evalWith call env) (e.evalWith call' env') := by
        cases hlam : rec && e.isLam with
        | false =>
            refine (ihe env env' (henv.mono fun y hy => ?_)).mono fun v w hv => hV.bound hv rec x
            simp [Expr.free, hlam, hy]
        | true =>
            -- before they are tied, the two closures of a lambda need not agree on the name
            obtain ⟨rfl, he⟩ := Bool.and_eq_true_iff.mp hlam
            cases e with
            | lam p ty fb =>
                refine (Run.SimBy.poll hlike _).bind fun _ _ _ => ?_
                refine .bind (.alloc (A := fun c d => (∃ id, c = ⟨id, p, fb, none, env⟩) ∧
                  ∃ id, d = ⟨id, p, fb, none, env'⟩) Closure.quiet_make Closure.quiet_make
                  fun _ _ => ⟨⟨_, rfl⟩, _, rfl⟩) ?_
                rintro _ _ ⟨⟨id, rfl⟩, id', rfl⟩
                refine .pure (.bind (.record (.tied x p)) fun _ _ _ => ?_)
                refine .bind (.alloc (Closure.quiet_tie _ x) (Closure.quiet_tie _ x) fun _ _ => ?_)
                  fun _ _ h => .pure h
                rw [Closure.tie_of_none rfl, Closure.tie_of_none rfl]
                refine hV.captured rfl rfl rfl fun y hy hyp hyx => henv y ?_
                have hne : y ≠ x := fun h => hyx (congrArg some h.symm)
                simp [Expr.free, Expr.isLam, hy, hyp, hne]
            | _ => cases he
      refine hvalue.bind fun v w hv => hv.bind fun v w hv => ?_
      refine .bind (.alloc Env.quiet_extend Env.quiet_extend fun _ _ => ?_)
        fun env₁ env₁' henv₁ => ihb env₁ env₁' henv₁
      refine Env.AgreeOn.frame (henv.mono fun y hy => ?_) hv _ _
      exact List.mem_append_right _ hy

theorem callWith (hV : Value.Lexical V) (host : Host κ σ)
    {evalBody evalBody' : Expr → Env κ → Run κ σ (Value κ)}
    (hbody : ∀ e env env', env.AgreeOn V e.free env' →
      Run.Sim V V (evalBody e env) (evalBody' e env'))
    {u u' v v' : Value κ} (hu : V u u') (hv : V v v') :
    Run.Sim V V (u.callWith host evalBody v) (u'.callWith host evalBody' v') := by
  refine .callWith hV.likeness (fun c d hcd => ?_) (fun b b' hb => ?_) hu
  · obtain ⟨hparam, hcode⟩ := hV.code hcd
    simp only [Closure.runWith, ← hparam, ← hcode]
    exact .entered hV.likeness (fun _ => .closureCall _ _ hv) (c.quiet_callEnv v)
      (d.quiet_callEnv v') (hV.callEnv hcd hv) (hbody c.body)
  · cases hV.shape hb with
    | base h => cases h
    | intrinsic hname hi hi' => exact .intrinsic hV.likeness host host hname hi hi' hv

theorem callAt (hV : Value.Lexical V) (host : Host κ σ) (room : Nat) :
    ∀ u u' v v', V u u' → V v v' →
      Run.Sim V V (EagerLambda.callAt host room u v) (EagerLambda.callAt host room u' v') := by
  induction room with
  | zero => exact fun u u' v v' => hV.callWith host fun _ _ _ _ => .overflow hV.likeness
  | succ room ih => exact fun u u' v v' => hV.callWith host (hV.evalWith ih)

/-- **Evaluation in environments that agree** on the free names of the expression ends alike. -/
theorem eval (hV : Value.Lexical V) (host : Host κ σ) {e : Expr} {env env' : Env κ}
    (h : env.AgreeOn V e.free env') : Run.Sim V V (e.eval host env) (e.eval host env') := by
  intro s t hst
  rw [Expr.eval, Expr.eval, hst.room]
  exact hV.evalWith (hV.callAt host t.context.room) e env env' h s t hst

end Value.Lexical

end EagerLambda
