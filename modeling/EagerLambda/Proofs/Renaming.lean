import EagerLambda.Proofs.Recursion

/-!
# Renaming — the names that an expression binds do not matter

Two expressions are alpha-equivalent if they differ in the names they bind only (`Expr.Alpha`).
Evaluating them in one environment then gives outcomes that differ in such names only
(`eval_renamed`): equal values, if these are no functions, or closures of alpha-equivalent code over
chains that correspond frame by frame; the same errors; the same events, but for the names in them.

Names live on when an expression is evaluated.  Frames bear them, and so do closures, as parameters
and self names.  The chains of the two runs have their frames in the same order, so the names that
stand for each other are found by pairing the names of the one chain with those of the other
(`Env.Renamed`); an expression is evaluated with its binders paired as the chains are.

One thing looks at names as a program goes.  A `let rec` that binds something else than a lambda
ties whatever closure it is given, and if the name it ties the closure to happens to occur in there,
that name is captured.  Such a `let rec` is excluded, in the expressions and in the closures that
the environment holds, and has to be (`retying`, `eval_tying_host`).
-/

namespace EagerLambda

variable {κ σ : Type}

/-! ### Expressions up to the names they bind -/

/-- The two names stand for each other: they are bound by the same pair of binders, or by none, and
then they are equal.  The innermost binders come first. -/
def Paired : List (String × String) → String → String → Prop
  | [], x, y => x = y
  | (p, q) :: binders, x, y => (p = x ∧ q = y) ∨ (p ≠ x ∧ q ≠ y ∧ Paired binders x y)

/-- The two expressions are the same up to the names they bind, with `binders` around them.  A
recursive `let` binds its name in the body, and in the value only where the value is a lambda. -/
inductive Expr.Alpha : List (String × String) → Expr → Expr → Prop where
  | var {binders : List (String × String)} {x y : String} (h : Paired binders x y) :
      Alpha binders (.var x) (.var y)
  | lam {binders : List (String × String)} {x y : String} {ty : Option Ty} {b b' : Expr}
      (hb : Alpha ((x, y) :: binders) b b') : Alpha binders (.lam x ty b) (.lam y ty b')
  | app {binders : List (String × String)} {f f' a a' : Expr} (hf : Alpha binders f f')
      (ha : Alpha binders a a') : Alpha binders (.app f a) (.app f' a')
  | cond {binders : List (String × String)} {e e' yes yes' no no' : Expr} (he : Alpha binders e e')
      (hyes : Alpha binders yes yes') (hno : Alpha binders no no') :
      Alpha binders (.cond e yes no) (.cond e' yes' no')
  | binary {binders : List (String × String)} {l l' r r' : Expr} {op : Operator}
      (hl : Alpha binders l l') (hr : Alpha binders r r') :
      Alpha binders (.binary l op r) (.binary l' op r')
  | letIn {binders : List (String × String)} {rec : Bool} {x y : String} {e e' b b' : Expr}
      (hlam : (rec && e.isLam) = false) (he : Alpha binders e e')
      (hb : Alpha ((x, y) :: binders) b b') :
      Alpha binders (.letIn rec x e b) (.letIn rec y e' b')
  | letRec {binders : List (String × String)} {x y : String} {e e' b b' : Expr}
      (hlam : e.isLam = true) (he : Alpha ((x, y) :: binders) e e')
      (hb : Alpha ((x, y) :: binders) b b') :
      Alpha binders (.letIn true x e b) (.letIn true y e' b')
  | int {binders : List (String × String)} (n : Int64) : Alpha binders (.int n) (.int n)
  | bool {binders : List (String × String)} (b : Bool) : Alpha binders (.bool b) (.bool b)
  | str {binders : List (String × String)} (s : String) : Alpha binders (.str s) (.str s)

theorem Paired.self (x : String) : ∀ names : List String, Paired (names.zip names) x x
  | [] => rfl
  | p :: names => by
      by_cases hpx : p = x
      · exact .inl ⟨hpx, hpx⟩
      · exact .inr ⟨hpx, hpx, Paired.self x names⟩

/-- Every expression is alpha-equivalent to itself, under equal binders. -/
theorem Expr.Alpha.self (e : Expr) :
    ∀ names : List String, Expr.Alpha (names.zip names) e e := by
  induction e with
  | int n => exact fun _ => .int n
  | bool b => exact fun _ => .bool b
  | str s => exact fun _ => .str s
  | var x => exact fun names => .var (.self x names)
  | lam x ty b ih => exact fun names => .lam (ih (x :: names))
  | app f a ihf iha => exact fun names => .app (ihf names) (iha names)
  | cond e yes no ihe ihy ihn => exact fun names => .cond (ihe names) (ihy names) (ihn names)
  | binary l op r ihl ihr => exact fun names => .binary (ihl names) (ihr names)
  | letIn rec x e b ihe ihb =>
      intro names
      cases hlam : rec && e.isLam with
      | false => exact .letIn hlam (ihe names) (ihb (x :: names))
      | true =>
          obtain ⟨rfl, he⟩ := Bool.and_eq_true_iff.mp hlam
          exact .letRec he (ihe (x :: names)) (ihb (x :: names))

theorem Expr.Alpha.kind_eq {binders : List (String × String)} {e e' : Expr}
    (h : Expr.Alpha binders e e') : e.kind = e'.kind := by
  cases h <;> rfl

/-! ### Values up to names -/

/-- The names that are bound where the body runs, the innermost first. -/
def Closure.inner (c : Closure κ) : List String := c.param :: (c.selfName.toList ++ c.env.names)

mutual

/-- Equal values, if they are no functions; the same intrinsic; or closures whose bodies are
alpha-equivalent where they run, and which have captured chains that correspond.  In the bodies
every `let rec` binds a lambda. -/
inductive Value.Renamed : Value κ → Value κ → Prop where
  | base {v : Value κ} (h : v.isCallable = false) : Value.Renamed v v
  | intrinsic {b b' : Builtin κ} {i : Intrinsic} (hname : b.name = b'.name)
      (hb : b.code = .intrinsic i) (hb' : b'.code = .intrinsic i) :
      Value.Renamed (.builtin b) (.builtin b')
  | closure {c d : Closure κ} (hself : c.selfName.isSome = d.selfName.isSome)
      (hbody : Expr.Alpha (c.inner.zip d.inner) c.body d.body) (hrec : c.body.recLams = true)
      (henv : Env.Renamed c.env d.env) : Value.Renamed (.closure c) (.closure d)

/-- Chains of the same length, with corresponding values in corresponding frames. -/
inductive Env.Renamed : Env κ → Env κ → Prop where
  | empty : Env.Renamed .empty .empty
  | frame {id id' : Nat} {x y : String} {v w : Value κ} {rest rest' : Env κ}
      (hv : Value.Renamed v w) (hrest : Env.Renamed rest rest') :
      Env.Renamed (.frame id x v rest) (.frame id' y w rest')

end

/-- The same event, but for the names of parameters and binders and with values that correspond. -/
inductive Event.Renamed : Event κ → Event κ → Prop where
  | like {event event' : Event κ} (h : event.Like Value.Renamed event') : Renamed event event'
  | closureCall (x y : String) (depth : Nat) {v w : Value κ} (h : v.Renamed w) :
      Renamed (.closureCall x v depth) (.closureCall y w depth)
  | tied (f g x y : String) : Renamed (.tied f x) (.tied g y)

/-- The two runs end alike. -/
abbrev Run.Renamed (x y : Run κ σ (Value κ)) : Prop :=
  Run.SimBy Value.Renamed Event.Renamed Value.Renamed x y

theorem Value.renamed_likeness : Run.Likeness (Value.Renamed (κ := κ)) Event.Renamed where
  base := .base
  eq h hv := by
    cases h with
    | base => rfl
    | intrinsic | closure => cases hv
  tag h := by cases h <;> rfl
  event := .like

mutual

/-- A value without functions of the host corresponds to itself. -/
theorem Value.renamed_self : ∀ {v : Value κ},
    v.Every (fun c => c.body.recLams = true) (fun _ => False) → v.Renamed v
  | .int _, _ | .bool _, _ | .str _, _ => .base rfl
  | .closure (.mk _ _ b _ _), h => .closure rfl (.self b _) h.1 (Env.renamed_self h.2)
  | .builtin (.mk _ _ (.intrinsic _) _), _ => .intrinsic rfl rfl rfl
  | .builtin (.mk _ _ (.host _) _), h => h.1.elim

theorem Env.renamed_self : ∀ {env : Env κ},
    env.Every (fun c => c.body.recLams = true) (fun _ => False) → env.Renamed env
  | .empty, _ => .empty
  | .frame _ _ _ _, h => .frame (Value.renamed_self h.1) (Env.renamed_self h.2)

end

/-- **Lookup.**  Names that stand for each other are bound to values that correspond, or they are
both unbound, and then no pair of binders is theirs. -/
theorem Env.Renamed.lookup {x y : String} : ∀ {env env' : Env κ}, env.Renamed env' →
    Paired (env.names.zip env'.names) x y →
    Option.Rel Value.Renamed (env.lookup? x) (env'.lookup? y) ∧ (env.lookup? x = none → x = y)
  | .empty, .empty, .empty, hxy => ⟨.none, fun _ => hxy⟩
  | .frame _ p _ _, .frame _ q _ _, .frame hv hrest, hxy => by
      simp only [Env.lookup?]
      rcases hxy with ⟨hp, hq⟩ | ⟨hp, hq, hxy⟩
      · rw [if_pos hp, if_pos hq]
        exact ⟨.some hv, fun h => by cases h⟩
      · rw [if_neg hp, if_neg hq]
        exact Env.Renamed.lookup hrest hxy

namespace Value.Renamed

variable {c d : Closure κ}

/-- With their self names in front, the captured chains still correspond. -/
theorem selfEnv (h : Value.Renamed (.closure c) (.closure d)) (store store' : Store σ) :
    (c.selfEnv store).1.Renamed (d.selfEnv store').1 := by
  cases h with
  | base h => cases h
  | closure hself hbody hrec henv =>
      have hclosure := Value.Renamed.closure hself hbody hrec henv
      unfold Closure.selfEnv
      cases hc : c.selfName with
      | none =>
          cases hd : d.selfName with
          | none => exact henv
          | some g => simp [hc, hd] at hself
      | some f =>
          cases hd : d.selfName with
          | none => simp [hc, hd] at hself
          | some g => exact .frame hclosure henv

/-- The environments of two calls correspond, and the bodies are alpha-equivalent there. -/
theorem callEnv (h : Value.Renamed (.closure c) (.closure d)) {v w : Value κ} (hv : v.Renamed w)
    (store store' : Store σ) : (c.callEnv v store).1.Renamed (d.callEnv w store').1 :=
  .frame hv (h.selfEnv store store')

end Value.Renamed

/-! ### Evaluation cannot tell names apart -/

theorem evalWith_renamed {call call' : Value κ → Value κ → Run κ σ (Value κ)}
    (hcall : ∀ u u' v v', u.Renamed u' → v.Renamed v' → Run.Renamed (call u v) (call' u' v'))
    {binders : List (String × String)} {e e' : Expr} (h : Expr.Alpha binders e e') :
    e.recLams = true → ∀ env env', env.Renamed env' → binders = env.names.zip env'.names →
      Run.Renamed (e.evalWith call env) (e'.evalWith call' env') := by
  have hlike := Value.renamed_likeness (κ := κ)
  induction h with
  | int | bool | str =>
      exact fun _ env env' _ _ => (Run.SimBy.poll hlike _).bind fun _ _ _ => .pure (.base rfl)
  | var hxy =>
      rintro _ env env' henv rfl
      obtain ⟨hfound, hname⟩ := henv.lookup hxy
      exact .var hlike hfound hname
  | lam hb ih =>
      rintro hrec env env' henv rfl
      exact .lam hlike fun _ _ => .closure rfl hb hrec henv
  | app hf ha ihf iha =>
      rintro hrec env env' henv rfl
      obtain ⟨hrecf, hreca⟩ := Bool.and_eq_true_iff.mp hrec
      exact .app hlike hcall (ihf hrecf env env' henv rfl) (iha hreca env env' henv rfl)
  | cond he hyes hno ihe ihy ihn =>
      rintro hrec env env' henv rfl
      obtain ⟨hrec, hrecn⟩ := Bool.and_eq_true_iff.mp hrec
      obtain ⟨hrece, hrecy⟩ := Bool.and_eq_true_iff.mp hrec
      exact .cond hlike (ihe hrece env env' henv rfl) (ihy hrecy env env' henv rfl)
        (ihn hrecn env env' henv rfl)
  | binary hl hr ihl ihr =>
      rintro hrec env env' henv rfl
      obtain ⟨hrecl, hrecr⟩ := Bool.and_eq_true_iff.mp hrec
      exact .binary hlike _ (ihl hrecl env env' henv rfl) (ihr hrecr env env' henv rfl)
  | @letIn _ rec x y e e' b b' hlam he hb ihe ihb =>
      rintro hrec env env' henv rfl
      obtain ⟨hrec, hrecb⟩ := Bool.and_eq_true_iff.mp hrec
      obtain ⟨hplain, hrece⟩ := Bool.and_eq_true_iff.mp hrec
      -- a `let` with the flag set would bind a lambda, and that is the next case
      obtain rfl : rec = false := by
        cases rec with
        | false => rfl
        | true => exact absurd hlam (by simpa using hplain)
      refine (Run.SimBy.poll hlike _).bind fun _ _ _ => ?_
      refine (ihe hrece env env' henv rfl).bind fun v w hv s t hst => ?_
      rw [Run.bind_ok (Value.bound_plain (.inl rfl) x s),
        Run.bind_ok (Value.bound_plain (.inl rfl) y t)]
      exact Run.SimBy.bind (.alloc (A := fun env₁ env₁' => env₁.Renamed env₁' ∧
        (x, y) :: env.names.zip env'.names = env₁.names.zip env₁'.names) Env.quiet_extend
        Env.quiet_extend fun _ _ => ⟨.frame hv henv, rfl⟩)
        (fun env₁ env₁' h => ihb hrecb env₁ env₁' h.1 h.2) s t hst
  | @letRec _ f g e e' b b' hlam he hb ihe ihb =>
      rintro hrec env env' henv rfl
      obtain ⟨hrec, hrecb⟩ := Bool.and_eq_true_iff.mp hrec
      obtain ⟨-, hrece⟩ := Bool.and_eq_true_iff.mp hrec
      cases he with
      | @lam _ x y ty fb fb' hfb =>
          rw [Expr.evalWith_letRec, Expr.evalWith_letRec]
          refine (Run.SimBy.poll hlike _).bind fun _ _ _ => ?_
          refine (Run.SimBy.poll hlike _).bind fun _ _ _ => ?_
          refine (Run.SimBy.record (.tied f g x y)).bind fun _ _ _ => ?_
          -- the lambda was written under the binder of the `let`, and that is where its body runs:
          -- behind the parameter comes the self name
          refine .bind (.alloc (A := fun env₁ env₁' => env₁.Renamed env₁' ∧
            (f, g) :: env.names.zip env'.names = env₁.names.zip env₁'.names) (fun _ => rfl)
            (fun _ => rfl) fun _ _ => ⟨.frame ?_ henv, rfl⟩)
            fun env₁ env₁' h => ihb hrecb env₁ env₁' h.1 h.2
          exact .closure rfl hfb hrece henv
      | _ => cases hlam

theorem callWith_renamed (host : Host κ σ) {evalBody evalBody' : Expr → Env κ → Run κ σ (Value κ)}
    (hbody : ∀ {binders e e'}, Expr.Alpha binders e e' → e.recLams = true → ∀ env env',
      env.Renamed env' → binders = env.names.zip env'.names →
        Run.Renamed (evalBody e env) (evalBody' e' env'))
    {u u' v v' : Value κ} (hu : u.Renamed u') (hv : v.Renamed v') :
    Run.Renamed (u.callWith host evalBody v) (u'.callWith host evalBody' v') := by
  have hlike := Value.renamed_likeness (κ := κ)
  cases hu with
  | base hu =>
      cases u with
      | int n | bool n | str n => exact .fail (.notAFunction (.base hu))
      | closure c | builtin b => cases hu
  | intrinsic hname hb hb' => exact .intrinsic hlike host host hname hb hb' hv
  | @closure c d hself hcode hrec henv =>
      have hcall := (Value.Renamed.closure hself hcode hrec henv).callEnv (σ := σ) hv
      refine .entered hlike (fun depth => .closureCall c.param d.param depth hv)
        (c.quiet_callEnv v) (d.quiet_callEnv v')
        (E := fun env env' => env.Renamed env' ∧ c.inner.zip d.inner = env.names.zip env'.names)
        (fun store store' => ⟨hcall store store', ?_⟩)
        fun env env' h => hbody hcode hrec env env' h.1 h.2
      rw [c.names_callEnv, d.names_callEnv]
      rfl

theorem callAt_renamed (host : Host κ σ) (room : Nat) :
    ∀ u u' v v', u.Renamed u' → v.Renamed v' →
      Run.Renamed (callAt host room u v) (callAt host room u' v') := by
  induction room with
  | zero =>
      exact fun u u' v v' => callWith_renamed host fun _ _ _ _ _ _ =>
        .overflow Value.renamed_likeness
  | succ room ih => exact fun u u' v v' => callWith_renamed host (evalWith_renamed ih)

/-- Alpha-equivalent expressions, in environments that correspond. -/
theorem eval_renamed_in (host : Host κ σ) {env env' : Env κ} (henv : env.Renamed env')
    {e e' : Expr} (h : Expr.Alpha (env.names.zip env'.names) e e') (he : e.recLams = true) :
    Run.Renamed (e.eval host env) (e'.eval host env') := by
  intro s t hst
  rw [Expr.eval, Expr.eval, hst.room]
  exact evalWith_renamed (callAt_renamed host t.context.room) h he env env' henv rfl s t hst

/-! ### One environment -/

theorem Paired.append {binders : List (String × String)} {x y : String} (h : Paired binders x y)
    (names : List String) : Paired (binders ++ names.zip names) x y := by
  induction binders with
  | nil =>
      obtain rfl : x = y := h
      exact .self x names
  | cons binder binders ih => exact h.imp_right fun ⟨hx, hy, h⟩ => ⟨hx, hy, ih h⟩

/-- Equal binders further out do no harm. -/
theorem Expr.Alpha.append {binders : List (String × String)} {e e' : Expr}
    (h : Expr.Alpha binders e e') (names : List String) :
    Expr.Alpha (binders ++ names.zip names) e e' := by
  induction h with
  | int n => exact .int n
  | bool b => exact .bool b
  | str s => exact .str s
  | var h => exact .var (h.append names)
  | lam _ ih => exact .lam ih
  | app _ _ ihf iha => exact .app ihf iha
  | cond _ _ _ ihe ihy ihn => exact .cond ihe ihy ihn
  | binary _ _ ihl ihr => exact .binary ihl ihr
  | letIn hlam _ _ ihe ihb => exact .letIn hlam ihe ihb
  | letRec hlam _ _ ihe ihb => exact .letRec hlam ihe ihb

/-- The two runs end alike and at the same depth, and have recorded the same events, all up to the
names that are bound. -/
structure Run.AgreeUpToNames (out out' : Except (EvalError κ) (Value κ) × Run.State κ σ) :
    Prop where
  outcome : Outcome.Like Value.Renamed Value.Renamed out.1 out'.1
  depth : out.2.context.depth = out'.2.context.depth
  events : List.Forall₂ Event.Renamed out.2.events out'.2.events

/-- Runs that agree still do when they are recorded as a whole. -/
theorem Run.AgreeUpToNames.concluded
    {out out' : Except (EvalError κ) (Value κ) × Run.State κ σ} (h : Run.AgreeUpToNames out out') :
    Run.AgreeUpToNames (Run.concluded out) (Run.concluded out') := by
  refine ⟨h.outcome, h.depth, ?_⟩
  rw [Run.events_concluded, Run.events_concluded]
  exact List.rel_append h.events (h.outcome.closing.imp fun _ _ => .like)

/-- Alpha-equivalent expressions in one environment, with nothing recorded yet that differs. -/
theorem eval_agreeUpToNames (host : Host κ σ) {env : Env κ}
    (henv : env.Every (fun c => c.body.recLams = true) fun _ => False) {e e' : Expr}
    (h : Expr.Alpha [] e e') (he : e.recLams = true) (context : Context) (store : Store σ)
    {log log' : List (Event κ)} (hlog : List.Forall₂ Event.Renamed log log') :
    Run.AgreeUpToNames (e.eval host env ⟨context, store, log⟩)
      (e'.eval host env ⟨context, store, log'⟩) := by
  obtain ⟨hout, hst⟩ := eval_renamed_in host (Env.renamed_self henv) (h.append env.names) he
    ⟨context, store, log⟩ ⟨context, store, log'⟩ ⟨rfl, rfl, rfl, hlog⟩
  exact ⟨hout, hst.depth, List.forall₂_reverse_iff.mpr hst.log⟩

/-- The closure finds `x` where its body runs, if the body mentions it: `Closure.Scoped`, of one
name. -/
def Closure.Resolves (x : String) (c : Closure κ) : Prop :=
  x ∈ c.body.free → x ∈ c.env.names ∨ x = c.param ∨ c.selfName = some x

/-- A name that is found to be unbound is free in the expression, unless a closure that the
environment holds leaves it unresolved. -/
theorem mem_free_of_unbound (host : Host κ σ) {env : Env κ} {e : Expr} {x : String}
    {s : Run.State κ σ} (hx : (e.eval host env s).1 = .error (.unboundVariable x))
    (hheld : env.Every (Closure.Resolves x) fun _ => False) : x ∈ e.free := by
  by_contra hfree
  -- every name but `x` is let through, and `x` itself is resolved in all the closures
  have hscoped : env.ScopedBut (· ≠ x) := by
    refine hheld.mono (fun c hc y hy => ?_) fun _ h => h
    by_cases hyx : y = x
    · subst hyx
      rcases hc hy with h | h | h
      · exact .inl h
      · exact .inr (.inl h)
      · exact .inr (.inr (.inl h))
    · exact .inr (.inr (.inr hyx))
  exact mem_of_unbound host hscoped (fun y hy => .inr fun hyx => hfree (hyx ▸ hy)) hx rfl

/-! ### A `let rec` that captures -/

/-- `f n`, the body of `\n => f n`. -/
def eta : Expr := .app (.var "f") (.var "n")

/-- `let g = \n => f n in let rec x = g in x 1`: the closure is tied to a name it may mention. -/
def retying (x : String) : Expr :=
  .letIn false "g" (.lam "n" none eta) (.letIn true x (.var "g") (.app (.var x) (.int 1)))

theorem retying_alpha (x y : String) : Expr.Alpha [] (retying x) (retying y) := by
  refine .letIn rfl (.self _ []) (.letIn rfl (.var (.inl ⟨rfl, rfl⟩)) ?_)
  exact .app (.var (.inl ⟨rfl, rfl⟩)) (.int 1)

section

variable {env : Env κ} {s : Run.State κ σ}

/-- To make the environment of a call leaves the flag alone. -/
theorem Run.State.isInterrupted_inside (s : Run.State κ σ) (c : Closure κ) (arg : Value κ) :
    (s.inside c arg).context.isInterrupted (s.inside c arg).store =
      s.context.isInterrupted s.store :=
  congrFun (c.quiet_callEnv arg s.store) s.context.flag

/-- Where the closure finds the function `u` under the name `f`, a call of it is a call of `u`, one
level deeper. -/
theorem callAt_eta (host : Host κ σ) {c : Closure κ} (hparam : c.param = "n") (hbody : c.body = eta)
    (arg : Value κ) {u : Value κ} (hf : (c.callEnv arg s.store).1.lookup? "f" = some u)
    (hu : u.isCallable = true) (hs : s.context.isInterrupted s.store = false)
    (hroom : s.context.depth < s.context.limit) (room : Nat) :
    (callAt host (room + 1) (.closure c) arg s).1 =
      (callAt host room u arg (s.inside c arg)).1 := by
  have hs' := (s.isInterrupted_inside c arg).trans hs
  have hn : (c.callEnv arg s.store).1.lookup? "n" = some arg := if_pos hparam
  rw [callAt_closure host room c arg hroom, hbody, eta]
  rw [Expr.evalWith_app hs' (Expr.evalWith_var hs' hf) hu (Expr.evalWith_var hs' hn)]

/-- Tied to `f`, the closure calls itself until the context is full. -/
theorem callAt_eta_self (host : Host κ σ) {c : Closure κ} (hparam : c.param = "n")
    (hbody : c.body = eta) (hself : c.selfName = some "f") (arg : Value κ) (room : Nat)
    (hs : s.context.isInterrupted s.store = false)
    (hroom : s.context.depth + room = s.context.limit) :
    (callAt host room (.closure c) arg s).1 =
      .error (.stackOverflow s.context.limit s.context.limit) := by
  induction room generalizing s with
  | zero =>
      have hfull : s.context.depth = s.context.limit := hroom
      rw [callAt_closure_full host 0 c arg (by omega)]
      simp only [Run.overflow, hfull]
  | succ room ih =>
      have hf : (c.callEnv arg s.store).1.lookup? "f" = some (.closure c) := by
        rw [Closure.callEnv_of_some hself, hparam]
        rfl
      rw [callAt_eta host hparam hbody arg hf rfl hs (by omega)]
      have hdeeper : s.context.depth + 1 + room = s.context.limit := by omega
      exact ih ((s.isInterrupted_inside c arg).trans hs) hdeeper

/-- A closure without a self name is tied to `x` and called. -/
theorem evalWith_tie_call {call : Value κ → Value κ → Run κ σ (Value κ)} {c : Closure κ}
    (hself : c.selfName = none) {g : String} (hg : env.lookup? g = some (.closure c)) (x : String)
    (hs : s.context.isInterrupted s.store = false) :
    (Expr.letIn true x (.var g) (.app (.var x) (.int 1))).evalWith call env s =
      call (.closure ⟨s.store.next, c.param, c.body, some x, c.env⟩) (.int 1)
        ⟨s.context, (s.store.taken 1).taken 1, .tied x c.param :: s.log⟩ := by
  rw [Expr.evalWith_letIn hs (Expr.evalWith_var hs hg) (Value.bound_closure c x s),
    Closure.tie_of_none hself]
  exact Expr.evalWith_app hs (Expr.evalWith_var hs (if_pos rfl)) rfl (Run.poll_bind _ _ hs)

/-- What `retying` comes to: a call of the closure, tied to `x`. -/
theorem eval_retying (host : Host κ σ) (env : Env κ) (x : String)
    (hs : s.context.isInterrupted s.store = false) :
    ∃ c : Closure κ, c.param = "n" ∧ c.body = eta ∧ c.selfName = some x ∧ c.env = env ∧
      ∃ t : Run.State κ σ, t.context = s.context ∧ t.store.raised = s.store.raised ∧
        ((retying x).eval host env s).1 =
          (callAt host s.context.room (.closure c) (.int 1) t).1 := by
  refine ⟨⟨s.store.next + 2, "n", eta, some x, env⟩, rfl, rfl, rfl, rfl,
    ⟨s.context, (((s.store.taken 1).taken 1).taken 1).taken 1, .tied x "n" :: s.log⟩, rfl, rfl, ?_⟩
  rw [Expr.eval, retying, Expr.evalWith_letIn hs (Expr.evalWith_lam "n" none eta hs)
    (Value.bound_plain (.inl rfl) "g" _)]
  exact congrArg Prod.fst (evalWith_tie_call (c := ⟨s.store.next, "n", eta, none, env⟩) (g := "g")
    rfl rfl x hs)

end

/-- What `retying` comes to in an environment that binds `f` to an intrinsic.  Tied to `f`, the
closure runs into the limit; tied to any other name, it calls the intrinsic. -/
theorem retying_captures (host : Host κ σ) {env : Env κ} {b : Builtin κ} {i : Intrinsic}
    (hf : env.lookup? "f" = some (.builtin b)) (hb : b.code = .intrinsic i) {s : Run.State κ σ}
    (hs : s.context.isInterrupted s.store = false) (hroom : s.context.depth < s.context.limit) :
    ((retying "f").eval host env s).1 =
        .error (.stackOverflow s.context.limit s.context.limit) ∧
      ∀ y, y ≠ "f" → ((retying y).eval host env s).1 = i.apply (.int 1) := by
  constructor
  · obtain ⟨c, hparam, hbody, hself, -, t, hcontext, hraised, hout⟩ :=
      eval_retying host env "f" hs
    have ht : t.context.isInterrupted t.store = false := by
      rw [Context.isInterrupted, hcontext, hraised]
      exact hs
    have hfits : t.context.depth + s.context.room = t.context.limit := by
      rw [hcontext, Context.room]
      omega
    rw [hout, callAt_eta_self host hparam hbody hself _ _ ht hfits, hcontext]
  · intro y hy
    obtain ⟨c, hparam, hbody, hself, henv, t, hcontext, hraised, hout⟩ :=
      eval_retying host env y hs
    have ht : t.context.isInterrupted t.store = false := by
      rw [Context.isInterrupted, hcontext, hraised]
      exact hs
    have hfound : (c.callEnv (.int 1) t.store).1.lookup? "f" = some (.builtin b) := by
      rw [Closure.callEnv_of_some hself, hparam, henv, Env.lookup?, if_neg (by decide),
        Env.lookup?, if_neg hy, hf]
    obtain ⟨room, hsucc⟩ : ∃ room, s.context.room = room + 1 :=
      Nat.exists_eq_succ_of_ne_zero (Nat.sub_ne_zero_of_lt hroom)
    rw [hout, hsucc, callAt_eta host hparam hbody _ hfound rfl ht (by rwa [hcontext]),
      callAt_intrinsic host room hb]

/-- **Renaming bound names is invisible.**  Take two alpha-equivalent expressions, in which every
`let rec` binds a lambda, and an environment whose builtins are intrinsics and in whose closures
every `let rec` binds a lambda too.

* Evaluating the one and the other in that environment gives the same outcome at the same depth and
  the same events, up to the names that are bound.  This holds of an evaluation on its own and of
  one that is recorded as a whole.
* If a name is unbound in the one, the same name is unbound in the other, and it is free in both,
  unless a closure that the environment holds leaves it unresolved: its body mentions the name, and
  it is neither captured nor the parameter nor the self name.
* That every `let rec` binds a lambda is needed.  The expressions `retying "f"` and `retying y` are
  alpha-equivalent, but where `f` is an intrinsic the first runs into the limit and the second is a
  call of the intrinsic. -/
theorem eval_renamed (host : Host κ σ) (env : Env κ) (context : Context) (store : Store σ) :
    (∀ e e' : Expr, Expr.Alpha [] e e' → e.recLams = true → e'.recLams = true →
      env.Every (fun c => c.body.recLams = true) (fun _ => False) →
        Run.AgreeUpToNames (e.eval host env (.start context store))
          (e'.eval host env (.start context store)) ∧
        Run.AgreeUpToNames (e.evalLogged host env (.start context store))
          (e'.evalLogged host env (.start context store)) ∧
        ∀ x, (e.eval host env (.start context store)).1 = .error (.unboundVariable x) →
          (e'.eval host env (.start context store)).1 = .error (.unboundVariable x) ∧
          (env.Every (Closure.Resolves x) (fun _ => False) → x ∈ e.free ∧ x ∈ e'.free)) ∧
    ∀ (b : Builtin κ) (i : Intrinsic) (y : String),
      env.lookup? "f" = some (.builtin b) → b.code = .intrinsic i → y ≠ "f" →
      context.isInterrupted store = false → context.depth < context.limit →
        Expr.Alpha [] (retying "f") (retying y) ∧
        ((retying "f").eval host env (.start context store)).1 =
          .error (.stackOverflow context.limit context.limit) ∧
        ((retying y).eval host env (.start context store)).1 = i.apply (.int 1) := by
  refine ⟨fun e e' halpha he _ henv => ?_, fun b i y hf hb hy hs hroom => ?_⟩
  · have hagree := eval_agreeUpToNames host henv halpha he context store .nil
    refine ⟨hagree, ?_, fun x hx => ?_⟩
    · rw [Expr.evalLogged_eq, Expr.evalLogged_eq, halpha.kind_eq]
      have hbegun := eval_agreeUpToNames host henv halpha he context store
        (.cons (.like (.begun e'.kind)) .nil)
      exact hbegun.concluded
    · have hx' : (e'.eval host env (.start context store)).1 = .error (.unboundVariable x) := by
        have hlike := hagree.outcome
        rw [show (e.eval host env ⟨context, store, []⟩).1 = _ from hx] at hlike
        generalize hout : (e'.eval host env ⟨context, store, []⟩).1 = out at hlike
        cases hlike with
        | error h =>
            cases h
            exact hout
      exact ⟨hx', fun hheld => ⟨mem_free_of_unbound host hx hheld,
        mem_free_of_unbound host hx' hheld⟩⟩
  · obtain ⟨hself, hother⟩ := retying_captures host (s := .start context store) hf hb hs hroom
    exact ⟨retying_alpha "f" y, hself, hother y hy⟩

/-- `let rec f = \x => if x then z else (\y => f y) true in f false`, with the binders `f`, `x` and
`y` to be chosen. -/
def looping (f x y : String) : Expr :=
  .letIn true f
    (.lam x none (.cond (.var x) (.var "z")
      (.app (.lam y none (.app (.var f) (.var y))) (.bool true))))
    (.app (.var f) (.bool false))

/-- The name that was found to be unbound, if that is how a run has ended. -/
def Outcome.unbound? : Except (EvalError κ) (Value κ) → Option String
  | .error (.unboundVariable x) => some x
  | _ => none

theorem Outcome.unbound?_eq_some_iff {out : Except (EvalError κ) (Value κ)} {x : String} :
    Outcome.unbound? out = some x ↔ out = .error (.unboundVariable x) := by
  constructor
  · intro h
    unfold Outcome.unbound? at h
    split at h
    · cases h; rfl
    · cases h
  · rintro rfl
    rfl

/-- An environment with an intrinsic that goes by the name `f`. -/
def withIntrinsic : Env Stock :=
  .frame 1 "f" (.builtin ⟨0, "codeChar", .intrinsic .codeChar, .empty⟩) .empty

/-- The binders are permuted, and the inner lambda of the one has the parameter of the outer lambda
of the other.  Both find `z` unbound, which is also what a closure at hand calls its parameter.  The
expressions with the `let rec` that captures differ. -/
theorem eval_renamed_looping :
    let env : Env Stock := .frame 2 "k" (.closure ⟨3, "z", .var "z", none, .empty⟩) withIntrinsic
    let s : Run.State Stock Stock.Counts := .start ⟨5, 0, 0⟩ ⟨4, fun _ => false, fun _ => 0⟩
    let e := looping "f" "x" "y"
    let e' := looping "y" "f" "x"
    (Run.AgreeUpToNames (e.evalLogged Stock.host env s) (e'.evalLogged Stock.host env s) ∧
      (e'.eval Stock.host env s).1 = .error (.unboundVariable "z") ∧ "z" ∈ e.free ∧ "z" ∈ e'.free) ∧
    ((retying "f").eval Stock.host env s).1 = .error (.stackOverflow 5 5) ∧
    ((retying "h").eval Stock.host env s).1 = Intrinsic.codeChar.apply (.int 1) := by
  intro env s e e'
  obtain ⟨hsame, hdiffer⟩ :=
    eval_renamed Stock.host env ⟨5, 0, 0⟩ ⟨4, fun _ => false, fun _ => 0⟩
  have halpha : Expr.Alpha [] e e' := by
    refine .letRec rfl (.lam (.cond (.var ?_) (.var ?_) (.app (.lam (.app (.var ?_) (.var ?_)))
      (.bool true)))) (.app (.var ?_) (.bool false))
    all_goals simp [Paired]
  obtain ⟨-, hlogged, hunbound⟩ := hsame e e' halpha rfl rfl ⟨⟨rfl, trivial⟩, trivial, trivial⟩
  have hfound : (e.eval Stock.host env s).1 = .error (.unboundVariable "z") :=
    Outcome.unbound?_eq_some_iff.mp (by decide +kernel)
  obtain ⟨hz, hfree⟩ := hunbound "z" hfound
  exact ⟨⟨hlogged, hz, hfree ⟨⟨fun _ => .inr (.inl rfl), trivial⟩, trivial, trivial⟩⟩,
    (hdiffer _ .codeChar "h" rfl rfl (by decide) rfl (by decide)).2⟩

theorem Outcome.Like.isOk_eq {α α' : Type} {V : Value κ → Value κ → Prop} {A : α → α' → Prop}
    {r : Except (EvalError κ) α} {r' : Except (EvalError κ) α'} (h : Outcome.Like V A r r') :
    r.isOk = r'.isOk := by
  cases h <;> rfl

/-- `let f = \x => x in k (\n => f n)`, with the binder `f` to be chosen. -/
def handing (f : String) : Expr :=
  .letIn false f (.lam "x" none (.var "x"))
    (.app (.var "k") (.lam "n" none (.app (.var f) (.var "n"))))

/-- **The closures of the environment have to be looked into.**  There is no `let rec` at all in
`handing`.  But a closure of the host is handed a function there, ties it to the name `f` by a
`let rec` of its own, and so captures the name if `handing` happened to choose it. -/
theorem eval_tying_host :
    let tying : Closure Stock :=
      ⟨0, "h", .letIn true "f" (.var "h") (.app (.var "f") (.int 1)), none, .empty⟩
    let env : Env Stock := .frame 1 "k" (.closure tying) .empty
    let s : Run.State Stock Stock.Counts := .start ⟨5, 0, 0⟩ ⟨2, fun _ => false, fun _ => 0⟩
    Expr.Alpha [] (handing "f") (handing "g") ∧
      (handing "f").recLams = true ∧ (handing "g").recLams = true ∧
      env.Within (fun _ => False) ∧
      ((handing "f").eval Stock.host env s).1.isOk = false ∧
      ((handing "g").eval Stock.host env s).1.isOk = true ∧
      ¬ Run.AgreeUpToNames ((handing "f").eval Stock.host env s)
        ((handing "g").eval Stock.host env s) := by
  intro tying env s
  have halpha : Expr.Alpha [] (handing "f") (handing "g") := by
    refine .letIn rfl (.self _ []) (.app (.var ?_) (.lam (.app (.var ?_) (.var ?_))))
    all_goals simp [Paired]
  have hfails : ((handing "f").eval Stock.host env s).1.isOk = false := by decide +kernel
  have hends : ((handing "g").eval Stock.host env s).1.isOk = true := by decide +kernel
  refine ⟨halpha, rfl, rfl, ⟨⟨trivial, trivial⟩, trivial⟩, hfails, hends, fun hagree => ?_⟩
  exact absurd (hfails.symm.trans (hagree.outcome.isOk_eq.trans hends)) (by decide)

end EagerLambda
