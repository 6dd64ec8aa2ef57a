import EagerLambda.Proofs.Contents
import EagerLambda.Proofs.Interruption

/-!
# Erasure — annotations have no effect

A parameter can be annotated with a type, and evaluation pays no attention to it.  Dropping the
annotations of an expression and of the code in its environment (`Expr.erase`, `Env.erase`) leaves
outcome, depth and trace as they are, but that the closures in them have lost their annotations too
(`eval_erased`).

Annotated code does not stay where it was written.  It goes into closures, through environments and
into the values that errors mention, so the two runs hold different trees wherever there is a
function.  `Value.Erased` relates a value to one that differs in this way and in identities only;
captured chains are compared frame by frame.
-/

namespace EagerLambda

variable {κ σ : Type}

/-! ### Expressions and values without annotations -/

/-- The expression without annotations. -/
def Expr.erase : Expr → Expr
  | .var x => .var x
  | .lam x _ b => .lam x none b.erase
  | .app f a => .app f.erase a.erase
  | .cond e yes no => .cond e.erase yes.erase no.erase
  | .binary l op r => .binary l.erase op r.erase
  | .letIn rec x e b => .letIn rec x e.erase b.erase
  | .int n => .int n
  | .bool b => .bool b
  | .str s => .str s

theorem Expr.kind_erase (e : Expr) : e.erase.kind = e.kind := by
  cases e <;> rfl

mutual

/-- The value with the annotations dropped in all closures that it holds. -/
def Value.erase : Value κ → Value κ
  | .int n => .int n
  | .bool b => .bool b
  | .str s => .str s
  | .closure c => .closure c.erase
  | .builtin b => .builtin b.erase

/-- The closure with the annotations dropped in its body and in what it has captured. -/
def Closure.erase : Closure κ → Closure κ
  | .mk id param body selfName env => ⟨id, param, body.erase, selfName, env.erase⟩

/-- The builtin with the annotations dropped in what it has captured. -/
def Builtin.erase : Builtin κ → Builtin κ
  | .mk id name code captured => ⟨id, name, code, captured.erase⟩

/-- The chain with the annotations dropped in all values that it binds. -/
def Env.erase : Env κ → Env κ
  | .empty => .empty
  | .frame id name value rest => .frame id name value.erase rest.erase

end

/-! ### Values up to annotations -/

mutual

/-- The second value is the first without annotations: the same value, if it is no function; the
same intrinsic; or a closure of the same code without annotations, over a chain without
annotations. -/
inductive Value.Erased : Value κ → Value κ → Prop where
  | base {v : Value κ} (h : v.isCallable = false) : Value.Erased v v
  | intrinsic {b b' : Builtin κ} {i : Intrinsic} (hname : b.name = b'.name)
      (hb : b.code = .intrinsic i) (hb' : b'.code = .intrinsic i) :
      Value.Erased (.builtin b) (.builtin b')
  | closure {c d : Closure κ} (hparam : c.param = d.param) (hself : c.selfName = d.selfName)
      (hbody : d.body = c.body.erase) (henv : Env.Erased c.env d.env) :
      Value.Erased (.closure c) (.closure d)

/-- Chains that bind the same names, frame by frame, to values up to annotations. -/
inductive Env.Erased : Env κ → Env κ → Prop where
  | empty : Env.Erased .empty .empty
  | frame {id id' : Nat} {x : String} {v w : Value κ} {rest rest' : Env κ}
      (hv : Value.Erased v w) (hrest : Env.Erased rest rest') :
      Env.Erased (.frame id x v rest) (.frame id' x w rest')

end

theorem Value.erased_faithful : Value.Faithful (Value.Erased (κ := κ)) where
  base := .base
  eq h hv := by
    cases h with
    | base => rfl
    | intrinsic | closure => cases hv
  tag h := by cases h <;> rfl
  render h := by
    cases h with
    | base => rfl
    | intrinsic hname => exact congrArg ("<builtin " ++ · ++ ">") hname
    | closure hparam => exact congrArg ("<closure \\" ++ · ++ ">") hparam

mutual

/-- Erasing annotations gives a value without them. -/
theorem Value.erased_erase : ∀ {v : Value κ}, v.Within (fun _ => False) → v.Erased v.erase
  | .int _, _ | .bool _, _ | .str _, _ => .base rfl
  | .closure (.mk _ _ _ _ _), h => .closure rfl rfl rfl (Env.erased_erase h.2)
  | .builtin (.mk _ _ (.intrinsic _) _), _ => .intrinsic rfl rfl rfl
  | .builtin (.mk _ _ (.host _) _), h => h.1.elim

theorem Env.erased_erase : ∀ {env : Env κ}, env.Within (fun _ => False) → env.Erased env.erase
  | .empty, _ => .empty
  | .frame _ _ _ _, h => .frame (Value.erased_erase h.1) (Env.erased_erase h.2)

end

/-- A name is bound in both chains, to values up to annotations, or in neither. -/
theorem Env.Erased.lookup {x : String} : ∀ {env env' : Env κ}, env.Erased env' →
    Option.Rel Value.Erased (env.lookup? x) (env'.lookup? x)
  | .empty, .empty, .empty => .none
  | .frame _ y _ _, .frame _ _ _ _, .frame hv hrest => by
      simp only [Env.lookup?]
      by_cases hxy : y = x
      · rw [if_pos hxy, if_pos hxy]
        exact .some hv
      · rw [if_neg hxy, if_neg hxy]
        exact Env.Erased.lookup hrest

namespace Value.Erased

variable {c d : Closure κ}

theorem closure_iff : Value.Erased (.closure c) (.closure d) ↔
    c.param = d.param ∧ c.selfName = d.selfName ∧ d.body = c.body.erase ∧
      Env.Erased c.env d.env := by
  constructor
  · intro h
    cases h with
    | base h => cases h
    | closure hparam hself hbody henv => exact ⟨hparam, hself, hbody, henv⟩
  · rintro ⟨hparam, hself, hbody, henv⟩
    exact .closure hparam hself hbody henv

/-- With their self names in front, the captured chains still correspond. -/
theorem selfEnv (h : Value.Erased (.closure c) (.closure d)) (store store' : Store σ) :
    (c.selfEnv store).1.Erased (d.selfEnv store').1 := by
  obtain ⟨-, hself, -, henv⟩ := closure_iff.mp h
  simp only [Closure.selfEnv, ← hself]
  cases c.selfName with
  | none => exact henv
  | some f => exact .frame h henv

/-- The chains in which the bodies run correspond. -/
theorem callEnv (h : Value.Erased (.closure c) (.closure d)) {v w : Value κ} (hv : v.Erased w)
    (store store' : Store σ) : (c.callEnv v store).1.Erased (d.callEnv w store').1 := by
  obtain ⟨hparam, -⟩ := closure_iff.mp h
  have hself := h.selfEnv store store'
  show Env.Erased (.frame _ c.param v _) (.frame _ d.param w _)
  rw [← hparam]
  exact .frame hv hself

/-- Closures that differ in annotations only still do when they are tied to the same name. -/
theorem tie (h : Value.Erased (.closure c) (.closure d)) (x : String) (store store' : Store σ) :
    Value.Erased (.closure (c.tie x store).1) (.closure (d.tie x store').1) := by
  obtain ⟨hparam, -, hbody, -⟩ := closure_iff.mp h
  exact .closure hparam rfl hbody (h.selfEnv store store')

end Value.Erased

/-! ### Evaluation does not look at annotations -/

/-- The two runs end alike, up to annotations. -/
abbrev Run.Erased (x y : Run κ σ (Value κ)) : Prop := Run.Sim Value.Erased Value.Erased x y

theorem evalWith_erased {call call' : Value κ → Value κ → Run κ σ (Value κ)}
    (hcall : ∀ u u' v v', u.Erased u' → v.Erased v' → Run.Erased (call u v) (call' u' v'))
    (e : Expr) :
    ∀ env env', env.Erased env' →
      Run.Erased (e.evalWith call env) (e.erase.evalWith call' env') := by
  have hlike := (Value.erased_faithful (κ := κ)).likeness
  induction e with
  | int n | bool b | str s =>
      exact fun env env' _ => (Run.SimBy.poll hlike _).bind fun _ _ _ => .pure (.base rfl)
  | var x => exact fun env env' henv => .var hlike henv.lookup fun _ => rfl
  | lam x ty b ih =>
      -- the one node where something is dropped, and the closure is made without it anyway
      exact fun env env' henv => .lam hlike fun _ _ => .closure rfl rfl rfl henv
  | app f a ihf iha =>
      exact fun env env' henv => .app hlike hcall (ihf env env' henv) (iha env env' henv)
  | cond e yes no ihe ihy ihn =>
      exact fun env env' henv =>
        .cond hlike (ihe env env' henv) (ihy env env' henv) (ihn env env' henv)
  | binary l op r ihl ihr =>
      exact fun env env' henv => .binary hlike op (ihl env env' henv) (ihr env env' henv)
  | letIn rec x e b ihe ihb =>
      intro env env' henv
      refine (Run.SimBy.poll hlike _).bind fun _ _ _ => (ihe env env' henv).bind fun v w hv => ?_
      refine (Run.SimBy.bound hlike rec (fun c d h => ⟨?_, h.tie x⟩) hv).bind fun v w hv => ?_
      · obtain ⟨hparam, -⟩ := Value.Erased.closure_iff.mp h
        exact hparam ▸ .tied x c.param
      · exact (Run.SimBy.alloc Env.quiet_extend Env.quiet_extend fun _ _ => .frame hv henv).bind
          fun env₁ env₁' henv₁ => ihb env₁ env₁' henv₁

theorem callWith_erased (host : Host κ σ) {evalBody evalBody' : Expr → Env κ → Run κ σ (Value κ)}
    (hbody : ∀ e env env', env.Erased env' → Run.Erased (evalBody e env) (evalBody' e.erase env'))
    {u u' v v' : Value κ} (hu : u.Erased u') (hv : v.Erased v') :
    Run.Erased (u.callWith host evalBody v) (u'.callWith host evalBody' v') := by
  have hlike := (Value.erased_faithful (κ := κ)).likeness
  refine .callWith hlike (fun c d h => ?_) (fun b b' h => ?_) hu
  · obtain ⟨hparam, -, hcode, -⟩ := Value.Erased.closure_iff.mp h
    simp only [Closure.runWith, ← hparam, hcode]
    exact .entered hlike (fun _ => .closureCall _ _ hv) (c.quiet_callEnv v) (d.quiet_callEnv v')
      (h.callEnv hv) (hbody c.body)
  · cases h with
    | base h => cases h
    | intrinsic hname hb hb' => exact .intrinsic hlike host host hname hb hb' hv

theorem callAt_erased (host : Host κ σ) (room : Nat) :
    ∀ u u' v v', u.Erased u' → v.Erased v' →
      Run.Erased (callAt host room u v) (callAt host room u' v') := by
  induction room with
  | zero => exact fun u u' v v' => callWith_erased host fun _ _ _ _ =>
      .overflow Value.erased_faithful.likeness
  | succ room ih => exact fun u u' v v' => callWith_erased host (evalWith_erased ih)

theorem eval_erased_in (host : Host κ σ) {env env' : Env κ} (henv : env.Erased env') (e : Expr) :
    Run.Erased (e.eval host env) (e.erase.eval host env') := by
  intro s t hst
  rw [Expr.eval, Expr.eval, hst.room]
  exact evalWith_erased (callAt_erased host t.context.room) e env env' henv s t hst

/-- **Annotations are erased.**  In an environment whose builtins are intrinsics, an expression is
evaluated like the expression without annotations in the environment without annotations.  The
outcomes are alike up to annotations, the depth at the end is the same, and the same events are
recorded and written as the same lines.  This holds of an evaluation on its own and of one that is
recorded as a whole. -/
theorem eval_erased (host : Host κ σ) (e : Expr) {env : Env κ} (henv : env.Within fun _ => False)
    (context : Context) (store : Store σ) :
    Run.Agree Value.Erased (e.eval host env (.start context store))
        (e.erase.eval host env.erase (.start context store)) ∧
      Run.Agree Value.Erased (e.evalLogged host env (.start context store))
        (e.erase.evalLogged host env.erase (.start context store)) := by
  have hV := Value.erased_faithful (κ := κ)
  have hrun := eval_erased_in host (Env.erased_erase henv) e
  refine ⟨hrun.agree hV rfl rfl rfl, ?_⟩
  rw [Expr.evalLogged_eq, Expr.evalLogged_eq, e.kind_erase]
  exact (hrun.agree_from hV ⟨rfl, rfl, rfl, .cons (.begun e.kind) .nil⟩).concluded hV

/-- `let rec f = \n: Int => if n == 0 then k (\z: Bool => z) else f (n - 1) in f 1`. -/
def annotated : Expr :=
  .letIn true "f"
    (.lam "n" (some .int) (.cond (.binary (.var "n") .equality (.int 0))
      (.app (.var "k") (.lam "z" (some .bool) (.var "z")))
      (.app (.var "f") (.binary (.var "n") .subtract (.int 1)))))
    (.app (.var "f") (.int 1))

/-- The body of the closure in which a run has ended, if it has ended in one. -/
def Outcome.body? : Except (EvalError κ) (Value κ) → Option Expr
  | .ok (.closure c) => some c.body
  | _ => none

/-- A closure of the environment, handed an annotated function by an annotated one, returns a
closure whose body is annotated again. -/
theorem eval_erased_annotated :
    let env : Env Stock := .frame 1 "k" (.closure ⟨0, "x",
      .lam "y" (some .int) (.lam "w" (some (.arrow .int .string)) (.var "x")), none, .empty⟩) .empty
    let s : Run.State Stock Stock.Counts := .start ⟨5, 0, 0⟩ ⟨2, fun _ => false, fun _ => 0⟩
    Outcome.body? (annotated.eval Stock.host env s).1 =
        some (.lam "w" (some (.arrow .int .string)) (.var "x")) ∧
      Outcome.body? (annotated.erase.eval Stock.host env.erase s).1 =
        some (.lam "w" none (.var "x")) ∧
      Run.Agree Value.Erased (annotated.eval Stock.host env s)
        (annotated.erase.eval Stock.host env.erase s) := by
  intro env s
  have hheld : env.Within fun _ => False := ⟨⟨trivial, trivial⟩, trivial⟩
  exact ⟨by decide +kernel, by decide +kernel, (eval_erased Stock.host annotated hheld _ _).1⟩

end EagerLambda
