import EagerLambda.Proofs.Contents
import EagerLambda.Proofs.Runs

/-!
# Invariants — what evaluation keeps

Much of what is said of evaluations is of one kind: something holds of all values there are, and
something of what has come about between the beginning and the end, if the run ended in this error
or in none.  An `Invariant` says what.  `Run.Keeps` is the triple that goes with it, and
`Invariant.Lawful` collects what is asked of an invariant: what one step can do, in the order in
which evaluation takes its steps.  Every evaluation then keeps it (`Invariant.Lawful.eval`).

Whatever else it does, an evaluation ends in the context in which it began.  This is part of the
triple, because it is what makes the room for calls the same in all parts of a run.

One closure satisfies nothing for a moment.  The lambda of a `let rec` mentions the name that is
about to be bound, so its closure is as it should be only once it is tied; evaluating it and tying
it are taken as one step.
-/

namespace EagerLambda

variable {κ σ α β : Type}

/-! ### What is kept -/

/-- Whether the expression is a lambda. -/
def Expr.isLam : Expr → Bool
  | .lam _ _ _ => true
  | _ => false

/-- The parts of an expression whose values are used as they are and which are evaluated in the same
environment as the whole.  The lambda of a `let rec` is none. -/
def Expr.parts : Expr → List Expr
  | .app f a => [f, a]
  | .cond e yes no => [e, yes, no]
  | .binary l _ r => [l, r]
  | .letIn rec _ e _ => if rec && e.isLam then [] else [e]
  | .var _ | .lam _ _ _ | .int _ | .bool _ | .str _ => []

/-- The errors that come from the values an expression is made of, and not from its names. -/
inductive EvalError.Raised : EvalError κ → Prop where
  | notAFunction {v : Value κ} (h : v.isCallable = false) : Raised (.notAFunction v)
  | nonBoolean {v : Value κ} (h : v.tag ≠ .bool) : Raised (.nonBooleanCondition v)
  | operator {op : Operator} {l r : Value κ} {e : EvalError κ} (h : op.apply l r = .error e) :
      Raised e

/-- The error in which a run has ended, if it has. -/
def Outcome.error? : Except (EvalError κ) α → Option (EvalError κ)
  | .ok _ => none
  | .error e => some e

/-- Something that evaluation is said to keep. -/
structure Invariant (κ σ : Type) where
  /-- What holds of values. -/
  value : Value κ → Prop
  /-- What holds of an expression and the environment in which it is evaluated. -/
  sees : Expr → Env κ → Prop
  /-- What holds between the beginning and the end of a run that ends in the error, or in none. -/
  after : Run.State κ σ → Option (EvalError κ) → Run.State κ σ → Prop

/-- How a run from the state `s` may end. -/
structure Invariant.Allows (I : Invariant κ σ) (V : α → Prop) (s : Run.State κ σ)
    (out : Except (EvalError κ) α × Run.State κ σ) : Prop where
  context : out.2.context = s.context
  result : ∀ a, out.1 = .ok a → V a
  after : I.after s (Outcome.error? out.1) out.2

/-- In a context with room for no more than `room` calls, the run ends as the invariant allows, with
a result that satisfies `V` if it has one. -/
def Run.Keeps (I : Invariant κ σ) (room : Nat) (V : α → Prop) (x : Run κ σ α) : Prop :=
  ∀ s, s.context.room ≤ room → I.Allows V s (x s)

/-! ### What is asked of an invariant -/

/-- What an invariant says of values goes from those there are to those that are made of them. -/
structure Invariant.Closed (I : Invariant κ σ) : Prop where
  base : ∀ {v : Value κ}, v.isCallable = false → I.value v
  lookup : ∀ {x : String} {env : Env κ} {v : Value κ}, I.sees (.var x) env →
    env.lookup? x = some v → I.value v
  parts : ∀ {e : Expr} {env : Env κ}, I.sees e env → ∀ part ∈ e.parts, I.sees part env
  lam : ∀ {x : String} {ty : Option Ty} {b : Expr} {env : Env κ}, I.sees (.lam x ty b) env →
    ∀ id, I.value (.closure ⟨id, x, b, none, env⟩)
  /-- The closure of a lambda, tied to the name of the `let rec`. -/
  knot : ∀ {f x : String} {ty : Option Ty} {b e : Expr} {env : Env κ},
    I.sees (.letIn true f (.lam x ty b) e) env → ∀ id, I.value (.closure ⟨id, x, b, some f, env⟩)
  tie : ∀ {c : Closure κ}, I.value (.closure c) → ∀ (name : String) (t : Store σ),
    I.value (.closure (c.tie name t).1)
  body : ∀ {rec : Bool} {x : String} {e b : Expr} {env : Env κ} {v : Value κ},
    I.sees (.letIn rec x e b) env → I.value v → ∀ id, I.sees b (.frame id x v env)
  callEnv : ∀ {c : Closure κ} {v : Value κ}, I.value (.closure c) → I.value v →
    ∀ t : Store σ, I.sees c.body (c.callEnv v t).1

/-- What one step of an evaluation can bring about is what the invariant says. -/
structure Invariant.Lawful (I : Invariant κ σ) (host : Host κ σ) : Prop extends I.Closed where
  refl : ∀ s, I.after s none s
  trans : ∀ {s t u : Run.State κ σ} {r : Option (EvalError κ)}, t.context = s.context →
    I.after s none t → I.after t r u → I.after s r u
  taken : ∀ s n, I.after s none { s with store := s.store.taken n }
  tied : ∀ s name param, I.after s none { s with log := .tied name param :: s.log }
  raised : ∀ {e : EvalError κ}, e.Raised → ∀ s, I.after s (some e) s
  unbound : ∀ {x : String} {env : Env κ}, I.sees (.var x) env → env.lookup? x = none →
    ∀ s, I.after s (some (.unboundVariable x)) s
  interrupted : ∀ {s : Run.State κ σ}, s.context.isInterrupted s.store = true → ∀ kind,
    I.after s (some .interrupted) { s with log := .interrupted kind :: s.log }
  intrinsic : ∀ (i : Intrinsic) name v s, I.after s (Outcome.error? (i.apply v))
    { s with log := .builtinCall name v :: s.log }
  host : ∀ {b : Builtin κ} {code : κ} {v : Value κ}, I.value (.builtin b) → b.code = .host code →
    I.value v → ∀ s, I.Allows I.value s (b.run host v s)
  /-- What was brought about inside a call was so by the call. -/
  call : ∀ {s t : Run.State κ σ} {r : Option (EvalError κ)} {c : Closure κ} {v : Value κ},
    s.context.depth < s.context.limit → t.context = (s.inside c v).context →
    I.after (s.inside c v) r t → I.after s r t.leave
  refused : ∀ {s : Run.State κ σ}, s.context.limit ≤ s.context.depth →
    I.after s (some (.stackOverflow s.context.depth s.context.limit))
      { s with log := .limitReached s.context.depth s.context.limit :: s.log }

/-! ### Runs -/

theorem Run.Keeps.mono {I : Invariant κ σ} {room : Nat} {V W : α → Prop} (h : ∀ a, V a → W a)
    {x : Run κ σ α} (hx : x.Keeps I room V) : x.Keeps I room W := fun s hs =>
  ⟨(hx s hs).context, fun a ha => h a ((hx s hs).result a ha), (hx s hs).after⟩

theorem Run.Keeps.fail {I : Invariant κ σ} {room : Nat} {V : α → Prop} {e : EvalError κ}
    (h : ∀ s, I.after s (some e) s) : (Run.fail e : Run κ σ α).Keeps I room V := fun s _ =>
  ⟨rfl, fun _ ha => (by cases ha), h s⟩

/-- The closure that is tied takes the next identity, and so does the frame of its old self name if
it has one. -/
theorem Closure.exists_taken_tie (c : Closure κ) (name : String) (t : Store σ) :
    ∃ n, (c.tie name t).2 = t.taken n := by
  cases hc : c.selfName with
  | none => exact ⟨1, congrArg Prod.snd (Closure.tie_of_none hc name t)⟩
  | some g => exact ⟨2, congrArg Prod.snd (Closure.tie_of_some hc name t)⟩

namespace Invariant.Lawful

variable {I : Invariant κ σ} {host : Host κ σ} {room : Nat} {V : α → Prop} {W : β → Prop}

theorem pure (hI : I.Lawful host) {a : α} (h : V a) : (Pure.pure a : Run κ σ α).Keeps I room V :=
  fun s _ => ⟨rfl, fun _ ha => (by cases ha; exact h), hI.refl s⟩

theorem bind (hI : I.Lawful host) {x : Run κ σ α} {f : α → Run κ σ β} (hx : x.Keeps I room V)
    (hf : ∀ a, V a → (f a).Keeps I room W) : (x >>= f).Keeps I room W := by
  intro s hs
  have hend := hx s hs
  rcases hrun : x s with ⟨_ | a, t⟩
  · rw [hrun] at hend
    rw [Run.bind_error hrun]
    exact ⟨hend.context, fun _ ha => (by cases ha), hend.after⟩
  · rw [hrun] at hend
    rw [Run.bind_ok hrun]
    have hcontext : t.context = s.context := hend.context
    have hend' := hf a (hend.result a rfl) t (by rwa [hcontext])
    exact ⟨hend'.context.trans hcontext, hend'.result, hI.trans hcontext hend.after hend'.after⟩

/-- Before every node the flag is looked at. -/
theorem node (hI : I.Lawful host) (kind : Kind) {x : Run κ σ α} (hx : x.Keeps I room V) :
    ((Machine.poll kind : Run κ σ Unit) >>= fun _ => x).Keeps I room V := by
  intro s hs
  by_cases hraised : s.context.isInterrupted s.store = true
  · rw [Run.poll_bind_raised kind _ hraised]
    exact ⟨rfl, fun _ ha => (by cases ha), hI.interrupted hraised kind⟩
  · rw [Run.poll_bind kind _ (Bool.eq_false_iff.mpr hraised)]
    exact hx s hs

/-- What is new takes identities and changes nothing else. -/
theorem alloc (hI : I.Lawful host) {x : Alloc σ α} (hx : ∀ t, ∃ n, (x t).2 = t.taken n)
    (h : ∀ t, V (x t).1) : (Run.alloc x : Run κ σ α).Keeps I room V := by
  intro s _
  obtain ⟨n, hn⟩ := hx s.store
  refine ⟨rfl, fun _ ha => (by cases ha; exact h s.store), ?_⟩
  show I.after s none { s with store := (x s.store).2 }
  rw [hn]
  exact hI.taken s n

/-- What a recursive `let` binds for a closure. -/
theorem bound_closure (hI : I.Lawful host) {c : Closure κ} {x : String}
    (h : ∀ t : Store σ, I.value (.closure (c.tie x t).1)) :
    ((Value.closure c).bound true x : Run κ σ (Value κ)).Keeps I room I.value := by
  have hrecord : (Run.record (.tied x c.param) : Run κ σ Unit).Keeps I room fun _ => True :=
    fun s _ => ⟨rfl, fun _ _ => trivial, hI.tied s x c.param⟩
  exact hI.bind hrecord fun _ _ =>
    hI.bind (hI.alloc (c.exists_taken_tie x) h) fun _ htied => hI.pure htied

/-- What a `let` binds for a value. -/
theorem bound (hI : I.Lawful host) {v : Value κ} (hv : I.value v) (rec : Bool) (x : String) :
    (v.bound rec x : Run κ σ (Value κ)).Keeps I room I.value := by
  rcases v.plain_or_closure rec with hplain | ⟨c, rfl, rfl⟩
  · intro s _
    rw [Value.bound_plain hplain]
    exact ⟨rfl, fun _ ha => (by cases ha; exact hv), hI.refl s⟩
  · exact hI.bound_closure (hI.tie hv x)

/-! ### Evaluations -/

/-- **Expressions**, if calls keep the invariant. -/
theorem evalWith (hI : I.Lawful host) {call : Value κ → Value κ → Run κ σ (Value κ)}
    (hcall : ∀ u v, I.value u → I.value v → (call u v).Keeps I room I.value) (e : Expr) :
    ∀ env, I.sees e env → (e.evalWith call env).Keeps I room I.value := by
  induction e with
  | int n | bool b | str s => exact fun env _ => hI.node _ (hI.pure (hI.base rfl))
  | var x =>
      intro env henv
      refine hI.node _ ?_
      cases hx : env.lookup? x with
      | none => exact .fail (hI.unbound henv hx)
      | some v => exact hI.pure (hI.lookup henv hx)
  | lam x ty b ih =>
      intro env henv
      refine hI.node _ (hI.bind (V := fun c => I.value (.closure c)) ?_ fun _ h => hI.pure h)
      exact hI.alloc (fun _ => ⟨1, rfl⟩) fun t => hI.lam henv t.next
  | app f a ihf iha =>
      intro env henv
      have hparts := hI.parts henv
      refine hI.node _ (hI.bind (ihf env (hparts f (by simp [Expr.parts]))) fun u hu => ?_)
      split
      · exact hI.bind (iha env (hparts a (by simp [Expr.parts]))) fun v hv => hcall u v hu hv
      · next h => exact .fail (hI.raised (.notAFunction (Bool.eq_false_iff.mpr h)))
  | cond e yes no ihe ihy ihn =>
      intro env henv
      have hparts := hI.parts henv
      refine hI.node _ (hI.bind (ihe env (hparts e (by simp [Expr.parts]))) fun u _ => ?_)
      cases u with
      | bool b =>
          cases b with
          | true => exact ihy env (hparts yes (by simp [Expr.parts]))
          | false => exact ihn env (hparts no (by simp [Expr.parts]))
      | int n | str n | closure n | builtin n =>
          exact .fail (hI.raised (.nonBoolean fun h => by cases h))
  | binary l op r ihl ihr =>
      intro env henv
      have hparts := hI.parts henv
      refine hI.node _ (hI.bind (ihl env (hparts l (by simp [Expr.parts]))) fun u _ => ?_)
      refine hI.bind (ihr env (hparts r (by simp [Expr.parts]))) fun v _ s _ => ?_
      show I.Allows I.value s (op.apply u v, s)
      generalize happly : op.apply u v = out
      have hans : Operator.Answer op u v out := happly ▸ op.apply_answer u v
      cases out with
      | error e => exact ⟨rfl, fun _ ha => (by cases ha), hI.raised (.operator happly) s⟩
      | ok w =>
          cases hans with
          | base _ hw => exact ⟨rfl, fun _ ha => (by cases ha; exact hI.base hw), hI.refl s⟩
  | letIn rec x e b ihe ihb =>
      intro env henv
      have hvalue : (e.evalWith call env).Keeps I room
          fun v => (v.bound rec x : Run κ σ (Value κ)).Keeps I room I.value := by
        cases hlam : rec && e.isLam with
        | false =>
            have hpart : e ∈ (Expr.letIn rec x e b).parts := by simp [Expr.parts, hlam]
            exact (ihe env (hI.parts henv e hpart)).mono fun v hv => hI.bound hv rec x
        | true =>
            -- the closure of the lambda is not there to be used before it is tied
            obtain ⟨rfl, he⟩ := Bool.and_eq_true_iff.mp hlam
            cases e with
            | lam p ty fb =>
                refine hI.node _ (hI.bind (V := fun c => ∃ id, c = ⟨id, p, fb, none, env⟩) ?_ ?_)
                · exact hI.alloc (fun _ => ⟨1, rfl⟩) fun t => ⟨t.next, rfl⟩
                · rintro _ ⟨id, rfl⟩
                  exact hI.pure (hI.bound_closure fun t => hI.knot henv t.next)
            | _ => cases he
      refine hI.node _ (hI.bind hvalue fun v hv => hI.bind hv fun w hw => ?_)
      refine hI.bind (V := fun env' => I.sees b env') ?_ ihb
      exact hI.alloc (fun _ => ⟨1, rfl⟩) fun t => hI.body henv hw t.next

/-- A call keeps the invariant if the bodies of closures do, one level deeper. -/
theorem callWith (hI : I.Lawful host) {evalBody : Expr → Env κ → Run κ σ (Value κ)}
    (hbody : 0 < room → ∀ e env, I.sees e env → (evalBody e env).Keeps I (room - 1) I.value)
    (u v : Value κ) (hu : I.value u) (hv : I.value v) :
    (u.callWith host evalBody v).Keeps I room I.value := by
  cases u with
  | int n | bool n | str n => exact .fail (hI.raised (.notAFunction rfl))
  | builtin b =>
      intro s _
      show I.Allows I.value s (b.run host v s)
      cases hcode : b.code with
      | host code => exact hI.host hu hcode hv s
      | intrinsic i =>
          rw [Builtin.run_intrinsic host hcode]
          refine ⟨rfl, fun w hw => ?_, hI.intrinsic i b.name v s⟩
          have hans : Intrinsic.Answer i v (.ok w) := hw ▸ i.apply_answer v
          cases hans with
          | base _ hw => exact hI.base hw
  | closure c =>
      intro s hs
      by_cases hroom : s.context.depth < s.context.limit
      · have hpos : 0 < room := by
          simp only [Context.room] at hs
          omega
        have hinside : (s.inside c v).context.room ≤ room - 1 := by
          simp only [Context.room, Run.State.inside] at hs ⊢
          omega
        have hend := hbody hpos c.body _ (hI.callEnv hu hv s.store) (s.inside c v) hinside
        rw [Value.callWith_closure host evalBody c v hroom]
        exact ⟨congrArg Context.leave hend.context, hend.result,
          hI.call hroom hend.context hend.after⟩
      · rw [Value.callWith_closure_full host evalBody c v (Nat.le_of_not_lt hroom)]
        exact ⟨rfl, fun _ ha => (by cases ha), hI.refused (Nat.le_of_not_lt hroom)⟩

/-- **Calls.**  The induction is on the room. -/
theorem callAt (hI : I.Lawful host) (room : Nat) : ∀ u v, I.value u → I.value v →
    (EagerLambda.callAt host room u v).Keeps I room I.value := by
  induction room with
  | zero => exact hI.callWith fun h => absurd h (Nat.lt_irrefl 0)
  | succ room ih => exact hI.callWith fun _ => hI.evalWith ih

/-- **Evaluations.** -/
theorem eval (hI : I.Lawful host) {e : Expr} {env : Env κ} (h : I.sees e env)
    (s : Run.State κ σ) : I.Allows I.value s (e.eval host env s) :=
  hI.evalWith (hI.callAt s.context.room) e env h s (Nat.le_refl _)

end Invariant.Lawful

/-! ### Invariants that look at builtins only -/

/-- The builtins are intrinsics or functions in `Q`. -/
def Invariant.within (Q : κ → Prop)
    (after : Run.State κ σ → Option (EvalError κ) → Run.State κ σ → Prop) : Invariant κ σ where
  value := Value.Within Q
  sees _ env := env.Within Q
  after := after

theorem Invariant.within_closed (Q : κ → Prop)
    (after : Run.State κ σ → Option (EvalError κ) → Run.State κ σ → Prop) :
    (Invariant.within Q after).Closed where
  base := Value.every_of_not_callable
  lookup henv hx := henv.lookup hx
  parts henv _ _ := henv
  lam henv _ := ⟨trivial, henv⟩
  knot henv _ := ⟨trivial, henv⟩
  tie hc name t := Closure.Every.tie hc name t trivial
  body henv hv _ := ⟨hv, henv⟩
  callEnv hc hv t := Closure.Every.callEnv hc hv t

end EagerLambda
