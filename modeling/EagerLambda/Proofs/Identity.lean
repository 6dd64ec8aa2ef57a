import EagerLambda.Proofs.Making
import EagerLambda.Proofs.Primitives

/-!
# Identity — what it means to be the same value

Closures and builtins are compared by identity, which is a number, and chains of frames by the
identity of their first frame.  A number alone says little.  What makes it an identity is how values
come about, and that is what is followed here, through everything that can be done with environments
and values from the time when there are none.

`World` is the state machine: the environments and values that are at hand, all objects that were
ever made, and the store.  Whatever is done, the objects were made one after the other
(`World.Kept`), because evaluations make theirs in that way (`evalMaking_lists`).  So being the same
is being equal for all values and chains that can be got at, two objects that were made at different
times are never the same, and nothing can be got at from what it holds itself
(`identity_sound_and_fresh`).
-/

namespace EagerLambda

variable {κ σ α β : Type}

/-! ### What is there -/

namespace Covers

variable {kept : σ → List (Object κ)} {known : List (Object κ)} {t : Store σ}

theorem new (h : Covers kept known t) {p : Object κ} (hp : New known t p) :
    Covers kept (p :: known) (t.taken 1) :=
  ⟨h.made.new hp, fun q hq => (h.kept q hq).append [p]⟩

theorem lookup (h : Covers kept known t) {env : Env κ} (henv : env.In known) {x : String}
    {v : Value κ} (hx : env.lookup? x = some v) : v.In known :=
  (h.made.reaches henv (Env.reaches_lookup hx)).1

theorem captured (h : Covers kept known t) {c : Closure κ} (hc : (Value.closure c).In known) :
    c.env.In known := (h.made.holds hc (.captured c)).1

theorem capturedBy (h : Covers kept known t) {b : Builtin κ} (hb : (Value.builtin b).In known) :
    b.captured.In known := (h.made.holds hb (.kept b)).1

end Covers

theorem Operator.apply_in (op : Operator) {known : List (Object κ)} {l r : Value κ}
    (hl : l.In known) (hr : r.In known) :
    Outcome.In (Value.In known) known (op.apply l r) := by
  generalize ho : op.apply l r = out
  have hans : Answer op l r out := ho ▸ op.apply_answer l r
  cases hans with
  | base _ hv => exact .of_not_callable hv
  | incompatible =>
      rintro v (_ | ⟨_, _ | ⟨_, hv⟩⟩)
      · exact hl
      · exact hr
      · cases hv
  | byZero | overflow => exact fun v hv => by cases hv

theorem Intrinsic.apply_in (i : Intrinsic) {known : List (Object κ)} {v : Value κ}
    (hv : v.In known) : Outcome.In (Value.In known) known (i.apply v) := by
  generalize ho : i.apply v = out
  have hans : Answer i v out := ho ▸ i.apply_answer v
  cases hans with
  | base _ hw => exact .of_not_callable hw
  | invalid => exact fun w hw => List.mem_singleton.mp hw ▸ hv
  | empty | noChar => exact fun w hw => by cases hw

/-! ### Evaluations list what they make -/

/-- From whatever state it starts, if `known` is all that was made so far, then the run makes what
it lists and nothing else, and its outcome is of these or of `known`. -/
def Making.Lists (kept : σ → List (Object κ)) (known : List (Object κ))
    (V : List (Object κ) → α → Prop) (x : Making κ σ α) : Prop :=
  ∀ s, Covers kept known s.store →
    Covers kept (x.made s ++ known) (x.run s).2.store ∧
      Outcome.In (V (x.made s ++ known)) (x.made s ++ known) (x.run s).1

namespace Making

theorem made_bind_ok {x : Making κ σ α} {f : α → Making κ σ β} {s s' : Run.State κ σ} {a : α}
    (h : x.run s = (.ok a, s')) : (x >>= f).made s = (f a).made s' ++ x.made s := by
  show (Making.bind x f).made s = _
  simp only [Making.bind, h]

theorem made_bind_error {x : Making κ σ α} {f : α → Making κ σ β} {s s' : Run.State κ σ}
    {e : EvalError κ} (h : x.run s = (.error e, s')) : (x >>= f).made s = x.made s := by
  show (Making.bind x f).made s = _
  simp only [Making.bind, h]

namespace Lists

variable {kept : σ → List (Object κ)} {known : List (Object κ)} {V : List (Object κ) → α → Prop}
  {W : List (Object κ) → β → Prop}

theorem pure {a : α} (h : V known a) : Lists kept known V (Pure.pure a : Making κ σ α) :=
  fun _ hs => ⟨hs, h⟩

/-- A run that leaves the store alone. -/
theorem lift {x : Run κ σ α} (hstore : ∀ s, (x s).2.store = s.store)
    (hout : ∀ s, Outcome.In (V known) known (x s).1) : Lists kept known V (lift x) := by
  intro s hs
  refine ⟨?_, hout s⟩
  show Covers kept known (x s).2.store
  rw [hstore s]
  exact hs

theorem fail {e : EvalError κ} (h : e.In known) :
    Lists kept known V (Making.lift (Run.fail e) : Making κ σ α) :=
  .lift (fun _ => rfl) fun _ => h

theorem ofExcept {r : Except (EvalError κ) α} (h : Outcome.In (V known) known r) :
    Lists kept known V (Making.lift (Run.ofExcept r) : Making κ σ α) :=
  .lift (fun _ => rfl) fun _ => h

theorem record (event : Event κ) :
    Lists kept known (fun _ _ => True) (Making.lift (Run.record event) : Making κ σ Unit) :=
  .lift (fun _ => rfl) fun _ => trivial

theorem poll (kind : Kind) :
    Lists kept known (fun _ _ => True) (Making.lift (Run.poll kind) : Making κ σ Unit) := by
  have hout (s : Run.State κ σ) : ((Run.poll kind : Run κ σ Unit) s).2.store = s.store ∧
      Outcome.In (fun _ => True) known ((Run.poll kind : Run κ σ Unit) s).1 := by
    by_cases hraised : s.context.isInterrupted s.store = true
    · rw [Run.poll, if_pos hraised]
      exact ⟨rfl, fun v hv => by cases hv⟩
    · rw [Run.poll, if_neg hraised]
      exact ⟨rfl, trivial⟩
  exact .lift (fun s => (hout s).1) fun s => (hout s).2

theorem overflow : Lists kept known V (Making.lift Run.overflow : Making κ σ α) :=
  .lift (fun _ => rfl) fun _ v hv => by cases hv

theorem enter :
    Lists kept known (fun _ _ => True) (Making.lift Run.enter : Making κ σ Nat) := by
  have hout (s : Run.State κ σ) : ((Run.enter : Run κ σ Nat) s).2.store = s.store ∧
      Outcome.In (fun _ => True) known ((Run.enter : Run κ σ Nat) s).1 := by
    unfold Run.enter
    cases s.context.enter? with
    | some context => exact ⟨rfl, trivial⟩
    | none => exact ⟨rfl, fun v hv => by cases hv⟩
  exact .lift (fun s => (hout s).1) fun s => (hout s).2

theorem bind {x : Making κ σ α} {f : α → Making κ σ β} (hx : Lists kept known V x)
    (hf : ∀ new a, V (new ++ known) a → Lists kept (new ++ known) W (f a)) :
    Lists kept known W (x >>= f) := by
  intro s hs
  obtain ⟨hcovers, hout⟩ := hx s hs
  have hrun : (x >>= f).run s = (x.run >>= fun a => (f a).run) s := rfl
  rw [hrun]
  rcases hxs : x.run s with ⟨_ | a, s₁⟩
  · rw [made_bind_error hxs, Run.bind_error hxs]
    rw [hxs] at hcovers hout
    exact ⟨hcovers, hout⟩
  · rw [made_bind_ok hxs, Run.bind_ok hxs, List.append_assoc]
    rw [hxs] at hcovers hout
    exact hf _ a hout s₁ hcovers

theorem extend {env : Env κ} {v : Value κ} (henv : env.In known) (hv : v.In known)
    (name : String) : Lists kept known Env.In (Making.extend env name v : Making κ σ (Env κ)) :=
  fun _ hs => ⟨hs.new (.frame henv hv name), .inr List.mem_cons_self⟩

theorem closure {env : Env κ} (henv : env.In known) (param : String) (body : Expr)
    (selfName : Option String) :
    Lists kept known (fun known c => (Value.closure c).In known)
      (Making.closure env param body selfName : Making κ σ (Closure κ)) :=
  fun _ hs => ⟨hs.new (.closure henv param body selfName), .inr List.mem_cons_self⟩

theorem leaving {x : Making κ σ α} (h : Lists kept known V x) : Lists kept known V x.leaving := h

end Lists

end Making

section

variable {kept : σ → List (Object κ)} {known : List (Object κ)} {c : Closure κ}

theorem Closure.selfEnvMaking_lists (hc : (Value.closure c).In known) :
    Making.Lists kept known Env.In c.selfEnvMaking := by
  intro s hs
  have henv := hs.captured hc
  unfold Closure.selfEnvMaking
  cases c.selfName with
  | none => exact Making.Lists.pure henv s hs
  | some g => exact Making.Lists.extend henv hc g s hs

theorem Closure.tieMaking_lists (hc : (Value.closure c).In known) (name : String) :
    Making.Lists kept known (fun known tied => (Value.closure tied).In known) (c.tieMaking name) :=
  (Closure.selfEnvMaking_lists hc).bind fun _ _ henv => .closure henv _ _ _

theorem Closure.callEnvMaking_lists (hc : (Value.closure c).In known) {arg : Value κ}
    (harg : arg.In known) : Making.Lists kept known Env.In (c.callEnvMaking arg) :=
  (Closure.selfEnvMaking_lists hc).bind fun new _ henv => .extend henv (harg.append new) c.param

theorem Value.bound_lists {v : Value κ} (hv : v.In known) (rec : Bool) (x : String) :
    Making.Lists kept known Value.In (v.bound rec x : Making κ σ (Value κ)) := by
  unfold Value.bound
  split
  · refine (Making.Lists.record _).bind fun new _ _ => ?_
    exact (Closure.tieMaking_lists (hv.append new) x).bind fun _ _ htied => .pure htied
  · exact .pure hv

/-- **Expressions.** -/
theorem evalWith_lists {call : Value κ → Value κ → Making κ σ (Value κ)}
    (hcall : ∀ known u v, u.In known → v.In known →
      Making.Lists kept known Value.In (call u v)) (e : Expr) :
    ∀ known env, env.In known → Making.Lists kept known Value.In (e.evalWith call env) := by
  induction e with
  | int n | bool b | str s =>
      exact fun known env _ => (Making.Lists.poll _).bind fun _ _ _ => .pure (.inl rfl)
  | var x =>
      intro known env henv
      refine (Making.Lists.poll _).bind fun new _ _ s hs => ?_
      cases hx : env.lookup? x with
      | some v => exact Making.Lists.pure (hs.lookup (henv.append new) hx) s hs
      | none => exact Making.Lists.fail (fun v hv => by cases hv) s hs
  | lam x ty b ih =>
      intro known env henv
      refine (Making.Lists.poll _).bind fun new _ _ => ?_
      exact (Making.Lists.closure (henv.append new) _ _ _).bind fun _ _ hc => .pure hc
  | app f a ihf iha =>
      intro known env henv
      refine (Making.Lists.poll _).bind fun new _ _ => ?_
      have henv := henv.append new
      refine (ihf _ env henv).bind fun new u hu => ?_
      split
      · exact (iha _ env (henv.append new)).bind fun new v hv => hcall _ u v (hu.append new) hv
      · exact .fail fun v hv => List.mem_singleton.mp hv ▸ hu
  | cond e yes no ihe ihy ihn =>
      intro known env henv
      refine (Making.Lists.poll _).bind fun new _ _ => ?_
      have henv := henv.append new
      refine (ihe _ env henv).bind fun new u hu => ?_
      rcases u with n | b | n | c | b
      · exact .fail fun v hv => List.mem_singleton.mp hv ▸ hu
      · cases b with
        | true => exact ihy _ env (henv.append new)
        | false => exact ihn _ env (henv.append new)
      · exact .fail fun v hv => List.mem_singleton.mp hv ▸ hu
      · exact .fail fun v hv => List.mem_singleton.mp hv ▸ hu
      · exact .fail fun v hv => List.mem_singleton.mp hv ▸ hu
  | binary l op r ihl ihr =>
      intro known env henv
      refine (Making.Lists.poll _).bind fun new _ _ => ?_
      have henv := henv.append new
      refine (ihl _ env henv).bind fun new u hu => ?_
      exact (ihr _ env (henv.append new)).bind fun new v hv =>
        .ofExcept (op.apply_in (hu.append new) hv)
  | letIn rec x e b ihe ihb =>
      intro known env henv
      refine (Making.Lists.poll _).bind fun new _ _ => ?_
      have henv := henv.append new
      refine (ihe _ env henv).bind fun new v hv => ?_
      have henv := henv.append new
      refine (v.bound_lists hv rec x).bind fun new w hw => ?_
      exact (Making.Lists.extend (henv.append new) hw x).bind fun _ env henv => ihb _ env henv

end

section

variable {host : Host κ σ} (ledger : host.Ledger)

theorem Builtin.runMaking_lists {known : List (Object κ)} {b : Builtin κ} {v : Value κ}
    (hb : (Value.builtin b).In known) (hv : v.In known) :
    Making.Lists ledger.kept known Value.In (b.runMaking ledger v) := by
  intro s hs
  simp only [Builtin.runMaking]
  cases hcode : b.code with
  | intrinsic i =>
      rw [Builtin.run_intrinsic host hcode]
      exact ⟨hs, i.apply_in hv⟩
  | host code =>
      rw [Builtin.run_host host hcode]
      exact ledger.honest code hs (hs.capturedBy hb) hv

theorem callWith_lists {evalBody : Expr → Env κ → Making κ σ (Value κ)}
    (hbody : ∀ e known env, env.In known →
      Making.Lists ledger.kept known Value.In (evalBody e env)) :
    ∀ known (u v : Value κ), u.In known → v.In known →
      Making.Lists ledger.kept known Value.In
        (Machine.callWith (Builtin.runMaking ledger) evalBody u v) := by
  intro known u v hu hv
  cases u with
  | int n | bool n | str n => exact .fail fun v hv => List.mem_singleton.mp hv ▸ hu
  | builtin b => exact b.runMaking_lists ledger hu hv
  | closure c =>
      refine Making.Lists.enter.bind fun new depth _ => .leaving ?_
      have hu := hu.append new
      have hv := hv.append new
      refine (Making.Lists.record _).bind fun new _ _ => ?_
      exact (Closure.callEnvMaking_lists (hu.append new) (hv.append new)).bind fun _ env henv =>
        hbody c.body _ env henv

theorem callAt_lists (room : Nat) :
    ∀ known u v, u.In known → v.In known →
      Making.Lists ledger.kept known Value.In
        (Machine.callAt (Builtin.runMaking ledger) room u v) := by
  induction room with
  | zero => exact callWith_lists ledger fun _ _ _ _ => .overflow
  | succ room ih => exact callWith_lists ledger (evalWith_lists ih)

/-- **An evaluation** makes what it lists, one after the other. -/
theorem evalMaking_lists (e : Expr) {known : List (Object κ)} {env : Env κ} (henv : env.In known) :
    Making.Lists ledger.kept known Value.In (e.evalMaking ledger env) := fun s =>
  evalWith_lists (callAt_lists ledger s.context.room) e known env henv s

end

/-! ### The machine -/

/-- What `Env.loadPrelude` makes: for each intrinsic a builtin, and a frame to bind it. -/
def Env.preludeMade : List Intrinsic → Env κ → Store σ → List (Object κ)
  | [], _, _ => []
  | i :: rest, env, t =>
    let (b, t) := i.toBuiltin t
    let (env, t) := env.extendBuiltin b t
    preludeMade rest env t ++ [.chain env, .value (.builtin b)]

/-- The environments and the values at hand, all objects that were made so far, the latest first,
and the store. -/
structure World (κ σ : Type) where
  envs : List (Env κ)
  values : List (Value κ)
  made : List (Object κ)
  store : Store σ

namespace World

/-- What can be done.  An environment goes by its number among those at hand, and so does a
value. -/
inductive Action (κ : Type) where
  /-- Begin an empty environment. -/
  | new
  /-- Have a second handle on an environment. -/
  | clone (i : Nat)
  /-- Bind a name in a new environment. -/
  | extend (i : Nat) (name : String) (k : Nat)
  /-- Bind a name, and have the new environment in place of the old one. -/
  | define (i : Nat) (name : String) (k : Nat)
  | defineBuiltin (i k : Nat)
  | loadPrelude (i : Nat)
  | lookup (i : Nat) (name : String)
  /-- Make a builtin that has captured an environment. -/
  | builtin (name : String) (code : Code κ) (i : Nat)
  | eval (i : Nat) (e : Expr) (context : Context)
  /-- Something else: identities are taken for flags, and flags are raised or lowered. -/
  | other (taken : Nat) (raised : Flag → Bool)

/-- Do something with an environment, if it is there. -/
def onEnv (w : World κ σ) (i : Nat) (f : Env κ → World κ σ) : World κ σ :=
  match w.envs[i]? with
  | some env => f env
  | none => w

/-- Do something with a value, if it is there. -/
def onValue (w : World κ σ) (k : Nat) (f : Value κ → World κ σ) : World κ σ :=
  match w.values[k]? with
  | some v => f v
  | none => w

/-- Bind a name in a new frame; `envs` says which environments are then at hand. -/
def bind (w : World κ σ) (env : Env κ) (name : String) (v : Value κ)
    (envs : Env κ → List (Env κ)) : World κ σ :=
  let (env, store) := env.extend name v w.store
  { w with envs := envs env, made := .chain env :: w.made, store }

variable {host : Host κ σ}

/-- One action. -/
def step (ledger : host.Ledger) (w : World κ σ) : Action κ → World κ σ
  | .new => { w with envs := w.envs ++ [.empty] }
  | .clone i => w.onEnv i fun env => { w with envs := w.envs ++ [env] }
  | .extend i name k => w.onEnv i fun env => w.onValue k fun v =>
    w.bind env name v fun env => w.envs ++ [env]
  | .define i name k => w.onEnv i fun env => w.onValue k fun v =>
    w.bind env name v fun env => w.envs.set i env
  | .defineBuiltin i k => w.onEnv i fun env => w.onValue k fun
    | .builtin b => w.bind env b.name (.builtin b) fun env => w.envs.set i env
    | _ => w
  | .loadPrelude i => w.onEnv i fun env =>
    let (env', store) := env.loadPrelude w.store
    { w with
      envs := w.envs.set i env', made := env.preludeMade Intrinsic.all w.store ++ w.made, store }
  | .lookup i name => w.onEnv i fun env =>
    { w with values := w.values ++ (env.lookup? name).toList }
  | .builtin name code i => w.onEnv i fun env =>
    let (b, store) := Builtin.make name code env w.store
    { w with values := w.values ++ [.builtin b], made := .value (.builtin b) :: w.made, store }
  | .eval i e context => w.onEnv i fun env =>
    let s := .start context w.store
    let (out, s') := e.eval host env s
    { w with
      values := w.values ++ Outcome.values out
      made := (e.evalMaking ledger env).made s ++ w.made
      store := s'.store }
  | .other taken raised => { w with store := { w.store with next := w.store.next + taken, raised } }

/-- The world after a history of actions, the latest first, from nothing but a store. -/
def after (ledger : host.Ledger) (store : Store σ) : List (Action κ) → World κ σ
  | [] => ⟨[], [], [], store⟩
  | action :: earlier => (after ledger store earlier).step ledger action

/-- What can be got at from the environments and values at hand. -/
def Reaches (w : World κ σ) (p : Object κ) : Prop :=
  (∃ env ∈ w.envs, (Object.chain env).Reaches p) ∨ ∃ v ∈ w.values, (Object.value v).Reaches p

/-! ### What one action keeps -/

/-- All that was made was made one after the other, and what is at hand is of it. -/
structure Kept (kept : σ → List (Object κ)) (w : World κ σ) : Prop where
  covers : Covers kept w.made w.store
  envs : ∀ env ∈ w.envs, env.In w.made
  values : ∀ v ∈ w.values, v.In w.made

namespace Kept

variable {kept : σ → List (Object κ)} {w : World κ σ}

/-- More objects, and of the environments and values none that is not of these. -/
theorem grow (h : w.Kept kept) (new : List (Object κ)) {envs : List (Env κ)}
    {values : List (Value κ)} {store : Store σ} (hcovers : Covers kept (new ++ w.made) store)
    (henvs : ∀ env ∈ envs, env ∈ w.envs ∨ env.In (new ++ w.made))
    (hvalues : ∀ v ∈ values, v ∈ w.values ∨ v.In (new ++ w.made)) :
    Kept kept ⟨envs, values, new ++ w.made, store⟩ where
  covers := hcovers
  envs env henv := (henvs env henv).elim (fun hold => (h.envs env hold).append new) id
  values v hv := (hvalues v hv).elim (fun hold => (h.values v hold).append new) id

theorem onEnv (h : w.Kept kept) (i : Nat) {f : Env κ → World κ σ}
    (hf : ∀ env ∈ w.envs, (f env).Kept kept) : (w.onEnv i f).Kept kept := by
  unfold World.onEnv
  split
  · next hi => exact hf _ (List.mem_of_getElem? hi)
  · exact h

theorem onValue (h : w.Kept kept) (k : Nat) {f : Value κ → World κ σ}
    (hf : ∀ v ∈ w.values, (f v).Kept kept) : (w.onValue k f).Kept kept := by
  unfold World.onValue
  split
  · next hk => exact hf _ (List.mem_of_getElem? hk)
  · exact h

/-- **Binding a name.** -/
theorem bind (h : w.Kept kept) {env : Env κ} {v : Value κ} (henv : env ∈ w.envs)
    (hv : v ∈ w.values) (name : String) {envs : Env κ → List (Env κ)}
    (henvs : ∀ env, ∀ old ∈ envs env, old ∈ w.envs ∨ old = env) :
    (w.bind env name v envs).Kept kept := by
  refine h.grow [_] (h.covers.new (.frame (h.envs env henv) (h.values v hv) name)) ?_
    fun v hv => .inl hv
  intro old hold
  refine (henvs _ old hold).imp_right ?_
  rintro rfl
  exact .inr List.mem_cons_self

end Kept

end World

/-- Each intrinsic is made and bound in turn. -/
theorem Covers.preludeMade {kept : σ → List (Object κ)} (is : List Intrinsic) :
    ∀ {known : List (Object κ)} {env : Env κ} {t : Store σ}, Covers kept known t → env.In known →
      let load : Env κ → Intrinsic → Alloc σ (Env κ) := fun env i => do
        env.extendBuiltin (← i.toBuiltin)
      let out := is.foldlM load env t
      let known := env.preludeMade is t ++ known
      Covers kept known out.2 ∧ out.1.In known := by
  induction is with
  | nil => exact fun h henv => ⟨h, henv⟩
  | cons i rest ih =>
      intro known env t h henv
      have hbuiltin : Covers kept (.value (.builtin (i.toBuiltin t).1) :: known) (t.taken 1) :=
        h.new (.builtin (.inl rfl) i.name (.intrinsic i))
      have hframe := hbuiltin.new (.frame (henv.append [_]) (.inr List.mem_cons_self) i.name)
      have hmade : env.preludeMade (i :: rest) t ++ known = _ := List.append_assoc _ _ _
      show Covers kept (env.preludeMade (i :: rest) t ++ known) _ ∧ Env.In _ _
      rw [hmade]
      exact ih hframe (.inr List.mem_cons_self)

namespace World

variable {host : Host κ σ}

theorem mem_append_singleton {a b : α} {l : List α} (h : b ∈ l ++ [a]) : b ∈ l ∨ b = a :=
  (List.mem_append.mp h).imp_right List.mem_singleton.mp

/-- **One action.** -/
theorem Kept.step (ledger : host.Ledger) {w : World κ σ} (h : w.Kept ledger.kept)
    (action : Action κ) : (w.step ledger action).Kept ledger.kept := by
  cases action with
  | new =>
      refine h.grow [] h.covers (fun env henv => ?_) fun v hv => .inl hv
      refine (mem_append_singleton henv).imp_right ?_
      rintro rfl
      exact .inl rfl
  | clone i =>
      refine h.onEnv i fun env henv => ?_
      refine h.grow [] h.covers (fun env' henv' => ?_) fun v hv => .inl hv
      exact .inl ((mem_append_singleton henv').elim id fun heq => heq ▸ henv)
  | extend i name k =>
      refine h.onEnv i fun env henv => h.onValue k fun v hv => ?_
      exact h.bind henv hv name fun env old hold => mem_append_singleton hold
  | define i name k =>
      refine h.onEnv i fun env henv => h.onValue k fun v hv => ?_
      exact h.bind henv hv name fun env old hold => List.mem_or_eq_of_mem_set hold
  | defineBuiltin i k =>
      refine h.onEnv i fun env henv => h.onValue k fun v hv => ?_
      split
      · exact h.bind henv hv _ fun env old hold => List.mem_or_eq_of_mem_set hold
      · exact h
  | loadPrelude i =>
      refine h.onEnv i fun env henv => ?_
      obtain ⟨hcovers, hnew⟩ := h.covers.preludeMade Intrinsic.all (h.envs env henv)
      refine h.grow _ hcovers (fun env' henv' => ?_) fun v hv => .inl hv
      refine (List.mem_or_eq_of_mem_set henv').imp_right ?_
      rintro rfl
      exact hnew
  | lookup i name =>
      refine h.onEnv i fun env henv => ?_
      refine h.grow [] h.covers (fun env henv => .inl henv) fun v hv => ?_
      refine (List.mem_append.mp hv).imp_right fun hv => ?_
      exact h.covers.lookup (h.envs env henv) (Option.mem_toList.mp hv)
  | builtin name code i =>
      refine h.onEnv i fun env henv => ?_
      refine h.grow [_] (h.covers.new (.builtin (h.envs env henv) name code))
        (fun env henv => .inl henv) fun v hv => ?_
      refine (mem_append_singleton hv).imp_right ?_
      rintro rfl
      exact .inr List.mem_cons_self
  | eval i e context =>
      refine h.onEnv i fun env henv => ?_
      have hlists := evalMaking_lists ledger e (h.envs env henv) (.start context w.store) h.covers
      rw [evalMaking_run] at hlists
      refine h.grow _ hlists.1 (fun env henv => .inl henv) fun v hv => ?_
      exact (List.mem_append.mp hv).imp_right fun hv => hlists.2.values v hv
  | other taken raised =>
      exact ⟨⟨h.covers.made.later (Nat.le_add_right _ _), h.covers.kept⟩, h.envs, h.values⟩

/-- **All actions**, one after the other. -/
theorem after_kept (ledger : host.Ledger) {store : Store σ} (hstore : ledger.kept store.host = [])
    (history : List (Action κ)) : (after ledger store history).Kept ledger.kept := by
  induction history with
  | nil =>
      refine ⟨⟨.nothing store, fun p hp => ?_⟩, fun env henv => ?_, fun v hv => ?_⟩
      · rw [after, hstore] at hp
        cases hp
      · cases henv
      · cases hv
  | cons action earlier ih => exact ih.step ledger action

/-- What can be got at was made, or needs no making. -/
theorem Kept.reaches {kept : σ → List (Object κ)} {w : World κ σ} (h : w.Kept kept)
    {p : Object κ} (hp : w.Reaches p) : p.In w.made := by
  rcases hp with ⟨env, henv, hp⟩ | ⟨v, hv, hp⟩
  · exact (h.covers.made.reaches (h.envs env henv) hp).1
  · exact (h.covers.made.reaches (h.values v hv) hp).1

/-- What it means in a world that a value or a chain is the same as another. -/
structure Sound (w : World κ σ) : Prop where
  /-- Values that are the same are equal in every respect.  They are of one type and have one text,
  and closures also have one parameter, body and self name and have captured one chain. -/
  values : ∀ {u v : Value κ}, w.Reaches (.value u) → w.Reaches (.value v) →
    (u.same v = true ↔ u = v)
  /-- Chains that are the same bind the same names to the same values, in the same order. -/
  chains : ∀ {a b : Env κ}, w.Reaches (.chain a) → w.Reaches (.chain b) →
    (a.sameChain b = true ↔ a = b)
  /-- Whatever can be got at is still what it was when it was made. -/
  made : ∀ {p : Object κ}, w.Reaches p → p.In w.made
  /-- Of all that was ever made, no two are the same. -/
  fresh : w.made.Pairwise fun p q => p.same q = false
  /-- To bind a name makes a chain that is none of those that are there. -/
  extended : ∀ (env : Env κ) (name : String) (v : Value κ) {a : Env κ}, w.Reaches (.chain a) →
    (env.extend name v w.store).1.sameChain a = false
  /-- A closure cannot be got at from what it has captured. -/
  acyclic : ∀ {c : Closure κ} {v : Value κ}, w.Reaches (.value (.closure c)) →
    (Object.chain c.env).Reaches (.value v) → v.same (.closure c) = false

theorem Kept.sound {kept : σ → List (Object κ)} {w : World κ σ} (h : w.Kept kept) : w.Sound where
  values {u v} hu hv := by
    refine ⟨fun hsame => ?_, fun heq => heq ▸ Value.same_equivalence.refl u⟩
    exact Object.value.inj
      (h.covers.made.eq_of_same (h.reaches hu) (h.reaches hv) (q := .value v) hsame)
  chains {a b} ha hb := by
    refine ⟨fun hsame => ?_, fun heq => heq ▸ Object.same_self (.chain a)⟩
    exact Object.chain.inj
      (h.covers.made.eq_of_same (h.reaches ha) (h.reaches hb) (q := .chain b) hsame)
  made := h.reaches
  fresh := h.covers.made.pairwise_not_same
  extended env name v {a} ha := by
    -- the new frame would have to be as old as the first one of `a`
    refine Bool.eq_false_iff.mpr fun hsame => ?_
    have hrank := Object.rank_eq_of_same (p := .chain (env.extend name v w.store).1)
      (q := .chain a) hsame
    have hle := h.covers.made.rank_le (h.reaches ha)
    rw [← hrank] at hle
    exact Nat.not_succ_le_self _ hle
  acyclic {c v} hc hv := by
    -- what the closure has captured is older than the closure, and holds nothing younger
    refine Bool.eq_false_iff.mpr fun hsame => ?_
    have hrank := Object.rank_eq_of_same (p := .value v) (q := .value (.closure c)) hsame
    obtain ⟨hin, hlt⟩ := h.covers.made.holds (h.reaches hc) (.captured c)
    have hle := (h.covers.made.reaches hin hv).2
    rw [hrank] at hle
    exact Nat.not_lt_of_le hle hlt

end World

/-! ### Values are handed on as they are -/

/-- What becomes of a value that is bound, looked up, passed to a closure or returned by one. -/
structure Host.HandsOn (host : Host κ σ) : Prop where
  bound : ∀ (env : Env κ) (name : String) (v : Value κ) (t : Store σ) (x : String),
    (env.extend name v t).1.lookup? x = if name = x then some v else env.lookup? x
  lookedUp : ∀ (call : Value κ → Value κ → Run κ σ (Value κ)) {env : Env κ} {x : String}
    {v : Value κ} {s : Run.State κ σ}, s.context.isInterrupted s.store = false →
    env.lookup? x = some v → (Expr.var x).evalWith call env s = (.ok v, s)
  /-- A `let` evaluates its body with the value bound as it is, unless it is recursive and the value
  a closure. -/
  letBound : ∀ (call : Value κ → Value κ → Run κ σ (Value κ)) {rec : Bool} {x : String}
    {e b : Expr} {env : Env κ} {v : Value κ} {s s₁ : Run.State κ σ},
    s.context.isInterrupted s.store = false → e.evalWith call env s = (.ok v, s₁) →
    (rec = false ∨ ∀ c, v ≠ .closure c) →
    (Expr.letIn rec x e b).evalWith call env s =
      b.evalWith call (env.extend x v s₁.store).1
        { s₁ with store := (env.extend x v s₁.store).2 }
  /-- In a call, the parameter means the argument and the self name the closure. -/
  called : ∀ (c : Closure κ) (arg : Value κ) (t : Store σ) (x : String),
    (c.callEnv arg t).1.lookup? x =
      if c.param = x then some arg
      else if c.selfName = some x then some (.closure c) else c.env.lookup? x
  /-- A call ends in what the body ends in. -/
  returned : ∀ (evalBody : Expr → Env κ → Run κ σ (Value κ)) (c : Closure κ) (arg : Value κ)
    {s : Run.State κ σ}, s.context.depth < s.context.limit →
    ((Value.closure c).callWith host evalBody arg s).1 =
      (evalBody c.body (c.callEnv arg s.store).1 (s.inside c arg)).1
  /-- In a closure that was tied to another name, the old self name means the closure that went by
  it. -/
  tied : ∀ (c : Closure κ) (name : String) (t : Store σ) (x : String),
    (c.tie name t).1.env.lookup? x =
      if c.selfName = some x then some (.closure c) else c.env.lookup? x

theorem Host.handsOn (host : Host κ σ) : host.HandsOn where
  bound _ _ _ _ _ := rfl
  lookedUp _ := Expr.evalWith_var
  letBound _ {rec x e b env v s s₁} hs he hplain :=
    Expr.evalWith_letIn hs he (Value.bound_plain hplain x s₁)
  called c arg t x := by
    show (if c.param = x then some arg else (c.selfEnv t).1.lookup? x) = _
    rw [c.lookup?_selfEnv]
  returned evalBody c arg {s} hroom := by rw [Value.callWith_closure host evalBody c arg hroom]
  tied c name t x := c.lookup?_selfEnv t x

/-! ### The law -/

theorem Operator.equality_same {u v w : Value κ} (h : Operator.equality.apply u v = .ok w) :
    w = .bool (u.same v) := by
  cases u <;> cases v <;> cases h <;> rfl

/-- **Identity is sound and fresh.**  Equality of values is an equivalence, and the operator for it
answers no other.  Whatever was done with environments and values, from the time when there were
none, those that are the same are equal, those that were made at different times are not the same,
and no closure can be got at from what it has captured.  What an evaluation makes is told by an
evaluation that lists it, and values are handed on as they are. -/
theorem identity_sound_and_fresh {host : Host κ σ} (ledger : host.Ledger) {store : Store σ}
    (hstore : ledger.kept store.host = []) (history : List (World.Action κ)) :
    (Equivalence fun u v : Value κ => u.same v = true) ∧
      (World.after ledger store history).Sound ∧
      (∀ (e : Expr) (env : Env κ), (e.evalMaking ledger env).run = e.eval host env) ∧
      host.HandsOn ∧
      ∀ u v w : Value κ, Operator.equality.apply u v = .ok w → w = .bool (u.same v) :=
  ⟨Value.same_equivalence, (World.after_kept ledger hstore history).sound, evalMaking_run ledger,
    host.handsOn, fun _ _ _ => Operator.equality_same⟩

/-! ### Stock functions -/

/-- What a call of a stock function makes: nothing, unless it is to yield a function that waits for
a second string. -/
def Stock.made (code : Stock) (_captured : Env Stock) (arg : Value Stock) (t : Store Stock.Counts) :
    List (Object Stock) :=
  match code with
  | .pair name =>
    let (captured, t) := Env.empty.extend Stock.first arg t
    [.value (.builtin (Builtin.make (name ++ "'") (.host .join) captured t).1), .chain captured]
  | _ => []

/-- The stock functions keep no objects. -/
def Stock.ledger : Stock.host.Ledger where
  kept _ := []
  made := Stock.made
  honest {known t} code {captured arg} h hcaptured harg := by
    cases code with
    | identity => exact ⟨h, harg⟩
    | negate => exact ⟨h, Operator.apply_in .subtract (.inl rfl) harg⟩
    | fail => exact ⟨h, fun v hv => List.mem_singleton.mp hv ▸ harg⟩
    | pair name =>
        have hempty : Env.empty.In known := .inl rfl
        have hframe := h.new (.frame hempty harg Stock.first)
        have hbuiltin := hframe.new
          (.builtin (.inr List.mem_cons_self) (name ++ "'") (.host .join))
        exact ⟨hbuiltin, .inr List.mem_cons_self⟩
    | join =>
        simp only [Stock.host, Stock.call, Stock.made, List.nil_append]
        cases hfirst : captured.lookup? Stock.first with
        | none => exact ⟨h, fun v hv => by cases hv⟩
        | some a => exact ⟨h, Operator.apply_in .concat (h.lookup hcaptured hfirst) harg⟩
    | stop cell flag after =>
        rw [Stock.call_stop]
        refine ⟨⟨h.made.later ?_, fun p hp => by cases hp⟩, harg⟩
        split
        · exact Nat.le_refl _
        · exact Nat.le_refl _

/-- A builtin is made and bound, an expression that ties a closure is evaluated twice, then one that
calls the builtin twice, and the builtin is looked up. -/
def World.twice : List (World.Action Stock) :=
  let tie : Expr := .letIn true "f" (.lam "x" none (.var "x")) (.var "f")
  let call : Expr := .app (.var "p") (.str "a")
  let context : Context := ⟨5, 0, 0⟩
  [.lookup 0 "p", .eval 0 call context, .eval 0 call context, .eval 0 tie context,
    .eval 0 tie context, .defineBuiltin 0 0, .builtin "p" (.host (.pair "p")) 0, .new,
    .other 1 fun _ => false]

/-- The builtin that was looked up is the one that was made.  The closures show alike, and so do the
builtins that the calls have made, but none of them is the same as another. -/
theorem identity_sound_and_fresh_twice :
    let w := World.after Stock.ledger (.initial fun _ => 0) World.twice
    w.values.map Value.render = ["<builtin p>", "<closure \\x>", "<closure \\x>", "<builtin p'>",
        "<builtin p'>", "<builtin p>"] ∧
      w.values.map (fun u => w.values.map u.same) =
        [[true, false, false, false, false, true], [false, true, false, false, false, false],
          [false, false, true, false, false, false], [false, false, false, true, false, false],
          [false, false, false, false, true, false], [true, false, false, false, false, true]] ∧
      w.Sound := by
  intro w
  exact ⟨by decide +kernel, by decide +kernel,
    (identity_sound_and_fresh Stock.ledger rfl World.twice).2.1⟩

end EagerLambda
