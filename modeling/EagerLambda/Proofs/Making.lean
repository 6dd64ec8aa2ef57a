import EagerLambda.Proofs.Machines
import Mathlib.Data.List.Nodup
import Mathlib.Logic.Relation

/-!
# Making — what an evaluation makes

Closures, builtins and frames are made one at a time, each out of what is there already, and each
takes the next identity.  `Made made t` says that `made` is all that was made in this way by the
time of the store `t`, the latest first.  It follows that no two of them are the same
(`Made.eq_of_same`), and that whatever one of them holds was made before it (`Made.holds`).  So
nothing can be got at from what it holds itself.

A run does not tell what it makes: much of it is gone by the end.  `Making` is a run together with
the list of what it makes.  It is a machine, and `Expr.evalMaking` is evaluation by it.  Without the
list it is evaluation (`evalMaking_run`).
-/

namespace EagerLambda

variable {κ σ α β : Type}

/-! ### What values are compared by -/

/-- What values are compared by: closures and builtins by their identity, all others by what they
are. -/
def Value.key : Value κ → Int64 ⊕ Bool ⊕ String ⊕ Nat ⊕ Nat
  | .int n     => .inl n
  | .bool b    => .inr (.inl b)
  | .str s     => .inr (.inr (.inl s))
  | .closure c => .inr (.inr (.inr (.inl c.id)))
  | .builtin b => .inr (.inr (.inr (.inr b.id)))

theorem Value.same_iff {u v : Value κ} : u.same v = true ↔ u.key = v.key := by
  cases u <;> cases v <;> simp [Value.same, Value.key]

/-- **Equality of values** is an equivalence. -/
theorem Value.same_equivalence : Equivalence fun u v : Value κ => u.same v = true where
  refl _ := Value.same_iff.mpr rfl
  symm h := Value.same_iff.mpr (Value.same_iff.mp h).symm
  trans h h' := Value.same_iff.mpr ((Value.same_iff.mp h).trans (Value.same_iff.mp h'))

/-! ### Objects -/

/-- Something that can be held: a value, or a chain of frames. -/
inductive Object (κ : Type) where
  | value (v : Value κ)
  | chain (env : Env κ)

namespace Object

/-- How late the object was made.  It is zero for those that need no making, which are the words,
truth values and strings and the empty chain. -/
def rank : Object κ → Nat
  | .value (.closure c) => c.id + 1
  | .value (.builtin b) => b.id + 1
  | .chain (.frame id _ _ _) => id + 1
  | .value _ | .chain .empty => 0

/-- Whether two objects are the same value or the same chain. -/
def same : Object κ → Object κ → Bool
  | .value u, .value v => u.same v
  | .chain a, .chain b => a.sameChain b
  | _, _ => false

/-- What an object holds directly. -/
inductive Holds : Object κ → Object κ → Prop where
  | captured (c : Closure κ) : Holds (.value (.closure c)) (.chain c.env)
  | kept (b : Builtin κ) : Holds (.value (.builtin b)) (.chain b.captured)
  | bound {id : Nat} {name : String} {v : Value κ} {rest : Env κ} :
      Holds (.chain (.frame id name v rest)) (.value v)
  | rest {id : Nat} {name : String} {v : Value κ} {rest : Env κ} :
      Holds (.chain (.frame id name v rest)) (.chain rest)

/-- What can be got at from an object. -/
abbrev Reaches : Object κ → Object κ → Prop := Relation.ReflTransGen Holds

/-- The object is one of `made`, or needs no making. -/
def In (made : List (Object κ)) (p : Object κ) : Prop := p.rank = 0 ∨ p ∈ made

theorem same_self (p : Object κ) : p.same p = true := by
  cases p with
  | value v => exact Value.same_equivalence.refl v
  | chain env => exact beq_self_eq_true env.head?

theorem rank_eq_of_same {p q : Object κ} (h : p.same q = true) : p.rank = q.rank := by
  cases p with
  | value u =>
      cases q with
      | value v => cases u <;> cases v <;> simp_all [same, Value.same, rank]
      | chain b => cases h
  | chain a =>
      cases q with
      | value v => cases h
      | chain b => cases a <;> cases b <;> simp_all [same, Env.sameChain, Env.head?, rank]

/-- What needs no making is compared by what it is. -/
theorem eq_of_same_of_rank {p q : Object κ} (hp : p.rank = 0) (h : p.same q = true) : p = q := by
  cases p with
  | value u =>
      cases q with
      | value v => cases u <;> cases v <;> simp_all [same, Value.same, rank]
      | chain b => cases h
  | chain a =>
      cases q with
      | value v => cases h
      | chain b => cases a <;> cases b <;> simp_all [same, Env.sameChain, Env.head?, rank]

theorem In.append {made : List (Object κ)} {p : Object κ} (h : p.In made)
    (new : List (Object κ)) : p.In (new ++ made) :=
  h.imp_right (List.mem_append_right new)

end Object

/-- The value is one of `made`, or needs no making. -/
abbrev Value.In (made : List (Object κ)) (v : Value κ) : Prop := (Object.value v).In made

/-- The chain is one of `made`, or needs no making. -/
abbrev Env.In (made : List (Object κ)) (env : Env κ) : Prop := (Object.chain env).In made

theorem Value.In.of_not_callable {made : List (Object κ)} {v : Value κ}
    (h : v.isCallable = false) : v.In made := by
  cases v with
  | int n | bool b | str s => exact .inl rfl
  | closure c | builtin b => cases h

/-! ### Making one object after the other -/

/-- The object is new at the time of the store, and holds nothing but what is there already. -/
inductive New (made : List (Object κ)) (t : Store σ) : Object κ → Prop where
  | frame {env : Env κ} {v : Value κ} (henv : env.In made) (hv : v.In made) (name : String) :
      New made t (.chain (env.extend name v t).1)
  | closure {env : Env κ} (henv : env.In made) (param : String) (body : Expr)
      (selfName : Option String) :
      New made t (.value (.closure (Closure.make env param body selfName t).1))
  | builtin {captured : Env κ} (hcaptured : captured.In made) (name : String) (code : Code κ) :
      New made t (.value (.builtin (Builtin.make name code captured t).1))

/-- All that was made by the time of the store, the latest first.  Other things can happen in
between, and they can take identities too. -/
inductive Made : List (Object κ) → Store σ → Prop where
  | nothing (t : Store σ) : Made [] t
  | new {made : List (Object κ)} {t : Store σ} {p : Object κ} (h : Made made t)
      (hp : New made t p) : Made (p :: made) (t.taken 1)
  | later {made : List (Object κ)} {t t' : Store σ} (h : Made made t) (ht : t.next ≤ t'.next) :
      Made made t'

section

variable {made : List (Object κ)} {t : Store σ} {p q : Object κ}

theorem New.rank_eq (h : New made t p) : p.rank = t.next + 1 := by
  cases h with
  | frame | closure | builtin => rfl

theorem New.holds (h : New made t p) (hq : p.Holds q) : q.In made := by
  cases h with
  | frame henv hv =>
      cases hq with
      | bound => exact hv
      | rest => exact henv
  | closure henv => cases hq; exact henv
  | builtin hcaptured => cases hq; exact hcaptured

namespace Made

/-- All objects were made before now. -/
theorem rank_le (h : Made made t) (hp : p.In made) : p.rank ≤ t.next := by
  rcases hp with hp | hp
  · exact hp ▸ Nat.zero_le _
  · induction h with
    | nothing => cases hp
    | new h hnew ih =>
        rcases List.mem_cons.mp hp with rfl | hp
        · exact Nat.le_of_eq hnew.rank_eq
        · exact Nat.le_succ_of_le (ih hp)
    | later h ht ih => exact Nat.le_trans (ih hp) ht

/-- Each object was made after those that stand behind it. -/
theorem ranks (h : Made made t) : made.Pairwise fun p q => q.rank < p.rank := by
  induction h with
  | nothing => exact .nil
  | new h hnew ih =>
      refine .cons (fun q hq => ?_) ih
      rw [hnew.rank_eq]
      exact Nat.lt_succ_of_le (h.rank_le (.inr hq))
  | later h ht ih => exact ih

/-- **What an object holds** was made before it. -/
theorem holds (h : Made made t) (hp : p.In made) (hq : p.Holds q) :
    q.In made ∧ q.rank < p.rank := by
  rcases hp with hp | hp
  · -- what needs no making holds nothing
    cases hq with
    | captured | kept | bound | rest => cases hp
  · induction h with
    | nothing => cases hp
    | new h hnew ih =>
        rcases List.mem_cons.mp hp with rfl | hp
        · have hin := hnew.holds hq
          rw [hnew.rank_eq]
          exact ⟨hin.append [_], Nat.lt_succ_of_le (h.rank_le hin)⟩
        · exact ⟨(ih hp).1.append [_], (ih hp).2⟩
    | later h ht ih => exact ih hp

/-- **What can be got at** from an object was made, and not after it. -/
theorem reaches (h : Made made t) (hp : p.In made) (hq : p.Reaches q) :
    q.In made ∧ q.rank ≤ p.rank := by
  induction hq with
  | refl => exact ⟨hp, Nat.le_refl _⟩
  | tail _ hlast ih =>
      obtain ⟨hin, hlt⟩ := h.holds ih.1 hlast
      exact ⟨hin, Nat.le_trans (Nat.le_of_lt hlt) ih.2⟩

/-- **No two objects are the same.** -/
theorem pairwise_not_same (h : Made made t) : made.Pairwise fun p q => p.same q = false :=
  h.ranks.imp fun hlt => Bool.eq_false_iff.mpr fun hsame =>
    Nat.ne_of_gt hlt (Object.rank_eq_of_same hsame)

theorem eq_of_same (h : Made made t) (hp : p.In made) (hq : q.In made) (hsame : p.same q = true) :
    p = q := by
  have hrank := Object.rank_eq_of_same hsame
  rcases hp with hp | hp
  · exact Object.eq_of_same_of_rank hp hsame
  · rcases hq with hq | hq
    · exact Object.eq_of_same_of_rank (hrank.trans hq) hsame
    · have hnodup : (made.map Object.rank).Nodup :=
        List.pairwise_map.mpr (h.ranks.imp Nat.ne_of_gt)
      exact List.inj_on_of_nodup_map hnodup hp hq hrank

end Made

end

/-- What is looked up can be got at. -/
theorem Env.reaches_lookup {name : String} {v : Value κ} :
    ∀ {env : Env κ}, env.lookup? name = some v → (Object.chain env).Reaches (.value v)
  | .empty, hv => by cases hv
  | .frame _ bound value rest, hv => by
      simp only [Env.lookup?] at hv
      split at hv
      · cases hv
        exact .single .bound
      · exact .head .rest (Env.reaches_lookup hv)

/-! ### Functions of the host -/

/-- The values that an error shows. -/
def EvalError.values : EvalError κ → List (Value κ)
  | .notAFunction v | .nonBooleanCondition v | .invalidArgument _ _ v => [v]
  | .incompatibleOperands _ left right => [left, right]
  | _ => []

/-- The values that the error shows are of `made`, or need no making. -/
def EvalError.In (made : List (Object κ)) (e : EvalError κ) : Prop := ∀ v ∈ e.values, v.In made

/-- The result satisfies `V`, or the error shows values of `made`. -/
def Outcome.In (V : α → Prop) (made : List (Object κ)) : Except (EvalError κ) α → Prop
  | .ok a => V a
  | .error e => e.In made

/-- The values that an outcome shows. -/
def Outcome.values : Except (EvalError κ) (Value κ) → List (Value κ)
  | .ok v => [v]
  | .error e => e.values

theorem Outcome.In.values {made : List (Object κ)} {out : Except (EvalError κ) (Value κ)}
    (h : Outcome.In (Value.In made) made out) : ∀ v ∈ Outcome.values out, v.In made := by
  cases out with
  | ok u => exact fun v hv => List.mem_singleton.mp hv ▸ h
  | error e => exact h

/-- `known` is all that was made by the time of the store, what the host keeps there included. -/
structure Covers (kept : σ → List (Object κ)) (known : List (Object κ)) (t : Store σ) : Prop where
  made : Made known t
  kept : ∀ p ∈ kept t.host, p.In known

/-- An account of what the functions of the host make.  They can keep objects for later and make new
ones, but in no other way than everybody: one at a time and out of what is there. -/
structure Host.Ledger (host : Host κ σ) where
  /-- The objects in what the host keeps. -/
  kept : σ → List (Object κ)
  /-- The objects that a call makes, the latest first. -/
  made : κ → Env κ → Value κ → Store σ → List (Object κ)
  honest : ∀ {known : List (Object κ)} {t : Store σ} (code : κ) {captured : Env κ} {arg : Value κ},
    Covers kept known t → captured.In known → arg.In known →
      let out := host.call code captured arg t
      let known := made code captured arg t ++ known
      Covers kept known out.2 ∧ Outcome.In (Value.In known) known out.1

/-! ### Runs that list what they make -/

/-- A run, and for every state it can start in the list of the objects that it makes from there, the
latest first. -/
structure Making (κ σ α : Type) where
  run : Run κ σ α
  made : Run.State κ σ → List (Object κ)

namespace Making

/-- A run that makes nothing. -/
def lift (x : Run κ σ α) : Making κ σ α := ⟨x, fun _ => []⟩

protected def bind (x : Making κ σ α) (f : α → Making κ σ β) : Making κ σ β where
  run := x.run >>= fun a => (f a).run
  made s :=
    match x.run s with
    | (.ok a, s')    => (f a).made s' ++ x.made s
    | (.error _, _) => x.made s

instance : Monad (Making κ σ) where
  pure a := lift (pure a)
  bind := Making.bind

/-- Bind a name in a new frame. -/
def extend (env : Env κ) (name : String) (v : Value κ) : Making κ σ (Env κ) where
  run := Run.alloc (env.extend name v)
  made s := [.chain (env.extend name v s.store).1]

/-- A new closure. -/
def closure (env : Env κ) (param : String) (body : Expr) (selfName : Option String) :
    Making κ σ (Closure κ) where
  run := Run.alloc (Closure.make env param body selfName)
  made s := [.value (.closure (Closure.make env param body selfName s.store).1)]

/-- Run `x`, then count one call less. -/
def leaving (x : Making κ σ α) : Making κ σ α := ⟨Run.leaving x.run, x.made⟩

end Making

/-- `Closure.selfEnv`, with a list of what it makes. -/
def Closure.selfEnvMaking (c : Closure κ) : Making κ σ (Env κ) :=
  match c.selfName with
  | some name => .extend c.env name (.closure c)
  | none      => pure c.env

/-- `Closure.tie`, with a list of what it makes. -/
def Closure.tieMaking (c : Closure κ) (name : String) : Making κ σ (Closure κ) := do
  let env ← c.selfEnvMaking
  .closure env c.param c.body (some name)

/-- `Closure.callEnv`, with a list of what it makes. -/
def Closure.callEnvMaking (c : Closure κ) (arg : Value κ) : Making κ σ (Env κ) := do
  let env ← c.selfEnvMaking
  .extend env c.param arg

instance : Machine κ (Making κ σ) where
  poll kind := .lift (Run.poll kind)
  fail e := .lift (Run.fail e)
  record event := .lift (Run.record event)
  operate op left right := .lift (Run.ofExcept (op.apply left right))
  close env param body := .closure env param body none
  tie := Closure.tieMaking
  extend := .extend
  enter c arg evalBody := do
    let depth ← .lift Run.enter
    .leaving do
      .lift (Run.record (.closureCall c.param arg depth))
      let env ← c.callEnvMaking arg
      evalBody env
  overflow := .lift Run.overflow

section

variable {host : Host κ σ} (ledger : host.Ledger)

/-- Run a builtin and list what it makes. -/
def Builtin.runMaking (b : Builtin κ) (arg : Value κ) : Making κ σ (Value κ) where
  run := b.run host arg
  made s :=
    match b.code with
    | .intrinsic _ => []
    | .host code   => ledger.made code b.captured arg s.store

/-- Evaluate an expression and list what is made. -/
def Expr.evalMaking (e : Expr) (env : Env κ) : Making κ σ (Value κ) where
  run s := (e.evalWith (Machine.callAt (Builtin.runMaking ledger) s.context.room) env).run s
  made s := (e.evalWith (Machine.callAt (Builtin.runMaking ledger) s.context.room) env).made s

end

/-! ### Without the list it is evaluation -/

namespace Making

/-- Sequences of runs. -/
theorem run_bind {x : Making κ σ α} {y : Run κ σ α} {f : α → Making κ σ β} {g : α → Run κ σ β}
    (hx : x.run = y) (hf : ∀ a, (f a).run = g a) : (x >>= f).run = y >>= g := by
  subst hx
  exact congrArg (x.run >>= ·) (funext hf)

end Making

theorem Closure.selfEnvMaking_run (c : Closure κ) :
    (c.selfEnvMaking : Making κ σ (Env κ)).run = Run.alloc c.selfEnv := by
  unfold Closure.selfEnvMaking Closure.selfEnv
  cases c.selfName with
  | none | some => rfl

/-- What the machine that lists does at each step is what runs do. -/
theorem Making.related :
    Machine.Related (m := Making κ σ) (n := Run κ σ) fun _ x y => x.run = y where
  pure _ := rfl
  bind := run_bind
  poll _ := rfl
  fail _ := rfl
  record _ := rfl
  operate _ _ _ := rfl
  close _ _ _ := rfl
  tie c _ := run_bind c.selfEnvMaking_run fun _ => rfl
  extend _ _ _ := rfl
  enter c _ _ _ hf := run_bind rfl fun _ => congrArg Run.leaving <| run_bind rfl fun _ =>
    run_bind (run_bind c.selfEnvMaking_run fun _ => rfl) hf
  overflow := rfl

/-- **Evaluation that lists what it makes** is evaluation. -/
theorem evalMaking_run {host : Host κ σ} (ledger : host.Ledger) (e : Expr) (env : Env κ) :
    (e.evalMaking ledger env).run = e.eval host env := by
  funext s
  have hcall := Making.related.callAt (Builtin.runMaking ledger) (Builtin.run host)
    (fun _ _ => rfl) s.context.room
  exact congrFun (Making.related.evalWith _ _ (fun u v _ => hcall u v) e env) s

end EagerLambda
