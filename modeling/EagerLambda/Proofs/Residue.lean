import EagerLambda.Eval.Evaluator
import EagerLambda.Proofs.Adequacy
import EagerLambda.Proofs.Cutoff

/-!
# Residue — evaluations leave none

A context is used for one evaluation after the other, and its flag is raised and lowered in between.
With pure functions of the host (`Host.Pure`), no evaluation leaves anything behind that a later one
could notice: neither a call that is still counted, nor a change of the limit or of a flag.  Each
evaluation goes as it would on a context that was never used before
(`evaluations_leave_no_residue`).

Two things are compared side by side.  The one is an evaluation on the used context, which is
watched: around every call and every body of a closure it is looked whether the depth is where it
should be, and if not, an alarm goes off that may do anything (`Expr.evalWatched`).  The other is an
evaluation on the unused context, which is not watched.  That their outcomes and traces are equal
says that the alarm does not go off, and that nothing but the limit, the depth and the state of the
flag matters.

Nothing is cut short here: the comparison (`beside`) is a cutoff that never cuts.
-/

namespace EagerLambda

variable {κ σ α : Type}

/-! ### Pure functions -/

/-- The values that the error mentions hold no functions of the host but those in `Q`. -/
def EvalError.Within (Q : κ → Prop) : EvalError κ → Prop
  | .notAFunction v | .nonBooleanCondition v | .invalidArgument _ _ v => v.Within Q
  | .incompatibleOperands _ l r => l.Within Q ∧ r.Within Q
  | _ => True

/-- A value or an error that holds no functions of the host but those in `Q`. -/
def Outcome.Within (Q : κ → Prop) : Except (EvalError κ) (Value κ) → Prop
  | .ok v => v.Within Q
  | .error e => e.Within Q

/-- The functions in `Q` are pure.  What they answer depends on what they have captured, on their
argument and on the next identity, and on nothing else; they take identities, and change nothing
else; and no other functions than those in `Q` come from them. -/
def Host.Pure (host : Host κ σ) (Q : κ → Prop) : Prop :=
  ∀ code captured arg, Q code → captured.Within Q → arg.Within Q →
    ∃ (answer : Nat → Except (EvalError κ) (Value κ)) (count : Nat → Nat),
      (∀ t, host.call code captured arg t = (answer t.next, t.taken (count t.next))) ∧
        ∀ next, Outcome.Within Q (answer next)

theorem Operator.within_apply {Q : κ → Prop} (op : Operator) {l r : Value κ} (hl : l.Within Q)
    (hr : r.Within Q) : Outcome.Within Q (op.apply l r) := by
  have hans := op.apply_answer l r
  generalize op.apply l r = out at hans
  cases hans with
  | base _ hv => exact Value.every_of_not_callable hv
  | incompatible => exact ⟨hl, hr⟩
  | byZero | overflow => trivial

/-- All stock functions are pure but the one that raises a flag. -/
def Stock.IsPure : Stock → Prop
  | .stop _ _ _ => False
  | _ => True

theorem Stock.host_pure : Stock.host.Pure Stock.IsPure := by
  intro code captured arg hcode hcaptured harg
  cases code with
  | identity => exact ⟨fun _ => .ok arg, fun _ => 0, fun _ => rfl, fun _ => harg⟩
  | negate =>
      exact ⟨fun _ => Operator.subtract.apply (.int 0) arg, fun _ => 0, fun _ => rfl,
        fun _ => Operator.subtract.within_apply trivial harg⟩
  | fail => exact ⟨fun _ => .error (.notAFunction arg), fun _ => 0, fun _ => rfl, fun _ => harg⟩
  | pair name =>
      exact ⟨fun next => .ok (.builtin ⟨next + 1, name ++ "'", .host .join,
        .frame next Stock.first arg .empty⟩), fun _ => 2, fun _ => rfl,
        fun _ => ⟨trivial, harg, trivial⟩⟩
  | join =>
      simp only [Stock.host, Stock.call]
      cases hfirst : captured.lookup? Stock.first with
      | none =>
          exact ⟨fun _ => .error (.unboundVariable Stock.first), fun _ => 0, fun _ => rfl,
            fun _ => trivial⟩
      | some a =>
          exact ⟨fun _ => Operator.concat.apply a arg, fun _ => 0, fun _ => rfl,
            fun _ => Operator.concat.within_apply (hcaptured.lookup hfirst) harg⟩
  | stop cell flag after => exact hcode.elim

/-! ### Watched evaluation -/

namespace Run

/-- Do nothing if the depth is between `low` and `high`, and sound the alarm if it is not. -/
def watch (low high : Nat) (alarm : Run κ σ Unit) : Run κ σ Unit := fun s =>
  if low ≤ s.context.depth ∧ s.context.depth ≤ high then (.ok (), s) else alarm s

/-- Run `x`, with `look` before it and after it, however it ends. -/
def watched (look : Run κ σ Unit) (x : Run κ σ α) : Run κ σ α := do
  look
  fun s => (do look; ofExcept (x s).1) (x s).2

/-- As long as there is nothing to see, watching makes no difference. -/
theorem watched_eq {look : Run κ σ Unit} {x : Run κ σ α} {s : State κ σ}
    (hbefore : look s = (.ok (), s)) (hafter : look (x s).2 = (.ok (), (x s).2)) :
    watched look x s = x s :=
  (bind_ok hbefore).trans (bind_ok hafter)

end Run

/-- Apply one value to another, with `look` before and after every call and, inside the calls of
closures, before and after the body. -/
def callWatchedAt (host : Host κ σ) (look : Run κ σ Unit) :
    Nat → Value κ → Value κ → Run κ σ (Value κ)
  | 0 => fun f arg => Run.watched look (f.callWith host (fun _ _ => Run.overflow) arg)
  | room + 1 => fun f arg => Run.watched look
      (f.callWith host
        (fun body env => Run.watched look (body.evalWith (callWatchedAt host look room) env)) arg)

/-- Evaluate an expression, with `look` before and after it, every call and every body. -/
def Expr.evalWatched (host : Host κ σ) (look : Run κ σ Unit) (e : Expr) (env : Env κ) :
    Run κ σ (Value κ) := fun s =>
  Run.watched look (e.evalWith (callWatchedAt host look s.context.room) env) s

/-! ### Two contexts side by side -/

/-- The state that `s` has become when the depth is `depth`, the next identity `next` and the log
`log`.  Nothing else has changed. -/
def Run.State.later (s : Run.State κ σ) (depth next : Nat) (log : List (Event κ)) :
    Run.State κ σ :=
  ⟨{ s.context with depth }, { s.store with next }, log⟩

/-- Runs that have started in `s₀` beside runs that have started in `t₀`, with functions of the host
in `Q`. -/
def beside (s₀ t₀ : Run.State κ σ) (Q : κ → Prop) : Cutoff κ σ where
  value v w := v = w ∧ v.Within Q
  env env env' := env = env' ∧ env.Within Q
  state d s t := ∃ next log, s = s₀.later d next log ∧ t = t₀.later d next log
  error := .interrupted
  cut _ _ := False

section

variable {s₀ t₀ : Run.State κ σ} {Q : κ → Prop} {host : Host κ σ} {d : Nat}

theorem beside_poll
    (hflag : s₀.context.isInterrupted s₀.store = t₀.context.isInterrupted t₀.store) (d : Nat)
    (kind : Kind) :
    Run.Until (beside s₀ t₀ Q) d (fun _ _ => True) (Run.poll kind) (Run.poll kind) := by
  rintro _ _ ⟨next, log, rfl, rfl⟩
  have hs : (s₀.later d next log).context.isInterrupted (s₀.later d next log).store =
      s₀.context.isInterrupted s₀.store := rfl
  have ht : (t₀.later d next log).context.isInterrupted (t₀.later d next log).store =
      s₀.context.isInterrupted s₀.store := hflag.symm
  by_cases hraised : s₀.context.isInterrupted s₀.store = true
  · rw [Run.poll, Run.poll, if_pos (hs.trans hraised), if_pos (ht.trans hraised)]
    exact .inl ⟨.error .interrupted, next, .interrupted kind :: log, rfl, rfl⟩
  · rw [Run.poll, Run.poll, if_neg (hs ▸ hraised), if_neg (ht ▸ hraised)]
    exact .inl ⟨.ok trivial, next, log, rfl, rfl⟩

theorem Value.beside_faithful : Value.Faithful (beside s₀ t₀ Q).value where
  base hv := ⟨rfl, Value.every_of_not_callable hv⟩
  eq h _ := h.1
  tag h := congrArg Value.tag h.1
  render h := congrArg Value.render h.1

theorem Outcome.Within.like {r : Except (EvalError κ) (Value κ)} (h : Outcome.Within Q r) :
    Outcome.Like (beside s₀ t₀ Q).value (beside s₀ t₀ Q).value r r := by
  cases r with
  | ok v => exact .ok ⟨rfl, h⟩
  | error e =>
      refine .error ?_
      cases e with
      | unboundVariable x => exact .unboundVariable x
      | notAFunction v => exact .notAFunction ⟨rfl, h⟩
      | nonBooleanCondition v => exact .nonBooleanCondition ⟨rfl, h⟩
      | incompatibleOperands op l r => exact .incompatibleOperands op ⟨rfl, h.1⟩ ⟨rfl, h.2⟩
      | divisionByZero op => exact .divisionByZero op
      | integerOverflow op => exact .integerOverflow op
      | invalidArgument name expected v => exact .invalidArgument name expected ⟨rfl, h⟩
      | emptyString name => exact .emptyString name
      | invalidCharCode n => exact .invalidCharCode n
      | stackOverflow depth limit => exact .stackOverflow depth limit
      | interrupted => exact .interrupted

/-- A pure function answers the same in both runs, and takes the same identities. -/
theorem beside_builtin (hpure : host.Pure Q) {b : Builtin κ} {v : Value κ}
    (hb : (Value.builtin b).Within Q) (hv : v.Within Q) :
    Run.Until (beside s₀ t₀ Q) d (beside s₀ t₀ Q).value (b.run host v) (b.run host v) := by
  rintro _ _ ⟨next, log, rfl, rfl⟩
  cases hcode : b.code with
  | intrinsic i =>
      rw [Builtin.run_intrinsic host hcode, Builtin.run_intrinsic host hcode]
      exact .inl ⟨i.apply_like Value.beside_faithful.toKindred ⟨rfl, hv⟩, next,
        .builtinCall b.name v :: log, rfl, rfl⟩
  | host code =>
      obtain ⟨hQ, hcaptured⟩ := Builtin.Every.of_host hb hcode
      obtain ⟨answer, count, hcall, hwithin⟩ := hpure code b.captured v hQ hcaptured hv
      rw [Builtin.run_host host hcode, Builtin.run_host host hcode, hcall, hcall]
      exact .inl ⟨(hwithin next).like, next + count next, .builtinCall b.name v :: log, rfl, rfl⟩

theorem beside_lawful (hpure : host.Pure Q)
    (hflag : s₀.context.isInterrupted s₀.store = t₀.context.isInterrupted t₀.store) :
    (beside s₀ t₀ Q).Lawful host where
  faithful := Value.beside_faithful
  lookup := by
    rintro env _ ⟨rfl, henv⟩ x
    cases hx : env.lookup? x with
    | none => exact .none
    | some v => exact .some ⟨rfl, henv.lookup hx⟩
  frame := by
    rintro env _ v _ ⟨rfl, henv⟩ ⟨rfl, hv⟩ id x
    exact ⟨rfl, hv, henv⟩
  closure_iff := by
    rintro ⟨id, x, b, self, env⟩ w
    constructor
    · rintro ⟨rfl, -, henv⟩
      exact ⟨env, rfl, rfl, henv⟩
    · rintro ⟨_, rfl, rfl, henv⟩
      exact ⟨rfl, trivial, henv⟩
  depth := by
    rintro d _ _ ⟨next, log, rfl, rfl⟩
    exact ⟨rfl, rfl⟩
  next := by
    rintro d _ _ ⟨next, log, rfl, rfl⟩
    rfl
  taken := by
    rintro d _ _ ⟨next, log, rfl, rfl⟩ n
    exact ⟨next + n, log, rfl, rfl⟩
  record := by
    rintro d _ _ event event' ⟨next, log, rfl, rfl⟩ hevent -
    obtain rfl := hevent.eq fun _ _ h => h.1
    exact ⟨next, event :: log, rfl, rfl⟩
  deeper := by
    rintro d _ _ ⟨next, log, rfl, rfl⟩ -
    exact ⟨next, log, rfl, rfl⟩
  leave := by
    rintro d _ _ ⟨next, log, rfl, rfl⟩
    exact ⟨next, log, rfl, rfl⟩
  poll := beside_poll hflag
  builtin := by
    rintro d b _ v _ ⟨hb, hwithin⟩ ⟨rfl, hv⟩
    obtain rfl : b = _ := by injection hb
    exact beside_builtin hpure hwithin hv
  cut_mono h := h.elim
  cut_leave h := h

/-- A call at the limit is refused in both runs. -/
theorem beside_overflow (hlimit : s₀.context.limit = t₀.context.limit) {s t : Run.State κ σ}
    (hst : (beside s₀ t₀ Q).state d s t) :
    (beside s₀ t₀ Q).Ends d (beside s₀ t₀ Q).value (Run.overflow s) (Run.overflow t) := by
  obtain ⟨next, log, rfl, rfl⟩ := hst
  have ht : (t₀.later d next log).context.limit = s₀.context.limit := hlimit.symm
  rw [Run.overflow, Run.overflow, ht]
  exact .inl ⟨.error (.stackOverflow d s₀.context.limit), next,
    .limitReached d s₀.context.limit :: log, rfl, rfl⟩

/-- The first run may be watched, if there is nothing to see at its depth. -/
theorem beside_watched {look : Run κ σ Unit}
    (hlook : ∀ next log, look (s₀.later d next log) = (.ok (), s₀.later d next log))
    {x y : Run κ σ (Value κ)} (h : Run.Until (beside s₀ t₀ Q) d (beside s₀ t₀ Q).value x y) :
    Run.Until (beside s₀ t₀ Q) d (beside s₀ t₀ Q).value (Run.watched look x) y := by
  rintro s t hst
  rcases h s t hst with ⟨hout, hst'⟩ | ⟨-, hcut⟩
  · obtain ⟨next, log, hs, -⟩ := hst
    obtain ⟨next', log', hs', ht'⟩ := hst'
    have hbefore : look s = (.ok (), s) := by
      rw [hs]
      exact hlook next log
    have hafter : look (x s).2 = (.ok (), (x s).2) := by
      rw [hs']
      exact hlook next' log'
    rw [Run.watched_eq hbefore hafter]
    exact .inl ⟨hout, next', log', hs', ht'⟩
  · exact hcut.elim

/-- **Calls.**  From the depth `low` on, the depth of a watched call stays below `high`, if neither
the present depth nor the limit is above that. -/
theorem callWatchedAt_beside (hpure : host.Pure Q)
    (hflag : s₀.context.isInterrupted s₀.store = t₀.context.isInterrupted t₀.store)
    (hlimit : s₀.context.limit = t₀.context.limit) {low high : Nat}
    (hhigh : s₀.context.limit ≤ high) {look : Run κ σ Unit}
    (hlook : ∀ d next log, low ≤ d → d ≤ high →
      look (s₀.later d next log) = (.ok (), s₀.later d next log)) (room : Nat) :
    ∀ d, low ≤ d → d ≤ high → s₀.context.limit ≤ d + room → ∀ u u' v v',
      (beside s₀ t₀ Q).value u u' → (beside s₀ t₀ Q).value v v' →
        Run.Until (beside s₀ t₀ Q) d (beside s₀ t₀ Q).value (callWatchedAt host look room u v)
          (callAt host room u' v') := by
  have hlaw := beside_lawful hpure hflag
  -- at the limit it does not matter how bodies would be evaluated
  have hfull {d : Nat} (hle : s₀.context.limit ≤ d)
      (evalBody evalBody' : Expr → Env κ → Run κ σ (Value κ)) (c c' : Closure κ) (v v' : Value κ) :
      Run.Until (beside s₀ t₀ Q) d (beside s₀ t₀ Q).value
        ((Value.closure c).callWith host evalBody v)
        ((Value.closure c').callWith host evalBody' v') := by
    intro s t hst
    obtain ⟨next, log, rfl, rfl⟩ := id hst
    have hle' : t₀.context.limit ≤ d := hlimit ▸ hle
    rw [Value.callWith_closure_full host _ c v hle, Value.callWith_closure_full host _ c' v' hle']
    exact beside_overflow hlimit hst
  induction room with
  | zero =>
      intro d hlow hd hroom u u' v v' hu hv
      refine beside_watched (fun next log => hlook d next log hlow hd) ?_
      exact hlaw.callWith (fun c c' v v' _ _ => hfull hroom _ _ c c' v v') u u' v v' hu hv
  | succ room ih =>
      intro d hlow hd hroom u u' v v' hu hv
      refine beside_watched (fun next log => hlook d next log hlow hd) ?_
      refine hlaw.callWith (fun c c' v v' hc hv s t hst => ?_) u u' v v' hu hv
      by_cases hlt : d < s₀.context.limit
      · obtain ⟨next, log, rfl, rfl⟩ := id hst
        refine hlaw.closure_within (fun e env env' henv => ?_) hc hv hst hlt (hlimit ▸ hlt)
        refine beside_watched (fun next log => hlook (d + 1) next log (by omega) (by omega)) ?_
        exact hlaw.evalWith (ih (d + 1) (by omega) (by omega) (by omega)) (callAt_adds host room)
          e env env' henv
      · exact hfull (Nat.le_of_not_lt hlt) _ _ c c' v v' s t hst

end

/-- **Expressions.**  From states with the same limit, depth, log and next identity and with both
flags raised or both down, watched evaluation and evaluation end alike.  Neither changes anything
but the log and the next identity. -/
theorem eval_beside {host : Host κ σ} {Q : κ → Prop} (hpure : host.Pure Q) {s t : Run.State κ σ}
    (hlimit : s.context.limit = t.context.limit) (hdepth : s.context.depth = t.context.depth)
    (hflag : s.context.isInterrupted s.store = t.context.isInterrupted t.store)
    (hnext : s.store.next = t.store.next) (hlog : s.log = t.log) {env : Env κ}
    (henv : env.Within Q) (e : Expr) (alarm : Run κ σ Unit) :
    ∃ r next log,
      e.evalWatched host
          (Run.watch s.context.depth (max s.context.depth s.context.limit) alarm) env s =
        (r, s.later s.context.depth next log) ∧
      e.eval host env t = (r, t.later t.context.depth next log) := by
  let look := Run.watch s.context.depth (max s.context.depth s.context.limit) alarm
  have hlook (d next : Nat) (log : List (Event κ)) (hlow : s.context.depth ≤ d)
      (hhigh : d ≤ max s.context.depth s.context.limit) :
      look (s.later d next log) = (.ok (), s.later d next log) := if_pos ⟨hlow, hhigh⟩
  have hcall := callWatchedAt_beside hpure hflag hlimit (Nat.le_max_right _ _) hlook s.context.room
    s.context.depth (Nat.le_refl _) (Nat.le_max_left _ _) (by rw [Context.room]; omega)
  have hrun := beside_watched
    (fun next log => hlook _ next log (Nat.le_refl _) (Nat.le_max_left _ _))
    ((beside_lawful hpure hflag).evalWith hcall (callAt_adds host _) e env env ⟨rfl, henv⟩)
  have hroom : t.context.room = s.context.room := by rw [Context.room, Context.room, hlimit, hdepth]
  have ht : t = t.later s.context.depth s.store.next s.log := by rw [hdepth, hnext, hlog]; rfl
  rcases hrun s t ⟨s.store.next, s.log, rfl, ht⟩ with ⟨hout, next, log, hs', ht'⟩ | ⟨-, hcut⟩
  · refine ⟨_, next, log, Prod.ext rfl hs', ?_⟩
    rw [Expr.eval, hroom, ← hdepth]
    exact Prod.ext (hout.eq (fun _ _ h => h.1) fun _ _ h => h.1).symm ht'
  · exact hcut.elim

/-! ### One context, used again and again -/

/-- A context and the store in which its flag is. -/
structure Session (σ : Type) where
  context : Context
  store : Store σ

/-- The ways to evaluate an expression on a context. -/
inductive Way where
  /-- On its own. -/
  | bare
  /-- Recorded as a whole. -/
  | logged
  /-- By an evaluator that has the context. -/
  | evaluator

/-- Evaluate an expression. -/
def Way.run (host : Host κ σ) (env : Env κ) (e : Expr) (now : Session σ) :
    Way → Except (EvalError κ) (Value κ) × Run.State κ σ
  | .bare => e.eval host env (.start now.context now.store)
  | .logged => e.evalLogged host env (.start now.context now.store)
  | .evaluator =>
    let (result, ev, s) := Evaluator.eval host ⟨env, now.context⟩ e now.store
    (result, { s with context := ev.context })

/-- What is done with a context. -/
inductive Request (κ : Type) where
  /-- Evaluate an expression. -/
  | eval (way : Way) (env : Env κ) (e : Expr)
  /-- Raise the flag. -/
  | interrupt
  /-- Lower the flag. -/
  | reset

/-- The environment of a request to evaluate holds no functions of the host but those in `Q`. -/
def Request.Within (Q : κ → Prop) : Request κ → Prop
  | .eval _ env _ => env.Within Q
  | .interrupt | .reset => True

namespace Session

/-- What becomes of the context and the store. -/
def step (host : Host κ σ) (now : Session σ) : Request κ → Session σ
  | .eval way env e =>
    let out := way.run host env e now
    ⟨out.2.context, out.2.store⟩
  | .interrupt => ⟨now.context, (now.context.interrupt now.store).2⟩
  | .reset => ⟨now.context, (now.context.resetInterrupt now.store).2⟩

/-- The same for one request after the other. -/
def after (host : Host κ σ) (now : Session σ) (requests : List (Request κ)) : Session σ :=
  requests.foldl (step host) now

/-- Whether the flag is raised. -/
def isInterrupted (now : Session σ) : Bool := now.context.isInterrupted now.store

end Session

/-- Whether the flag is raised after the requests, if it is `up` before.  Only those to raise or
lower it count, and of those only the last. -/
def Request.flagAfter (up : Bool) : List (Request κ) → Bool
  | [] => up
  | .interrupt :: rest => flagAfter true rest
  | .reset :: rest => flagAfter false rest
  | .eval _ _ _ :: rest => flagAfter up rest

/-- The two sessions cannot be told apart by an evaluation: their contexts have the same limit and
depth and are both interrupted or both not, and the same identity is next. -/
structure Session.Alike (now fresh : Session σ) : Prop where
  limit : now.context.limit = fresh.context.limit
  depth : now.context.depth = fresh.context.depth
  flag : now.isInterrupted = fresh.isInterrupted
  next : now.store.next = fresh.store.next

theorem Session.Alike.refl (now : Session σ) : now.Alike now := ⟨rfl, rfl, rfl, rfl⟩

section

variable {host : Host κ σ} {Q : κ → Prop} {env : Env κ}

/-- An evaluation, in whichever way, ends alike on contexts that cannot be told apart.  It changes
nothing but the next identity. -/
theorem Way.run_alike (hpure : host.Pure Q) (henv : env.Within Q) (e : Expr) {now fresh : Session σ}
    (h : now.Alike fresh) (way : Way) :
    ∃ r next log,
      way.run host env e now = (r, ⟨now.context, { now.store with next }, log⟩) ∧
      way.run host env e fresh = (r, ⟨fresh.context, { fresh.store with next }, log⟩) := by
  -- each of the two is evaluation beside the same watched evaluation
  have heval (log : List (Event κ)) :
      ∃ r next log',
        e.eval host env ⟨now.context, now.store, log⟩ =
          (r, ⟨now.context, { now.store with next }, log'⟩) ∧
        e.eval host env ⟨fresh.context, fresh.store, log⟩ =
          (r, ⟨fresh.context, { fresh.store with next }, log'⟩) := by
    obtain ⟨r, next, log', hwatched, hfresh⟩ := eval_beside hpure
      (s := ⟨now.context, now.store, log⟩) (t := ⟨fresh.context, fresh.store, log⟩) h.limit h.depth
      h.flag h.next rfl henv e (pure ())
    obtain ⟨r', next', log'', hwatched', hnow⟩ := eval_beside hpure
      (s := ⟨now.context, now.store, log⟩) (t := ⟨now.context, now.store, log⟩) rfl rfl rfl rfl rfl
      henv e (pure ())
    rw [hwatched] at hwatched'
    cases hwatched'
    exact ⟨r, next, log', hnow, hfresh⟩
  have hlogged : ∃ r next log,
      e.evalLogged host env (.start now.context now.store) =
        (r, ⟨now.context, { now.store with next }, log⟩) ∧
      e.evalLogged host env (.start fresh.context fresh.store) =
        (r, ⟨fresh.context, { fresh.store with next }, log⟩) := by
    obtain ⟨r, next, log, hnow, hfresh⟩ := heval [.begun e.kind]
    refine ⟨r, next, Run.closing r ++ log, ?_, ?_⟩
    · rw [Expr.evalLogged_eq]
      exact congrArg Run.concluded hnow
    · rw [Expr.evalLogged_eq]
      exact congrArg Run.concluded hfresh
  cases way with
  | bare => exact heval []
  | logged => exact hlogged
  | evaluator => exact hlogged

/-- What a session that began as `start` is like: its context is the same, the flag of the context
is `up`, and nothing else has changed but the next identity. -/
structure Session.Since (start now : Session σ) (up : Bool) : Prop where
  context : now.context = start.context
  raised : now.store.raised = (start.store.setFlag start.context.flag up).raised
  host : now.store.host = start.store.host

namespace Session.Since

variable {start now : Session σ} {up : Bool}

theorem isInterrupted_eq (h : start.Since now up) : now.isInterrupted = up := by
  rw [Session.isInterrupted, Context.isInterrupted, h.context, h.raised]
  exact if_pos rfl

theorem self (start : Session σ) : start.Since start start.isInterrupted := by
  refine ⟨rfl, funext fun flag => ?_, rfl⟩
  simp only [Store.setFlag]
  split
  · next heq => rw [heq]; rfl
  · rfl

/-- Whether the flag was raised before it is set does not matter. -/
theorem setFlag (h : start.Since now up) (up' : Bool) :
    start.Since ⟨now.context, now.store.setFlag now.context.flag up'⟩ up' := by
  refine ⟨h.context, funext fun flag => ?_, h.host⟩
  simp only [Store.setFlag, h.context, h.raised]
  split <;> rfl

/-- **One request**: an evaluation leaves the context and the flags alone. -/
theorem eval (h : start.Since now up) (hpure : host.Pure Q) (henv : env.Within Q) (way : Way)
    (e : Expr) : start.Since (now.step host (.eval way env e)) up := by
  obtain ⟨r, next, log, hrun, -⟩ :=
    way.run_alike hpure henv e (.refl now)
  simp only [Session.step, hrun]
  exact ⟨h.context, h.raised, h.host⟩

/-- **All requests**, one after the other. -/
theorem after (h : start.Since now up) (hpure : host.Pure Q) {requests : List (Request κ)}
    (hrequests : ∀ request ∈ requests, request.Within Q) :
    start.Since (now.after host requests) (Request.flagAfter up requests) := by
  induction requests generalizing now up with
  | nil => exact h
  | cons request rest ih =>
      have hrest : ∀ request ∈ rest, request.Within Q := fun r hr =>
        hrequests r (List.mem_cons_of_mem _ hr)
      cases request with
      | eval way env e => exact ih (h.eval hpure (hrequests _ List.mem_cons_self) way e) hrest
      | interrupt => exact ih (h.setFlag true) hrest
      | reset => exact ih (h.setFlag false) hrest

end Session.Since

end

/-- **Evaluations leave no residue.**  Let the functions of the host in `Q` be pure, and take any
sequence of evaluations on one context, in whichever ways and in environments that hold no other
functions, with requests to raise and to lower the flag in between.  After it, take one evaluation
more.

* So far, the context has not changed, and its flag is as the last request to raise or lower it has
  left it.  All other flags, and what the host keeps, are as they were.
* The evaluation, however it ends, leaves the context as it is, with its depth, its limit and its
  flag, and it raises or lowers no flag.
* Its outcome and its trace are those on every other context with the same limit and depth and with
  a flag in the same state, whatever else there is in the store.
* If the evaluation starts at a depth not above the limit, its depth is never below that one and
  never above the limit.  It is looked at whenever a call or the body of a closure begins or ends,
  and nothing in between changes it; an alarm that would go off, whatever it does, makes no
  difference. -/
theorem evaluations_leave_no_residue {host : Host κ σ} {Q : κ → Prop} (hpure : host.Pure Q)
    (start : Session σ) {before : List (Request κ)} (hbefore : ∀ r ∈ before, r.Within Q) (way : Way)
    {env : Env κ} (henv : env.Within Q) (e : Expr) :
    let now := start.after host before
    let out := way.run host env e now
    start.Since now (Request.flagAfter start.isInterrupted before) ∧
    (out.2.context = now.context ∧ out.2.store.raised = now.store.raised ∧
      out.2.store.host = now.store.host) ∧
    (∀ fresh : Session σ, now.Alike fresh →
      (way.run host env e fresh).1 = out.1 ∧
      (way.run host env e fresh).2.events = out.2.events) ∧
    (start.context.depth ≤ start.context.limit → ∀ (alarm : Run κ σ Unit) (log : List (Event κ)),
      e.evalWatched host (Run.watch start.context.depth start.context.limit alarm) env
          ⟨now.context, now.store, log⟩ =
        e.eval host env ⟨now.context, now.store, log⟩) := by
  intro now out
  have hsince : start.Since now _ := (Session.Since.self start).after hpure hbefore
  refine ⟨hsince, ?_, fun fresh halike => ?_, fun hle alarm log => ?_⟩
  · obtain ⟨r, next, log, hrun, -⟩ :=
      way.run_alike hpure henv e (.refl now)
    rw [show out = _ from hrun]
    exact ⟨rfl, rfl, rfl⟩
  · obtain ⟨r, next, log, hrun, hfresh⟩ := way.run_alike hpure henv e halike
    rw [show out = _ from hrun, hfresh]
    exact ⟨rfl, rfl⟩
  · obtain ⟨r, next, log', hwatched, hplain⟩ := eval_beside hpure
      (s := ⟨now.context, now.store, log⟩) (t := ⟨now.context, now.store, log⟩) rfl rfl rfl rfl rfl
      henv e alarm
    have hdepth : now.context.depth = start.context.depth := by rw [hsince.context]
    have hlimit : now.context.limit = start.context.limit := by rw [hsince.context]
    rw [← hdepth, ← hlimit] at hle ⊢
    rw [hplain, ← hwatched]
    exact congrArg (fun high => e.evalWatched host (Run.watch now.context.depth high alarm) env
      ⟨now.context, now.store, log⟩) (Nat.max_eq_right hle).symm

/-- `(\x => (\y => (\z => z) y) x) 1`: three nested calls. -/
def threeDeep : Expr :=
  .app (.lam "x" none
    (.app (.lam "y" none (.app (.lam "z" none (.var "z")) (.var "y"))) (.var "x"))) (.int 1)

/-- A context for at most two nested calls has seen an evaluation that overflowed, one that was
interrupted and one that failed.  Two strings are joined on it as they are on a context with another
flag that was never used. -/
theorem evaluations_leave_no_residue_joinTwo :
    let start : Session Stock.Counts := ⟨⟨2, 0, 7⟩, ⟨2, fun _ => false, fun _ => 0⟩⟩
    let before : List (Request Stock) := [.eval .bare joining threeDeep, .interrupt,
      .eval .logged joining joinTwo, .reset, .eval .evaluator joining (.app (.int 1) (.int 2))]
    let now := start.after Stock.host before
    let fresh : Session Stock.Counts := ⟨⟨2, 0, 8⟩, ⟨now.store.next, fun _ => false, fun _ => 5⟩⟩
    let out := Way.logged.run Stock.host joining joinTwo now
    now.context = start.context ∧ now.isInterrupted = false ∧
      out.1.toOption.map Value.render = some "\"ab\"" ∧
      (Way.logged.run Stock.host joining joinTwo fresh).1 = out.1 ∧
      ∀ alarm : Run Stock Stock.Counts Unit,
        joinTwo.evalWatched Stock.host (Run.watch 0 2 alarm) joining ⟨now.context, now.store, []⟩ =
          joinTwo.eval Stock.host joining ⟨now.context, now.store, []⟩ := by
  intro start before now fresh out
  have hpure : joining.Within Stock.IsPure := ⟨⟨trivial, trivial⟩, trivial⟩
  have hbefore : ∀ r ∈ before, r.Within Stock.IsPure := by
    simpa [before, Request.Within] using hpure
  obtain ⟨hsince, -, hfresh, hwatched⟩ :=
    evaluations_leave_no_residue Stock.host_pure start hbefore .logged hpure joinTwo
  have hclear : now.isInterrupted = false := hsince.isInterrupted_eq.trans rfl
  have halike (now : Session Stock.Counts) (hcontext : now.context = start.context)
      (hclear : now.isInterrupted = false) :
      now.Alike ⟨⟨2, 0, 8⟩, ⟨now.store.next, fun _ => false, fun _ => 5⟩⟩ :=
    ⟨by rw [hcontext], by rw [hcontext], hclear, rfl⟩
  exact ⟨hsince.context, hclear, by decide +kernel,
    (hfresh fresh (halike now hsince.context hclear)).1, fun alarm => hwatched (by decide) alarm []⟩

end EagerLambda
