import EagerLambda.Proofs.Primitives
import EagerLambda.Proofs.Runs
import Mathlib.Data.List.Forall2

/-!
# Simulation — two runs side by side

Two runs from states with equal contexts (`Run.State.LikeBy`) are followed together.  They end alike
if both end in results, and the results are related, or both fail with the same cause, and the
values it mentions are related (`Outcome.Like`); and their traces correspond, event by event.
`Run.SimBy` says so of all such states, and there is one rule for each way in which runs are put
together.

The relation `V` between values and the relation `R` between events are parameters.  What the rules
ask of them is little (`Run.Likeness`): a word, a truth value or a string is related to itself only
and a function to functions of its type, and events that differ in related values only are related.
Operators, intrinsics and conditionals look no further.  If `V` relates functions only to those that
show alike (`Value.Faithful`), events can be compared up to `V`, and the traces are then written as
the same lines; this is `Run.Sim`.

No rule speaks of identities.  The two runs may draw different ones, and nothing that a run shows
depends on them.
-/

namespace EagerLambda

variable {κ σ α α' β β' : Type}

/-! ### Alike but for the values in it -/

section

variable (V : Value κ → Value κ → Prop)

/-- The same error, with values related by `V`. -/
inductive EvalError.Like : EvalError κ → EvalError κ → Prop where
  | unboundVariable (x : String) : Like (.unboundVariable x) (.unboundVariable x)
  | notAFunction {v w : Value κ} (h : V v w) : Like (.notAFunction v) (.notAFunction w)
  | nonBooleanCondition {v w : Value κ} (h : V v w) :
      Like (.nonBooleanCondition v) (.nonBooleanCondition w)
  | incompatibleOperands (op : Operator) {l l' r r' : Value κ} (hl : V l l') (hr : V r r') :
      Like (.incompatibleOperands op l r) (.incompatibleOperands op l' r')
  | divisionByZero (op : Operator) : Like (.divisionByZero op) (.divisionByZero op)
  | integerOverflow (op : Operator) : Like (.integerOverflow op) (.integerOverflow op)
  | invalidArgument (name expected : String) {v w : Value κ} (h : V v w) :
      Like (.invalidArgument name expected v) (.invalidArgument name expected w)
  | emptyString (name : String) : Like (.emptyString name) (.emptyString name)
  | invalidCharCode (n : Int64) : Like (.invalidCharCode n) (.invalidCharCode n)
  | stackOverflow (depth limit : Nat) :
      Like (.stackOverflow depth limit) (.stackOverflow depth limit)
  | interrupted : Like .interrupted .interrupted

/-- The same event, with values related by `V`. -/
inductive Event.Like : Event κ → Event κ → Prop where
  | begun (kind : Kind) : Like (.begun kind) (.begun kind)
  | closureCall (param : String) (depth : Nat) {v w : Value κ} (h : V v w) :
      Like (.closureCall param v depth) (.closureCall param w depth)
  | builtinCall (name : String) {v w : Value κ} (h : V v w) :
      Like (.builtinCall name v) (.builtinCall name w)
  | tied (name param : String) : Like (.tied name param) (.tied name param)
  | limitReached (depth limit : Nat) : Like (.limitReached depth limit) (.limitReached depth limit)
  | interrupted (kind : Kind) : Like (.interrupted kind) (.interrupted kind)
  | failed {e e' : EvalError κ} (h : e.Like V e') : Like (.failed e) (.failed e')

/-- Two results related by `A`, or the same error with values related by `V`. -/
inductive Outcome.Like (A : α → α' → Prop) :
    Except (EvalError κ) α → Except (EvalError κ) α' → Prop where
  | ok {a : α} {a' : α'} (h : A a a') : Like A (.ok a) (.ok a')
  | error {e e' : EvalError κ} (h : e.Like V e') : Like A (.error e) (.error e')

/-- Equal contexts, as far as a run can tell, and so far events related by `R`.  What else the
stores hold, and which identities are taken, is left open. -/
structure Run.State.LikeBy (R : Event κ → Event κ → Prop) (s t : Run.State κ σ) : Prop where
  limit : s.context.limit = t.context.limit
  depth : s.context.depth = t.context.depth
  interrupted : s.context.isInterrupted s.store = t.context.isInterrupted t.store
  log : List.Forall₂ R s.log t.log

/-- From states that are alike, the two runs end alike: in results related by `A` or in the same
error, and in states that are alike again. -/
def Run.SimBy (R : Event κ → Event κ → Prop) (A : α → α' → Prop) (x : Run κ σ α)
    (y : Run κ σ α') : Prop :=
  ∀ s t, Run.State.LikeBy R s t →
    Outcome.Like V A (x s).1 (y t).1 ∧ Run.State.LikeBy R (x s).2 (y t).2

/-- The two runs end alike, and record the same events, with values related by `V`. -/
abbrev Run.Sim (A : α → α' → Prop) (x : Run κ σ α) (y : Run κ σ α') : Prop :=
  Run.SimBy V (Event.Like V) A x y

/-- A relation that relates a value that is no function to itself only, and a function to functions
of its type. -/
structure Value.Kindred : Prop where
  base : ∀ {v : Value κ}, v.isCallable = false → V v v
  eq : ∀ {v w : Value κ}, V v w → v.isCallable = false → v = w
  tag : ∀ {v w : Value κ}, V v w → v.tag = w.tag

/-- A relation that relates a value that is no function to itself only, and a function to functions
that show alike. -/
structure Value.Faithful : Prop extends Value.Kindred V where
  render : ∀ {v w : Value κ}, V v w → v.render = w.render

/-- What the rules ask of a relation between values and one between events. -/
structure Run.Likeness (R : Event κ → Event κ → Prop) : Prop extends Value.Kindred V where
  event : ∀ {event event' : Event κ}, event.Like V event' → R event event'

end

variable {V : Value κ → Value κ → Prop}

theorem Value.Faithful.likeness (hV : Value.Faithful V) : Run.Likeness V (Event.Like V) :=
  ⟨hV.toKindred, fun h => h⟩

theorem Outcome.Like.mono {A A' : α → α' → Prop} (h : ∀ a a', A a a' → A' a a')
    {r : Except (EvalError κ) α} {r' : Except (EvalError κ) α'} :
    Outcome.Like V A r r' → Outcome.Like V A' r r'
  | .ok ha => .ok (h _ _ ha)
  | .error he => .error he

/-- Runs that end alike are closed alike, if they are recorded as a whole. -/
theorem Outcome.Like.closing {A : α → α' → Prop} {r : Except (EvalError κ) α}
    {r' : Except (EvalError κ) α'} (h : Outcome.Like V A r r') :
    List.Forall₂ (Event.Like V) (Run.closing r) (Run.closing r') := by
  cases h with
  | ok => exact .nil
  | error he => exact .cons (.failed he) .nil

/-! ### What is shown -/

theorem Value.Kindred.callable (hV : Value.Kindred V) {v w : Value κ} (h : V v w) :
    v.isCallable = w.isCallable := by
  have htag (u : Value κ) : u.isCallable = decide (u.tag = .closure ∨ u.tag = .builtin) := by
    cases u <;> rfl
  rw [htag v, htag w, hV.tag h]

theorem Value.Faithful.mention (hV : Value.Faithful V) {v w : Value κ} (h : V v w) :
    EvalError.mention v = EvalError.mention w := by
  simp only [EvalError.mention, hV.render h, hV.tag h]

/-- Errors that are alike are told by the same words. -/
theorem EvalError.Like.shown (hV : Value.Faithful V) {e e' : EvalError κ} (h : e.Like V e') :
    e.kind = e'.kind ∧ e.message = e'.message := by
  cases h with
  | notAFunction h | nonBooleanCondition h | invalidArgument name expected h =>
      exact ⟨rfl, congrArg (_ ++ ·) (hV.mention h)⟩
  | incompatibleOperands op hl hr =>
      exact ⟨rfl, congrArg₂ (_ ++ · ++ _ ++ ·) (hV.mention hl) (hV.mention hr)⟩
  | _ => exact ⟨rfl, rfl⟩

/-- Events that are alike are written as the same line. -/
theorem Event.Like.shown (hV : Value.Faithful V) {e e' : Event κ} (h : e.Like V e') :
    e.render = e'.render := by
  cases h with
  | closureCall param depth h => exact congrArg (_ ++ · ++ _ ++ _) (hV.render h)
  | builtinCall name h => exact congrArg (_ ++ ·) (hV.render h)
  | failed h => exact congrArg₂ (_ ++ · ++ _ ++ ·) (h.shown hV).1 (h.shown hV).2
  | _ => rfl

/-- Traces that are alike are written as the same lines. -/
theorem Event.map_render_eq (hV : Value.Faithful V) {events events' : List (Event κ)}
    (h : List.Forall₂ (Event.Like V) events events') :
    events.map Event.render = events'.map Event.render := by
  rw [← List.forall₂_eq_eq_eq, List.forall₂_map_left_iff, List.forall₂_map_right_iff]
  exact h.imp fun _ _ he => he.shown hV

/-! ### Alike up to equality -/

theorem EvalError.Like.refl (hV : ∀ v, V v v) (e : EvalError κ) : e.Like V e := by
  cases e with
  | unboundVariable x => exact .unboundVariable x
  | notAFunction v => exact .notAFunction (hV v)
  | nonBooleanCondition v => exact .nonBooleanCondition (hV v)
  | incompatibleOperands op l r => exact .incompatibleOperands op (hV l) (hV r)
  | divisionByZero op => exact .divisionByZero op
  | integerOverflow op => exact .integerOverflow op
  | invalidArgument name expected v => exact .invalidArgument name expected (hV v)
  | emptyString name => exact .emptyString name
  | invalidCharCode n => exact .invalidCharCode n
  | stackOverflow depth limit => exact .stackOverflow depth limit
  | interrupted => exact .interrupted

theorem EvalError.Like.eq (hV : ∀ v w, V v w → v = w) {e e' : EvalError κ} (h : e.Like V e') :
    e = e' := by
  cases h with
  | notAFunction h | nonBooleanCondition h | invalidArgument _ _ h => rw [hV _ _ h]
  | incompatibleOperands _ hl hr => rw [hV _ _ hl, hV _ _ hr]
  | _ => rfl

theorem Event.Like.eq (hV : ∀ v w, V v w → v = w) {event event' : Event κ}
    (h : event.Like V event') : event = event' := by
  cases h with
  | closureCall _ _ h | builtinCall _ h => rw [hV _ _ h]
  | failed h => rw [h.eq hV]
  | _ => rfl

theorem Outcome.Like.eq {A : α → α → Prop} (hV : ∀ v w, V v w → v = w) (hA : ∀ a b, A a b → a = b)
    {r r' : Except (EvalError κ) α} (h : Outcome.Like V A r r') : r = r' := by
  cases h with
  | ok h => rw [hA _ _ h]
  | error h => rw [h.eq hV]

theorem Outcome.like_eq_iff {r r' : Except (EvalError κ) α} :
    Outcome.Like Eq Eq r r' ↔ r = r' := by
  constructor
  · exact fun h => h.eq (fun _ _ h => h) fun _ _ h => h
  · rintro rfl
    cases r with
    | ok a => exact .ok rfl
    | error e => exact .error (.refl (fun _ => rfl) e)

theorem Value.eq_faithful : Value.Faithful (Eq (α := Value κ)) where
  base _ := rfl
  eq h _ := h
  tag h := congrArg _ h
  render h := congrArg _ h

/-! ### Operators and intrinsics -/

/-- An operator cannot tell related operands apart. -/
theorem Operator.apply_like (hV : Value.Kindred V) (op : Operator) {l l' r r' : Value κ}
    (hl : V l l') (hr : V r r') : Outcome.Like V V (op.apply l r) (op.apply l' r') := by
  by_cases hcall : l.isCallable = true ∨ r.isCallable = true
  · have hcall' : l'.isCallable = true ∨ r'.isCallable = true := by
      rwa [← hV.callable hl, ← hV.callable hr]
    rw [op.apply_callable hcall, op.apply_callable hcall']
    exact .error (.incompatibleOperands op hl hr)
  · obtain ⟨hbl, hbr⟩ := not_or.mp hcall
    obtain rfl := hV.eq hl (Bool.eq_false_iff.mpr hbl)
    obtain rfl := hV.eq hr (Bool.eq_false_iff.mpr hbr)
    have hans := op.apply_answer l r
    generalize op.apply l r = out at hans
    cases hans with
    | base _ hv => exact .ok (hV.base hv)
    | incompatible => exact .error (.incompatibleOperands op hl hr)
    | byZero => exact .error (.divisionByZero op)
    | overflow => exact .error (.integerOverflow op)

/-- An intrinsic cannot tell related arguments apart. -/
theorem Intrinsic.apply_like (hV : Value.Kindred V) (i : Intrinsic) {v w : Value κ} (h : V v w) :
    Outcome.Like V V (i.apply v) (i.apply w) := by
  by_cases hcall : v.isCallable = true
  · rw [i.apply_callable hcall, i.apply_callable ((hV.callable h).symm.trans hcall)]
    exact .error (.invalidArgument i.name _ h)
  · obtain rfl := hV.eq h (Bool.eq_false_iff.mpr hcall)
    have hans := i.apply_answer v
    generalize i.apply v = out at hans
    cases hans with
    | base _ hv => exact .ok (hV.base hv)
    | invalid => exact .error (.invalidArgument i.name _ h)
    | empty => exact .error (.emptyString i.name)
    | noChar _ n => exact .error (.invalidCharCode n)

/-! ### Rules -/

namespace Run

variable {R : Event κ → Event κ → Prop}

namespace State.LikeBy

variable {s t : State κ σ}

/-- One event more in both logs. -/
theorem cons (h : State.LikeBy R s t) {event event' : Event κ} (he : R event event') :
    State.LikeBy R { s with log := event :: s.log } { t with log := event' :: t.log } :=
  ⟨h.limit, h.depth, h.interrupted, .cons he h.log⟩

/-- There is the same room in both contexts. -/
theorem room (h : State.LikeBy R s t) : s.context.room = t.context.room := by
  simp only [Context.room, h.limit, h.depth]

end State.LikeBy

namespace SimBy

variable {A : α → α' → Prop} {B : β → β' → Prop}

theorem pure {a : α} {a' : α'} (h : A a a') :
    SimBy V R A (Pure.pure a : Run κ σ α) (Pure.pure a' : Run κ σ α') := fun _ _ hst => ⟨.ok h, hst⟩

theorem fail {e e' : EvalError κ} (h : e.Like V e') :
    SimBy V R A (Run.fail e : Run κ σ α) (Run.fail e' : Run κ σ α') :=
  fun _ _ hst => ⟨.error h, hst⟩

theorem ofExcept {r : Except (EvalError κ) α} {r' : Except (EvalError κ) α'}
    (h : Outcome.Like V A r r') :
    SimBy V R A (Run.ofExcept r : Run κ σ α) (Run.ofExcept r' : Run κ σ α') :=
  fun _ _ hst => ⟨h, hst⟩

/-- **Sequences**: if the first parts end in results, the second parts start from related ones. -/
theorem bind {x : Run κ σ α} {y : Run κ σ α'} {f : α → Run κ σ β} {g : α' → Run κ σ β'}
    (hx : SimBy V R A x y) (hf : ∀ a a', A a a' → SimBy V R B (f a) (g a')) :
    SimBy V R B (x >>= f) (y >>= g) := by
  intro s t hst
  obtain ⟨hout, hst'⟩ := hx s t hst
  rcases hxs : x s with ⟨r, s₁⟩
  rcases hyt : y t with ⟨r', t₁⟩
  rw [hxs, hyt] at hout hst'
  cases hout with
  | ok h =>
      rw [bind_ok hxs, bind_ok hyt]
      exact hf _ _ h s₁ t₁ hst'
  | error h =>
      rw [bind_error hxs, bind_error hyt]
      exact ⟨.error h, hst'⟩

theorem mono {A' : α → α' → Prop} (h : ∀ a a', A a a' → A' a a') {x : Run κ σ α} {y : Run κ σ α'}
    (hx : SimBy V R A x y) : SimBy V R A' x y := by
  intro s t hst
  obtain ⟨hout, hst'⟩ := hx s t hst
  exact ⟨hout.mono h, hst'⟩

/-- The flag is raised in both runs or in neither. -/
theorem poll (hL : Likeness V R) (kind : Kind) :
    SimBy V R (fun _ _ => True) (Run.poll kind : Run κ σ Unit) (Run.poll kind) := by
  intro s t hst
  by_cases hraised : s.context.isInterrupted s.store = true
  · simp only [Run.poll, if_pos hraised, if_pos (hst.interrupted ▸ hraised)]
    exact ⟨.error .interrupted, hst.cons (hL.event (.interrupted kind))⟩
  · simp only [Run.poll, if_neg hraised, if_neg (hst.interrupted ▸ hraised)]
    exact ⟨.ok trivial, hst⟩

theorem record {event event' : Event κ} (h : R event event') :
    SimBy V R (fun _ _ => True) (Run.record event : Run κ σ Unit) (Run.record event') :=
  fun _ _ hst => ⟨.ok trivial, hst.cons h⟩

/-- Changes of the stores that leave the flags alone, with related results whatever the stores. -/
theorem alloc {x : Alloc σ α} {y : Alloc σ α'} (hx : x.Quiet) (hy : y.Quiet)
    (h : ∀ store store', A (x store).1 (y store').1) :
    SimBy V R A (Run.alloc x : Run κ σ α) (Run.alloc y : Run κ σ α') := by
  intro s t hst
  refine ⟨.ok (h s.store t.store), hst.limit, hst.depth, ?_, hst.log⟩
  show (x s.store).2.raised s.context.flag = (y t.store).2.raised t.context.flag
  rw [hx, hy]
  exact hst.interrupted

theorem overflow (hL : Likeness V R) :
    SimBy V R A (Run.overflow : Run κ σ α) (Run.overflow : Run κ σ α') := by
  intro s t hst
  simp only [Run.overflow, hst.depth, hst.limit]
  exact ⟨.error (.stackOverflow _ _), hst.cons (hL.event (.limitReached _ _))⟩

/-- Both calls are entered, at the same depth, or both are refused. -/
theorem enter (hL : Likeness V R) : SimBy V R Eq (Run.enter : Run κ σ Nat) Run.enter := by
  intro s t hst
  by_cases hroom : s.context.depth < s.context.limit
  · have hroom' : t.context.depth < t.context.limit := hst.depth ▸ hst.limit ▸ hroom
    simp only [Run.enter, Context.enter?, if_pos hroom, if_pos hroom']
    refine ⟨.ok ?_, hst.limit, ?_, hst.interrupted, hst.log⟩
    · exact congrArg (· + 1) hst.depth
    · exact congrArg (· + 1) hst.depth
  · have hroom' : ¬ t.context.depth < t.context.limit := hst.depth ▸ hst.limit ▸ hroom
    simp only [Run.enter, Context.enter?, if_neg hroom, if_neg hroom']
    exact overflow hL s t hst

theorem leaving {x : Run κ σ α} {y : Run κ σ α'} (h : SimBy V R A x y) :
    SimBy V R A (Run.leaving x) (Run.leaving y) := by
  intro s t hst
  obtain ⟨hout, hst'⟩ := h s t hst
  exact ⟨hout, hst'.limit, congrArg (· - 1) hst'.depth, hst'.interrupted, hst'.log⟩

/-! ### Nodes and calls -/

/-- **Variables**, if what they are bound to is related; unbound ones have the same name. -/
theorem var (hL : Likeness V R) {x x' : String} {found found' : Option (Value κ)}
    (h : Option.Rel V found found') (hname : found = none → x = x') :
    SimBy V R V
      (do Run.poll .var
          match found with
          | some value => Pure.pure value
          | none => Run.fail (.unboundVariable x) : Run κ σ (Value κ))
      (do Run.poll .var
          match found' with
          | some value => Pure.pure value
          | none => Run.fail (.unboundVariable x')) := by
  refine (poll hL _).bind fun _ _ _ => ?_
  cases h with
  | some h => exact .pure h
  | none =>
      obtain rfl := hname rfl
      exact .fail (.unboundVariable x)

/-- **Lambdas**, if the closures are related whatever their identities. -/
theorem lam (hL : Likeness V R) {env env' : Env κ} {x x' : String} {b b' : Expr} (h : ∀ id id',
      V (.closure ⟨id, x, b, none, env⟩) (.closure ⟨id', x', b', none, env'⟩)) :
    SimBy V R V
      (do Run.poll .lam
          let closure ← Run.alloc (Closure.make env x b none)
          Pure.pure (.closure closure) : Run κ σ (Value κ))
      (do Run.poll .lam
          let closure ← Run.alloc (Closure.make env' x' b' none)
          Pure.pure (.closure closure)) := by
  refine (poll hL _).bind fun _ _ _ => ?_
  exact (alloc Closure.quiet_make Closure.quiet_make fun _ _ => h _ _).bind fun _ _ h => .pure h

/-- **Applications**, if the calls are alike. -/
theorem app (hL : Likeness V R) {call call' : Value κ → Value κ → Run κ σ (Value κ)}
    (hcall : ∀ u u' v v', V u u' → V v v' → SimBy V R V (call u v) (call' u' v'))
    {f f' a a' : Run κ σ (Value κ)} (hf : SimBy V R V f f') (ha : SimBy V R V a a') :
    SimBy V R V
      (do Run.poll .app
          let u ← f
          if u.isCallable then
            let v ← a
            call u v
          else
            Run.fail (.notAFunction u))
      (do Run.poll .app
          let u ← f'
          if u.isCallable then
            let v ← a'
            call' u v
          else
            Run.fail (.notAFunction u)) := by
  refine (poll hL _).bind fun _ _ _ => hf.bind fun u u' hu => ?_
  by_cases hcallable : u.isCallable = true
  · rw [if_pos hcallable, if_pos (hL.callable hu ▸ hcallable)]
    exact ha.bind fun v v' hv => hcall u u' v v' hu hv
  · rw [if_neg hcallable, if_neg (hL.callable hu ▸ hcallable)]
    exact .fail (.notAFunction hu)

/-- **Conditionals** take the same branch. -/
theorem cond (hL : Likeness V R) {x x' yes yes' no no' : Run κ σ (Value κ)}
    (hx : SimBy V R V x x') (hyes : SimBy V R V yes yes') (hno : SimBy V R V no no') :
    SimBy V R V
      (do Run.poll .cond
          match ← x with
          | .bool true => yes
          | .bool false => no
          | value => Run.fail (.nonBooleanCondition value))
      (do Run.poll .cond
          match ← x' with
          | .bool true => yes'
          | .bool false => no'
          | value => Run.fail (.nonBooleanCondition value)) := by
  refine (poll hL _).bind fun _ _ _ => hx.bind fun u u' hu => ?_
  cases u with
  | bool b =>
      obtain rfl := hL.eq hu rfl
      cases b with
      | true => exact hyes
      | false => exact hno
  | int n | str n =>
      obtain rfl := hL.eq hu rfl
      exact .fail (.nonBooleanCondition hu)
  | closure c | builtin b =>
      have hcallable := hL.callable hu
      cases u' with
      | closure c' | builtin b' => exact .fail (.nonBooleanCondition hu)
      | int n | bool n | str n => cases hcallable

/-- **Operations.** -/
theorem binary (hL : Likeness V R) (op : Operator) {x x' y y' : Run κ σ (Value κ)}
    (hx : SimBy V R V x x') (hy : SimBy V R V y y') :
    SimBy V R V (do Run.poll .binary; let l ← x; let r ← y; Run.ofExcept (op.apply l r))
      (do Run.poll .binary; let l ← x'; let r ← y'; Run.ofExcept (op.apply l r)) :=
  (poll hL _).bind fun _ _ _ => hx.bind fun _ _ hl => hy.bind fun _ _ hr =>
    .ofExcept (op.apply_like hL.toKindred hl hr)

/-- **Bindings**, if related closures stay related when they are tied to the name. -/
theorem bound (hL : Likeness V R) (rec : Bool) {x : String}
    (htie : ∀ c d, V (.closure c) (.closure d) → R (.tied x c.param) (.tied x d.param) ∧
      ∀ store store' : Store σ, V (.closure (c.tie x store).1) (.closure (d.tie x store').1))
    {v w : Value κ} (h : V v w) :
    SimBy V R V (v.bound rec x : Run κ σ (Value κ)) (w.bound rec x) := by
  have htag := hL.tag h
  rcases v.plain_or_closure rec with hplain | ⟨c, rfl, rfl⟩
  · have hplain' : rec = false ∨ ∀ d, w ≠ .closure d := by
      refine hplain.imp_right fun hv d hd => ?_
      subst hd
      cases v with
      | closure c => exact hv c rfl
      | int n | bool n | str n | builtin n => cases htag
    intro s t hst
    rw [Value.bound_plain hplain, Value.bound_plain hplain']
    exact ⟨.ok h, hst⟩
  · cases w with
    | closure d =>
        obtain ⟨hevent, hclosure⟩ := htie c d h
        refine (record hevent).bind fun _ _ _ => ?_
        exact (alloc (c.quiet_tie x) (d.quiet_tie x) hclosure).bind fun _ _ h => .pure h
    | int n | bool n | str n | builtin n => cases htag

/-- **Calls**, if calls of closures are alike and calls of builtins are. -/
theorem callWith (hL : Likeness V R) {host host' : Host κ σ}
    {evalBody evalBody' : Expr → Env κ → Run κ σ (Value κ)} {v v' : Value κ}
    (hclosure : ∀ c d, V (.closure c) (.closure d) →
      SimBy V R V (c.runWith v (evalBody c.body)) (d.runWith v' (evalBody' d.body)))
    (hbuiltin : ∀ b b', V (.builtin b) (.builtin b') →
      SimBy V R V (b.run host v) (b'.run host' v')) {u u' : Value κ} (hu : V u u') :
    SimBy V R V (u.callWith host evalBody v) (u'.callWith host' evalBody' v') := by
  have htag := hL.tag hu
  cases u with
  | int n | bool n | str n =>
      obtain rfl := hL.eq hu rfl
      exact .fail (.notAFunction hu)
  | closure c =>
      cases u' with
      | closure d => exact hclosure c d hu
      | int n | bool n | str n | builtin n => cases htag
  | builtin b =>
      cases u' with
      | builtin b' => exact hbuiltin b b' hu
      | int n | bool n | str n | closure n => cases htag

/-- **Calls of closures**, if the bodies are alike in the environments that the calls make. -/
theorem entered (hL : Likeness V R) {param param' : String} {v v' : Value κ}
    (hevent : ∀ depth, R (.closureCall param v depth) (.closureCall param' v' depth))
    {x x' : Alloc σ (Env κ)} (hx : x.Quiet) (hx' : x'.Quiet) {E : Env κ → Env κ → Prop}
    (hE : ∀ store store', E (x store).1 (x' store').1) {f f' : Env κ → Run κ σ (Value κ)}
    (hf : ∀ env env', E env env' → SimBy V R V (f env) (f' env')) :
    SimBy V R V
      (do let depth ← Run.enter
          Run.leaving do
            Run.record (.closureCall param v depth)
            let env ← Run.alloc x
            f env)
      (do let depth ← Run.enter
          Run.leaving do
            Run.record (.closureCall param' v' depth)
            let env ← Run.alloc x'
            f' env) := by
  refine (enter hL).bind fun depth depth' hdepth => .leaving ?_
  subst hdepth
  exact (record (hevent depth)).bind fun _ _ _ => (alloc hx hx' hE).bind hf

/-- **Calls of intrinsics.** -/
theorem intrinsic (hL : Likeness V R) (host host' : Host κ σ) {b b' : Builtin κ} {i : Intrinsic}
    (hname : b.name = b'.name) (hb : b.code = .intrinsic i) (hb' : b'.code = .intrinsic i)
    {v v' : Value κ} (hv : V v v') : SimBy V R V (b.run host v) (b'.run host' v') := by
  simp only [Builtin.run, hname, hb, hb']
  refine (record (hL.event (.builtinCall _ hv))).bind fun _ _ _ => ?_
  exact .ofExcept (i.apply_like hL.toKindred hv)

end SimBy

/-! ### Whole runs -/

/-- The two runs end alike and at the same depth, and have recorded the same events, written as the
same lines. -/
structure Agree (V : Value κ → Value κ → Prop)
    (out out' : Except (EvalError κ) (Value κ) × State κ σ) : Prop where
  outcome : Outcome.Like V V out.1 out'.1
  depth : out.2.context.depth = out'.2.context.depth
  events : List.Forall₂ (Event.Like V) out.2.events out'.2.events
  trace : out.2.events.map Event.render = out'.2.events.map Event.render

/-- Two runs that start with events recorded that are alike. -/
theorem SimBy.agree_from (hV : Value.Faithful V) {x y : Run κ σ (Value κ)} (h : Sim V V x y)
    {s t : State κ σ} (hst : State.LikeBy (Event.Like V) s t) : Agree V (x s) (y t) := by
  obtain ⟨hout, hst'⟩ := h s t hst
  have hevents := List.forall₂_reverse_iff.mpr hst'.log
  exact ⟨hout, hst'.depth, hevents, Event.map_render_eq hV hevents⟩

/-- Two runs that start with nothing recorded. -/
theorem SimBy.agree (hV : Value.Faithful V) {x y : Run κ σ (Value κ)} (h : Sim V V x y)
    {context context' : Context} {store store' : Store σ} (hlimit : context.limit = context'.limit)
    (hdepth : context.depth = context'.depth)
    (hflag : context.isInterrupted store = context'.isInterrupted store') :
    Agree V (x (.start context store)) (y (.start context' store')) :=
  h.agree_from hV ⟨hlimit, hdepth, hflag, .nil⟩

end Run

end EagerLambda
