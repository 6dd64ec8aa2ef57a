import EagerLambda.Proofs.Trail
import EagerLambda.Proofs.Closures

/-!
# Knots — where `let rec` is `let`

A `let rec` ties the closure it is given to its name, and that is all that sets it apart from a
`let`.  If the body of the closure does not look at the name, or sees the closure under it anyway,
the two end alike and record the same, but for the event of the tying itself
(`letRec_agrees_with_let`).

The closure and the one that is tied differ.  A self name of the closure has become a binding in the
environment that the tied one has captured, and whatever follows can call the two, hand them on and
tie them again.  `Value.Interchangeable` relates closures by what their bodies see, wherever it
comes from.  It is a lexical relation (`Value.interchangeable_lexical`), so evaluation cannot tell
the two apart.
-/

namespace EagerLambda

variable {κ σ α β : Type}

/-! ### Values that can stand for each other -/

/-- Equal values, if they are no functions; the same intrinsic; or closures of the same code whose
bodies see values that can stand for each other.  The name under which both closures see themselves
is left out, and has to be: what they see there is what is being defined. -/
inductive Value.Interchangeable : Value κ → Value κ → Prop where
  | base {v : Value κ} (h : v.isCallable = false) : Interchangeable v v
  | intrinsic {b b' : Builtin κ} {i : Intrinsic} (hname : b.name = b'.name)
      (hb : b.code = .intrinsic i) (hb' : b'.code = .intrinsic i) :
      Interchangeable (.builtin b) (.builtin b')
  | closure {c d : Closure κ} (hparam : c.param = d.param) (hbody : c.body = d.body)
      (hseen : ∀ x ∈ c.body.free, x ≠ c.param → ¬ (c.selfName = some x ∧ d.selfName = some x) →
        Option.Rel Interchangeable (c.sees? x) (d.sees? x)) :
      Interchangeable (.closure c) (.closure d)

namespace Value.Interchangeable

variable {c d : Closure κ}

/-- Closures that can stand for each other see, under every name, values that can. -/
theorem seen (h : Value.Interchangeable (.closure c) (.closure d)) {x : String}
    (hfree : x ∈ c.body.free) (hx : x ≠ c.param) :
    Option.Rel Value.Interchangeable (c.sees? x) (d.sees? x) := by
  cases h with
  | base h => cases h
  | closure hparam hbody hseen =>
      by_cases hself : c.selfName = some x ∧ d.selfName = some x
      · rw [Closure.sees?, Closure.sees?, if_pos hself.1, if_pos hself.2]
        exact .some (.closure hparam hbody hseen)
      · exact hseen x hfree hx hself

/-- **A knot that makes no difference.**  A closure that does not look at the name `f`, or sees
itself there, can stand for the one that is tied to `f`. -/
theorem tie_self (h : Value.Interchangeable (.closure c) (.closure c)) {f : String}
    (hf : f ∉ c.body.free ∨ f = c.param ∨ c.selfName = some f) (store : Store σ) :
    Value.Interchangeable (.closure (c.tie f store).1) (.closure c) := by
  refine .closure rfl rfl fun x hfree hx hself => ?_
  have hne : f ≠ x := by
    rintro rfl
    rcases hf with hf | hf | hf
    · exact hf hfree
    · exact hx hf
    · exact hself ⟨rfl, hf⟩
  rw [c.sees?_tie, if_neg hne]
  exact h.seen hfree hx

end Value.Interchangeable

theorem Value.interchangeable_lexical : Value.Lexical (Value.Interchangeable (κ := κ)) where
  shape h := by
    cases h with
    | base h => exact .base h
    | intrinsic hname hb hb' => exact .intrinsic hname hb hb'
    | closure hparam hbody => exact .closure hparam hbody
  base := .base
  intrinsic := .intrinsic
  seen h _ hfree hx := h.seen hfree hx
  captured {c d} hparam hbody hself henv := by
    refine .closure hparam hbody fun x hfree hx hneither => ?_
    have hc : c.selfName ≠ some x := fun hc => hneither ⟨hc, hself ▸ hc⟩
    rw [Closure.sees?, Closure.sees?, if_neg hc, if_neg (hself ▸ hc)]
    exact henv x hfree hx hc

/-! ### What runs record -/

/-- Whatever was recorded before, the run ends in `r`, leaves the context as it was, and records
`events`. -/
def Run.Records (x : Run κ σ α) (context : Context) (store : Store σ)
    (r : Except (EvalError κ) α) (events : List (Event κ)) (store' : Store σ) : Prop :=
  ∀ log, x ⟨context, store, log⟩ = (r, ⟨context, store', events.reverse ++ log⟩)

namespace Run.Records

variable {context : Context} {store store₁ store₂ store₃ : Store σ} {x : Run κ σ α}
  {f : α → Run κ σ β} {events events' : List (Event κ)}

theorem bind_ok {a : α} {r : Except (EvalError κ) β}
    (hx : x.Records context store (.ok a) events store₁)
    (hf : (f a).Records context store₁ r events' store₂) :
    (x >>= f).Records context store r (events ++ events') store₂ := by
  intro log
  rw [Run.bind_ok (hx log), hf, List.reverse_append, List.append_assoc]

theorem bind_error {e : EvalError κ} (hx : x.Records context store (.error e) events store₁) :
    (x >>= f).Records context store (.error e) events store₁ :=
  fun log => Run.bind_error (hx log)

theorem poll (kind : Kind) (h : context.isInterrupted store = false) :
    (Run.poll kind : Run κ σ Unit).Records context store (.ok ()) [] store :=
  fun _ => Run.poll_clear kind h

variable {call : Value κ → Value κ → Run κ σ (Value κ)} {env : Env κ} {name : String}
  {rec : Bool} {v b : Expr} {r : Except (EvalError κ) (Value κ)}

/-- A `let` whose value fails. -/
theorem letIn_error (h : context.isInterrupted store = false) {e : EvalError κ}
    (hv : (v.evalWith call env).Records context store (.error e) events store₁) :
    ((Expr.letIn rec name v b).evalWith call env).Records context store (.error e) events store₁ :=
  (poll _ h).bind_ok hv.bind_error

/-- A `let`: its value, the event of the tying if there is any, and its body. -/
theorem letIn (h : context.isInterrupted store = false) {u w : Value κ} {tied : List (Event κ)}
    (hv : (v.evalWith call env).Records context store (.ok u) events store₁)
    (hbound : (u.bound rec name : Run κ σ (Value κ)).Records context store₁ (.ok w) tied store₂)
    (hb : (b.evalWith call (.frame store₂.next name w env)).Records context (store₂.taken 1) r
      events' store₃) :
    ((Expr.letIn rec name v b).evalWith call env).Records context store r
      (events ++ (tied ++ events')) store₃ :=
  (poll _ h).bind_ok (hv.bind_ok (hbound.bind_ok hb))

end Run.Records

/-- Evaluation records what it does whatever was recorded before, and its result holds no functions
of the host if the environment holds none. -/
theorem Expr.exists_records (host : Host κ σ) (e : Expr) (env : Env κ)
    (henv : env.Within fun _ => False) (context : Context) (store : Store σ) :
    ∃ r events store', (e.evalWith (callAt host context.room) env).Records context store r events
      store' ∧ ∀ v, r = .ok v → v.Within fun _ => False := by
  have hnever : host.NeverCuts fun _ => False := fun _ _ _ _ h => h.elim
  obtain ⟨r, events, store', hrun, -, hheld⟩ := eval_follows hnever henv e context store
  exact ⟨r, events, store', hrun, hheld⟩

/-- Evaluations in environments that agree record the same. -/
theorem Value.Lexical.records {V : Value κ → Value κ → Prop} (hV : Value.Lexical V)
    {host : Host κ σ} {e : Expr} {env env' : Env κ} (h : env.AgreeOn V e.free env')
    {context : Context} {store store' t t' : Store σ}
    (hflag : context.isInterrupted store = context.isInterrupted store')
    {r r' : Except (EvalError κ) (Value κ)} {events events' : List (Event κ)}
    (hrun : (e.evalWith (EagerLambda.callAt host context.room) env).Records context store r
      events t)
    (hrun' : (e.evalWith (EagerLambda.callAt host context.room) env').Records context store' r'
      events' t') :
    Outcome.Like V V r r' ∧ List.Forall₂ (Event.Like V) events events' := by
  obtain ⟨hout, hstate⟩ := hV.evalWith (hV.callAt host context.room) e env env' h
    ⟨context, store, []⟩ ⟨context, store', []⟩ ⟨rfl, rfl, hflag, .nil⟩
  rw [hrun, hrun'] at hout hstate
  refine ⟨hout, List.forall₂_reverse_iff.mp ?_⟩
  simpa using hstate.log

/-! ### The law -/

/-- What a `let rec` of the name records of tying the value. -/
def Outcome.knot (name : String) : Except (EvalError κ) (Value κ) → List (Event κ)
  | .ok (.closure c) => [.tied name c.param]
  | _ => []

/-- **What a `let rec` binds**, if tying makes no difference, can stand for what a `let` binds. -/
theorem Value.bound_interchangeable {u : Value κ} (hu : u.Within fun _ => False) {f : String}
    (hf : ∀ c, u = .closure c → f ∉ c.body.free ∨ f = c.param ∨ c.selfName = some f)
    (context : Context) (store : Store σ) :
    ∃ w store', (u.bound true f : Run κ σ (Value κ)).Records context store (.ok w)
        (Outcome.knot f (.ok u)) store' ∧
      store'.raised = store.raised ∧ w.Within (fun _ => False) ∧ w.Interchangeable u := by
  have hself : u.Interchangeable u := Value.interchangeable_lexical.self hu
  cases u with
  | closure c =>
      exact ⟨.closure (c.tie f store).1, (c.tie f store).2, fun _ => rfl, c.quiet_tie f store,
        Closure.Every.tie hu f store trivial, hself.tie_self (hf c rfl) store⟩
  | int n | bool b | str s | builtin b => exact ⟨_, store, fun _ => rfl, rfl, hu, hself⟩

/-- The two runs end alike and at the same depth.  After `before` the first has recorded `extra`,
and apart from that they have recorded the same, written as the same lines. -/
structure Run.AgreeBut (V : Value κ → Value κ → Prop) (before extra : List (Event κ))
    (out out' : Except (EvalError κ) (Value κ) × State κ σ) : Prop where
  outcome : Outcome.Like V V out.1 out'.1
  depth : out.2.context.depth = out'.2.context.depth
  events : ∃ after after', out.2.events = before ++ (extra ++ after) ∧
    out'.2.events = before ++ after' ∧ List.Forall₂ (Event.Like V) after after' ∧
    after.map Event.render = after'.map Event.render

namespace Run.AgreeBut

variable {V : Value κ → Value κ → Prop}

/-- Two runs that record the same but for `extra`, after what was recorded already. -/
theorem of_records (hV : Value.Faithful V) {x y : Run κ σ (Value κ)} {context : Context}
    {store t t' : Store σ} {r r' : Except (EvalError κ) (Value κ)}
    {before extra after after' : List (Event κ)}
    (hx : x.Records context store r (before ++ (extra ++ after)) t)
    (hy : y.Records context store r' (before ++ after') t') (hout : Outcome.Like V V r r')
    (hafter : List.Forall₂ (Event.Like V) after after') (log : List (Event κ)) :
    AgreeBut V (log.reverse ++ before) extra (x ⟨context, store, log⟩)
      (y ⟨context, store, log⟩) := by
  rw [hx log, hy log]
  refine ⟨hout, rfl, after, after', ?_, ?_, hafter, Event.map_render_eq hV hafter⟩
  · simp [State.events]
  · simp [State.events]

/-- The same of evaluations that are recorded as a whole. -/
theorem concluded (hV : Value.Faithful V) {before extra : List (Event κ)}
    {out out' : Except (EvalError κ) (Value κ) × State κ σ} (h : AgreeBut V before extra out out') :
    AgreeBut V before extra (Run.concluded out) (Run.concluded out') := by
  obtain ⟨after, after', hout, hout', hafter, -⟩ := h.events
  have hclosing := List.rel_append hafter h.outcome.closing
  refine ⟨h.outcome, h.depth, _, _, ?_, ?_, hclosing, Event.map_render_eq hV hclosing⟩
  · rw [Run.events_concluded, hout, List.append_assoc, List.append_assoc]
  · rw [Run.events_concluded, hout', List.append_assoc]

end Run.AgreeBut

section

variable {host : Host κ σ} {env : Env κ} {context : Context} {store store₁ : Store σ}

/-- With the flag down, the two forms of a `let` part when the value of `v` is bound. -/
theorem letIn_agree (henv : env.Within fun _ => False)
    (hclear : context.isInterrupted store = false) {f : String} {v : Expr} (b : Expr)
    {r : Except (EvalError κ) (Value κ)} {events : List (Event κ)}
    (hrun : (v.evalWith (callAt host context.room) env).Records context store r events store₁)
    (hheld : ∀ u, r = .ok u → u.Within fun _ => False)
    (hf : ∀ c, r = .ok (.closure c) → f ∉ c.body.free ∨ f = c.param ∨ c.selfName = some f)
    (log : List (Event κ)) :
    Run.AgreeBut Value.Interchangeable (log.reverse ++ events) (Outcome.knot f r)
      ((Expr.letIn true f v b).eval host env ⟨context, store, log⟩)
      ((Expr.letIn false f v b).eval host env ⟨context, store, log⟩) := by
  have hV : Value.Lexical (Value.Interchangeable (κ := κ)) := Value.interchangeable_lexical
  have hagree : env.AgreeOn Value.Interchangeable v.free env :=
    fun x _ => hV.lookup_self henv x
  cases r with
  | error e =>
      have hcut (rec : Bool) : ((Expr.letIn rec f v b).evalWith (callAt host context.room)
          env).Records context store (.error e) (events ++ ([] ++ [])) store₁ := by
        rw [List.append_nil, List.append_nil]
        exact hrun.letIn_error hclear
      obtain ⟨hout, -⟩ := hV.records hagree rfl hrun hrun
      exact .of_records hV.faithful (hcut true) (hcut false) hout .nil log
  | ok u =>
      have hu := hheld u rfl
      obtain ⟨w, store₂, htied, hraised, hw, hwu⟩ :=
        Value.bound_interchangeable hu (fun c hc => hf c (hc ▸ rfl)) context store₁
      have hplain : (u.bound false f : Run κ σ (Value κ)).Records context store₁ (.ok u) []
          store₁ :=
        fun log => Value.bound_plain (.inl rfl) f _
      obtain ⟨r, after, t, hbody, -⟩ := b.exists_records host (.frame store₂.next f w env)
        ⟨hw, henv⟩ context (store₂.taken 1)
      obtain ⟨r', after', t', hbody', -⟩ := b.exists_records host (.frame store₁.next f u env)
        ⟨hu, henv⟩ context (store₁.taken 1)
      have hbodies : Env.AgreeOn Value.Interchangeable b.free (.frame store₂.next f w env)
          (.frame store₁.next f u env) := .frame (fun x _ => hV.lookup_self henv x) hwu _ _
      have hflag : context.isInterrupted (store₂.taken 1) =
          context.isInterrupted (store₁.taken 1) := congrFun hraised context.flag
      obtain ⟨hout, hafter⟩ := hV.records hbodies hflag hbody hbody'
      exact .of_records hV.faithful (hrun.letIn hclear htied hbody)
        (hrun.letIn hclear hplain hbody') hout hafter log

/-- With the flag up, neither form of a `let` gets as far as its value. -/
theorem letIn_agree_raised (hraised : context.isInterrupted store = true) (f : String) (v b : Expr)
    (log : List (Event κ)) :
    Run.AgreeBut Value.Interchangeable log.reverse []
      ((Expr.letIn true f v b).eval host env ⟨context, store, log⟩)
      ((Expr.letIn false f v b).eval host env ⟨context, store, log⟩) := by
  rw [Expr.eval_of_raised host _ env hraised, Expr.eval_of_raised host _ env hraised]
  refine ⟨.error .interrupted, rfl, [.interrupted .letIn], [.interrupted .letIn], ?_, ?_,
    .cons (.interrupted .letIn) .nil, rfl⟩
  · simp [Run.State.events, Expr.kind]
  · simp [Run.State.events, Expr.kind]

end

/-- **Where `let rec` is `let`.**  Let the environment hold no functions of the host, and if `v`
comes to a closure, let the name `f` not be free in its body, or be its parameter, or be its self
name already.  Then `let rec f = v in b` and `let f = v in b` end alike and at the same depth, and
they record the same but for one event: if `v` comes to a closure, the `let rec` records that it
ties it, right after what `v` has recorded.  The same holds of evaluations that are recorded as a
whole. -/
theorem letRec_agrees_with_let (host : Host κ σ) (env : Env κ) (henv : env.Within fun _ => False)
    (context : Context) (store : Store σ) (f : String) (v b : Expr)
    (hf : ∀ c, (v.eval host env (.start context store)).1 = .ok (.closure c) →
      f ∉ c.body.free ∨ f = c.param ∨ c.selfName = some f) :
    let s : Run.State κ σ := .start context store
    let value := v.eval host env s
    ∃ before, (context.isInterrupted store = false → before = value.2.events) ∧
      Run.AgreeBut Value.Interchangeable before (Outcome.knot f value.1)
        ((Expr.letIn true f v b).eval host env s) ((Expr.letIn false f v b).eval host env s) ∧
      Run.AgreeBut Value.Interchangeable (.begun .letIn :: before) (Outcome.knot f value.1)
        ((Expr.letIn true f v b).evalLogged host env s)
        ((Expr.letIn false f v b).evalLogged host env s) := by
  intro s value
  have hV := (Value.interchangeable_lexical (κ := κ)).faithful
  simp only [Expr.evalLogged_eq]
  cases hflag : context.isInterrupted store with
  | true =>
      have hvalue : value.1 = .error .interrupted :=
        congrArg Prod.fst (v.eval_of_raised (s := s) host env hflag)
      rw [hvalue]
      refine ⟨[], fun h => ?_, letIn_agree_raised hflag f v b [],
        (letIn_agree_raised hflag f v b [.begun .letIn]).concluded hV⟩
      cases h
  | false =>
      obtain ⟨r, events, store₁, hrun, hheld⟩ := v.exists_records host env henv context store
      have hvalue : value = (r, ⟨context, store₁, events.reverse ++ []⟩) := hrun []
      have hevents : events = value.2.events := by simp [hvalue, Run.State.events]
      have hr : value.1 = r := congrArg Prod.fst hvalue
      have hagree := letIn_agree henv hflag b hrun hheld fun c hc => hf c (hr.trans hc)
      rw [hr]
      exact ⟨events, fun _ => hevents, hagree [], (hagree [.begun .letIn]).concluded hV⟩

/-- A closure with the self name `h` is bound to `f` and tied again, to `g`; called as `g`, it goes
round until there is no room.  Tied to `f` first or not, it does the same. -/
theorem letRec_agrees_with_let_retied :
    let env : Env Stock := .frame 2 "k" (.closure selfApplying) .empty
    let s : Run.State Stock Stock.Counts := .start ⟨1, 0, 0⟩ ⟨3, fun _ => false, fun _ => 0⟩
    let bound (rec : Bool) : Expr := .letIn rec "f" (.var "k")
      (.letIn true "g" (.var "f") (.app (.var "g") (.int 1)))
    ((bound false).eval Stock.host env s).1 = .error (.stackOverflow 1 1) ∧
    ((bound true).eval Stock.host env s).1 = .error (.stackOverflow 1 1) ∧
    Run.AgreeBut Value.Interchangeable [] [.tied "f" "x"]
      ((bound true).eval Stock.host env s) ((bound false).eval Stock.host env s) ∧
    Run.AgreeBut Value.Interchangeable [.begun .letIn] [.tied "f" "x"]
      ((bound true).evalLogged Stock.host env s) ((bound false).evalLogged Stock.host env s) := by
  intro env s bound
  have hheld : env.Within fun _ => False := ⟨⟨trivial, trivial, trivial⟩, trivial⟩
  have hk : ((Expr.var "k").eval Stock.host env s).1 = .ok (.closure selfApplying) := rfl
  obtain ⟨before, hbefore, hagree, hlogged⟩ := letRec_agrees_with_let Stock.host env hheld
    ⟨1, 0, 0⟩ ⟨3, fun _ => false, fun _ => 0⟩ "f" (.var "k")
    (.letIn true "g" (.var "f") (.app (.var "g") (.int 1))) fun c hc => by
      cases hk.symm.trans hc
      exact .inl (by decide)
  obtain rfl : before = [] := hbefore rfl
  have hplain : ((bound false).eval Stock.host env s).1 = .error (.stackOverflow 1 1) := rfl
  refine ⟨hplain, ?_, hagree, hlogged⟩
  have hout := hagree.outcome
  rw [hplain] at hout
  generalize ((bound true).eval Stock.host env s).1 = r at hout ⊢
  cases hout with
  | error h =>
      cases h
      rfl

end EagerLambda
