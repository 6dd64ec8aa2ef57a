import EagerLambda.Eval.Stock
import EagerLambda.Proofs.Cutoff
import EagerLambda.Proofs.Steps

/-!
# Interruption — a raised flag cuts a run at a node, and does nothing else

A function of the host that yields its argument, and raises the flag from a certain call on, is
compared with one that does nothing but yield its argument.  An environment over codes in `Unit` has
one function of the host that is yet to be chosen; choosing it is `Env.recode`, and so the two
environments of the comparison have the same functions in the same places, by the same names.

Either the flag makes no difference, because no node is left to be evaluated when it is raised; or
the run that raises it is interrupted at the next node, and what it had recorded by then is the
beginning of what the other run records (`eval_interrupted_at_node`).  Between the moment the flag
is raised and the interruption no node is evaluated.  The notes of the run show that
(`Run.State.Divided`).
-/

namespace EagerLambda

variable {κ κ' σ : Type}

/-! ### Environments up to the functions of the host -/

/-- Replace the functions of the host. -/
def Code.recode (f : κ → κ') : Code κ → Code κ'
  | .intrinsic i => .intrinsic i
  | .host code => .host (f code)

mutual

/-- Replace the functions of the host, at any depth. -/
def Value.recode (f : κ → κ') : Value κ → Value κ'
  | .int n => .int n
  | .bool b => .bool b
  | .str s => .str s
  | .closure c => .closure (c.recode f)
  | .builtin b => .builtin (b.recode f)

/-- Replace the functions of the host in what the closure has captured. -/
def Closure.recode (f : κ → κ') : Closure κ → Closure κ'
  | .mk id param body selfName env => ⟨id, param, body, selfName, env.recode f⟩

/-- Replace the function that the builtin runs, and those in what it has captured. -/
def Builtin.recode (f : κ → κ') : Builtin κ → Builtin κ'
  | .mk id name code captured => ⟨id, name, code.recode f, captured.recode f⟩

/-- Replace the functions of the host in all values of the chain. -/
def Env.recode (f : κ → κ') : Env κ → Env κ'
  | .empty => .empty
  | .frame id name value rest => .frame id name (value.recode f) (rest.recode f)

end

/-- The two values are the same but for the functions of the host, which are chosen by `f` in the
one and by `g` in the other. -/
def Value.Swapped (f g : κ → κ') (v w : Value κ') : Prop :=
  ∃ u : Value κ, v = u.recode f ∧ w = u.recode g

/-- The same of environments. -/
def Env.Swapped (f g : κ → κ') (env env' : Env κ') : Prop :=
  ∃ chain : Env κ, env = chain.recode f ∧ env' = chain.recode g

variable {f g : κ → κ'}

theorem Value.swapped_faithful : Value.Faithful (Value.Swapped f g) where
  base {v} hv := by
    cases v with
    | int n => exact ⟨.int n, rfl, rfl⟩
    | bool b => exact ⟨.bool b, rfl, rfl⟩
    | str s => exact ⟨.str s, rfl, rfl⟩
    | closure c | builtin b => cases hv
  eq := by
    rintro _ _ ⟨u, rfl, rfl⟩ hv
    cases u with
    | int n | bool b | str s => rfl
    | closure c | builtin b => cases hv
  tag := by
    rintro _ _ ⟨u, rfl, rfl⟩
    cases u <;> rfl
  render := by
    rintro _ _ ⟨u, rfl, rfl⟩
    rcases u with n | b | s | ⟨id, x, b, self, env⟩ | ⟨id, name, code, captured⟩ <;> rfl

theorem Env.lookup?_recode (h : κ → κ') (x : String) :
    ∀ env : Env κ, (env.recode h).lookup? x = (env.lookup? x).map (Value.recode h)
  | .empty => rfl
  | .frame id y v rest => by
      simp only [Env.recode, Env.lookup?]
      split
      · rfl
      · exact Env.lookup?_recode h x rest

theorem Env.Swapped.lookup {env env' : Env κ'} (h : env.Swapped f g env') (x : String) :
    Option.Rel (Value.Swapped f g) (env.lookup? x) (env'.lookup? x) := by
  obtain ⟨chain, rfl, rfl⟩ := h
  rw [Env.lookup?_recode, Env.lookup?_recode]
  cases chain.lookup? x with
  | none => exact .none
  | some u => exact .some ⟨u, rfl, rfl⟩

theorem Value.swapped_closure_iff {c : Closure κ'} {w : Value κ'} :
    Value.Swapped f g (.closure c) w ↔
      ∃ env', w = .closure { c with env := env' } ∧ c.env.Swapped f g env' := by
  obtain ⟨id, x, b, self, env⟩ := c
  constructor
  · rintro ⟨u, hu, rfl⟩
    cases u with
    | closure d =>
        obtain ⟨id, x, b, self, chain⟩ := d
        cases hu
        exact ⟨chain.recode g, rfl, chain, rfl, rfl⟩
    | int n | bool b | str s | builtin b => cases hu
  · rintro ⟨_, rfl, chain, rfl, rfl⟩
    exact ⟨.closure ⟨id, x, b, self, chain⟩, rfl, rfl⟩

/-! ### Functions that raise the flag, and functions that do not -/

/-- No stock function lowers a flag. -/
theorem Stock.host_neverLowers : Stock.host.NeverLowers := by
  intro code captured arg t flag hraised
  cases code with
  | identity | negate | fail | pair name => exact hraised
  | join =>
      simp only [Stock.host, Stock.call]
      cases captured.lookup? Stock.first with
      | none | some a => exact hraised
  | stop cell flag' k =>
      rw [Stock.call_stop]
      split
      · simp only [Store.setFlag]
        split
        · rfl
        · exact hraised
      · exact hraised

/-! ### The comparison -/

section

variable (cell : Nat) (flag : Flag) (k : Int)

/-- The same value but for one function: in the first it raises `flag` from its call number `k` on,
in the second it is the identity. -/
abbrev Value.Stopped : Value Stock → Value Stock → Prop :=
  Value.Swapped (fun _ : Unit => .stop cell flag k) fun _ => .identity

/-- The same state but for that function, in a context with the limit `limit`.  In the second run
the flag is down, in the first it may have been raised since the last node. -/
structure Run.State.Stopped (limit d : Nat) (s t : Run.State Stock Stock.Counts) : Prop where
  context : s.context = ⟨limit, d, flag⟩
  same : t.context = ⟨limit, d, flag⟩
  next : s.store.next = t.store.next
  clear : t.store.raised flag = false
  unbroken : ∀ kind, .interrupted kind ∉ s.log
  log : List.Forall₂ (Event.Like (Value.Stopped cell flag k)) s.log t.log

/-- Runs with a function that raises the flag beside runs with the identity in its place. -/
def stopped (limit : Nat) : Cutoff Stock Stock.Counts where
  value := Value.Stopped cell flag k
  env := Env.Swapped (fun _ : Unit => .stop cell flag k) fun _ => .identity
  state := Run.State.Stopped cell flag k limit
  error := .interrupted
  cut s t := ∃ kind before before', s.log = .interrupted kind :: before ∧
    (∀ kind, .interrupted kind ∉ before) ∧
    List.Forall₂ (Event.Like (Value.Stopped cell flag k)) before before' ∧ before' <:+ t.log

end

variable {cell : Nat} {flag : Flag} {k : Int} {limit : Nat}

namespace Run.State.Stopped

variable {d : Nat} {s t : Run.State Stock Stock.Counts}

/-- The stores matter only for the next identity and for the flag of the second run. -/
theorem stores (h : Stopped cell flag k limit d s t) {store store' : Store Stock.Counts}
    (hnext : store.next = store'.next) (hclear : store'.raised flag = false) :
    Stopped cell flag k limit d { s with store } { t with store := store' } :=
  ⟨h.context, h.same, hnext, hclear, h.unbroken, h.log⟩

/-- One event more in both logs, unless it tells of an interruption. -/
theorem cons (h : Stopped cell flag k limit d s t) {event event' : Event Stock}
    (he : event.Like (Value.Stopped cell flag k) event')
    (hne : ∀ kind, event ≠ .interrupted kind) :
    Stopped cell flag k limit d { s with log := event :: s.log }
      { t with log := event' :: t.log } := by
  refine ⟨h.context, h.same, h.next, h.clear, fun kind hmem => ?_, .cons he h.log⟩
  rcases List.mem_cons.mp hmem with heq | hmem
  · exact hne kind heq.symm
  · exact h.unbroken kind hmem

theorem isInterrupted (h : Stopped cell flag k limit d s t) :
    t.context.isInterrupted t.store = false := by
  rw [Context.isInterrupted, h.same, h.clear]

end Run.State.Stopped

/-- The flag is found raised in the first run only, and that cuts it short. -/
theorem stopped_poll (d : Nat) (kind : Kind) :
    Run.Until (stopped cell flag k limit) d (fun _ _ => True) (Run.poll kind) (Run.poll kind) := by
  intro s t hst
  rw [Run.poll_clear kind (Run.State.Stopped.isInterrupted hst)]
  by_cases hraised : s.context.isInterrupted s.store = true
  · rw [Run.poll, if_pos hraised]
    exact .inr ⟨rfl, kind, s.log, t.log, rfl, hst.unbroken, hst.log, List.suffix_refl _⟩
  · rw [Run.poll_clear kind (Bool.eq_false_iff.mpr hraised)]
    exact .inl ⟨.ok trivial, hst⟩

/-- The stopping function and the identity yield the same, and whether the flag was raised does not
show before the next node. -/
theorem stopped_builtin (d : Nat) {b b' : Builtin Stock} {v v' : Value Stock}
    (hb : Value.Stopped cell flag k (.builtin b) (.builtin b'))
    (hv : Value.Stopped cell flag k v v') :
    Run.Until (stopped cell flag k limit) d (Value.Stopped cell flag k) (b.run Stock.host v)
      (b'.run Stock.host v') := by
  intro s t hst
  obtain ⟨u, hu, hu'⟩ := hb
  cases u with
  | int n | bool n | str n | closure n => cases hu
  | builtin b₀ =>
      obtain ⟨id, name, code, captured⟩ := b₀
      cases hu
      cases hu'
      have hevent : (Event.builtinCall name v).Like (Value.Stopped cell flag k)
          (.builtinCall name v') := .builtinCall name hv
      have hst' := Run.State.Stopped.cons hst hevent fun _ h => by cases h
      cases code with
      | intrinsic i =>
          rw [Builtin.run_intrinsic Stock.host rfl, Builtin.run_intrinsic Stock.host rfl]
          exact .inl ⟨i.apply_like Value.swapped_faithful.toKindred hv, hst'⟩
      | host code =>
          have hidentity (captured : Env Stock) :
              Stock.host.call .identity captured v' t.store = (.ok v', t.store) := rfl
          rw [Builtin.run_host Stock.host rfl, Builtin.run_host Stock.host rfl, Stock.call_stop,
            hidentity]
          refine .inl ⟨.ok hv, hst'.stores ?_ hst.clear⟩
          split <;> exact hst.next

theorem stopped_lawful (cell : Nat) (flag : Flag) (k : Int) (limit : Nat) :
    (stopped cell flag k limit).Lawful Stock.host where
  faithful := Value.swapped_faithful
  lookup h x := h.lookup x
  frame := by
    rintro _ _ _ _ ⟨chain, rfl, rfl⟩ ⟨u, rfl, rfl⟩ id x
    exact ⟨.frame id x u chain, rfl, rfl⟩
  closure_iff := Value.swapped_closure_iff
  depth h := ⟨by rw [h.context], by rw [h.same]⟩
  next h := h.next
  taken h n := h.stores (congrArg (· + n) h.next) h.clear
  record h hevent hwork := h.cons hevent fun kind heq => by
    rw [heq] at hwork
    cases hwork
  deeper h _ := ⟨by rw [h.context], by rw [h.same], h.next, h.clear, h.unbroken, h.log⟩
  leave h := ⟨congrArg Context.leave h.context, congrArg Context.leave h.same, h.next, h.clear,
    h.unbroken, h.log⟩
  poll := stopped_poll
  builtin := stopped_builtin
  cut_mono := by
    rintro s t t' ⟨kind, before, before', hlog, hnone, hlike, hsub⟩ hgrow
    exact ⟨kind, before, before', hlog, hnone, hlike, hsub.trans hgrow⟩
  cut_leave h := h

/-! ### Calls and expressions -/

/-- A call at the limit is refused in both runs. -/
theorem overflow_stopped {d : Nat} {s t : Run.State Stock Stock.Counts}
    (hst : Run.State.Stopped cell flag k limit d s t) :
    (stopped cell flag k limit).Ends d (Value.Stopped cell flag k) (Run.overflow s)
      (Run.overflow t) := by
  simp only [Run.overflow, hst.context, hst.same]
  refine .inl ⟨.error (.stackOverflow d limit), ?_⟩
  have hcons := hst.cons (.limitReached d limit) fun _ h => by cases h
  rwa [hst.context, hst.same] at hcons

theorem callAt_stopped (room : Nat) : ∀ d, limit ≤ d + room → ∀ u u' v v',
    Value.Stopped cell flag k u u' → Value.Stopped cell flag k v v' →
      Run.Until (stopped cell flag k limit) d (Value.Stopped cell flag k)
        (callAt Stock.host room u v) (callAt Stock.host room u' v') := by
  have hlaw := stopped_lawful cell flag k limit
  induction room with
  | zero =>
      intro d hle
      refine hlaw.callAt fun c c' v v' hc hv s t hst => ?_
      rw [callAt_closure_full Stock.host 0 c v (by rwa [hst.context]),
        callAt_closure_full Stock.host 0 c' v' (by rwa [hst.same])]
      exact overflow_stopped hst
  | succ room ih =>
      intro d hle
      refine hlaw.callAt fun c c' v v' hc hv s t hst => ?_
      by_cases hroom : d < limit
      · have hbody := hlaw.evalWith (ih (d + 1) (by omega)) (callAt_adds Stock.host room)
        exact hlaw.closure_within hbody hc hv hst (by rwa [hst.context]) (by rwa [hst.same])
      · have hfull : limit ≤ d := Nat.le_of_not_lt hroom
        rw [callAt_closure_full Stock.host (room + 1) c v (by rwa [hst.context]),
          callAt_closure_full Stock.host (room + 1) c' v' (by rwa [hst.same])]
        exact overflow_stopped hst

theorem eval_stopped (e : Expr) (chain : Env Unit) (d : Nat) :
    Run.Until (stopped cell flag k limit) d (Value.Stopped cell flag k)
      (e.eval Stock.host (chain.recode fun _ => .stop cell flag k))
      (e.eval Stock.host (chain.recode fun _ => .identity)) := by
  intro s t hst
  have hroom : s.context.room = limit - d := by rw [hst.context]; rfl
  have hroom' : t.context.room = limit - d := by rw [hst.same]; rfl
  rw [Expr.eval, Expr.eval, hroom, hroom']
  exact (stopped_lawful cell flag k limit).evalWith (callAt_stopped (limit - d) d (by omega))
    (callAt_adds Stock.host _) e _ _ ⟨chain, rfl, rfl⟩ s t hst

/-! ### A flag that is raised from the start -/

/-- Nothing is done but to find the flag raised. -/
theorem Expr.eval_of_raised (host : Host κ σ) (e : Expr) (env : Env κ) {s : Run.State κ σ}
    (h : s.context.isInterrupted s.store = true) :
    e.eval host env s = (.error .interrupted, { s with log := .interrupted e.kind :: s.log }) := by
  cases e <;> exact Run.bind_error (Run.poll_raised _ h)

/-- And nothing is noted. -/
theorem Expr.evalNoting_of_raised (host : Host κ σ) (e : Expr) (env : Env κ)
    {s : Run.State κ (Diary κ σ)} (h : s.context.isInterrupted s.store = true) :
    e.evalNoting host env s =
      (.error .interrupted, { s with log := .interrupted e.kind :: s.log }) := by
  cases e <;> exact Run.bind_error (Run.bind_error (Run.poll_raised _ h))

/-! ### The law -/

/-- What a flag that is raised along the way makes of a run with the outcome `out'`: either nothing
changes, or the run is interrupted, once, and what it had recorded before that is the beginning of
what the other run records. -/
def Run.CutAtNode (V : Value κ → Value κ → Prop)
    (out out' : Except (EvalError κ) (Value κ) × Run.State κ σ) : Prop :=
  Run.Agree V out out' ∨
  (out.1 = .error .interrupted ∧ ∃ kind before before' after,
    out.2.events = before ++ .interrupted kind :: after ∧
    (∀ kind, .interrupted kind ∉ before ++ after) ∧
    List.Forall₂ (Event.Like V) before before' ∧ before' <+: out'.2.events)

/-- Runs that agree still do when they are recorded as a whole. -/
theorem Run.Agree.concluded {V : Value κ → Value κ → Prop} (hV : Value.Faithful V)
    {out out' : Except (EvalError κ) (Value κ) × Run.State κ σ} (h : Run.Agree V out out') :
    Run.Agree V (Run.concluded out) (Run.concluded out') := by
  have hevents : List.Forall₂ (Event.Like V) (Run.concluded out).2.events
      (Run.concluded out').2.events := by
    rw [Run.events_concluded, Run.events_concluded]
    exact List.rel_append h.events h.outcome.closing
  exact ⟨h.outcome, h.depth, hevents, Event.map_render_eq hV hevents⟩

theorem Run.CutAtNode.concluded {V : Value κ → Value κ → Prop} (hV : Value.Faithful V)
    {out out' : Except (EvalError κ) (Value κ) × Run.State κ σ} (h : Run.CutAtNode V out out') :
    Run.CutAtNode V (Run.concluded out) (Run.concluded out') := by
  rcases h with hagree | ⟨herr, kind, before, before', after, hevents, hnone, hlike, hsub⟩
  · exact .inl (hagree.concluded hV)
  · refine .inr ⟨herr, kind, before, before', after ++ Run.closing out.1, ?_, ?_, hlike, ?_⟩
    · rw [Run.events_concluded, hevents, List.append_assoc, List.cons_append]
    · simpa [herr, Run.closing] using hnone
    · rw [Run.events_concluded]
      exact hsub.trans (List.prefix_append _ _)

/-- From a state with nothing recorded but harmless events, the run with the function that raises
the flag is cut at a node or agrees with the run with the identity. -/
theorem eval_cutAtNode (cell : Nat) (k : Int) (e : Expr) (chain : Env Unit)
    (s : Run.State Stock Stock.Counts) (hlog : ∀ kind, .interrupted kind ∉ s.log)
    (hself : List.Forall₂ (Event.Like (Value.Stopped cell s.context.flag k)) s.log s.log) :
    Run.CutAtNode (Value.Stopped cell s.context.flag k)
      (e.eval Stock.host (chain.recode fun _ => .stop cell s.context.flag k) s)
      (e.eval Stock.host (chain.recode fun _ => .identity) s) := by
  cases hflag : s.context.isInterrupted s.store with
  | true =>
      rw [e.eval_of_raised _ _ hflag, e.eval_of_raised _ _ hflag]
      have hevents := List.forall₂_reverse_iff.mpr (hself.cons (.interrupted e.kind))
      exact .inl ⟨.error .interrupted, rfl, hevents, rfl⟩
  | false =>
      have hst : Run.State.Stopped cell s.context.flag k s.context.limit s.context.depth s s :=
        ⟨rfl, rfl, rfl, hflag, hlog, hself⟩
      rcases eval_stopped e chain s.context.depth s s hst with
        ⟨hout, hst'⟩ | ⟨herr, kind, before, before', hcut, hnone, hlike, hsub⟩
      · have hevents := List.forall₂_reverse_iff.mpr hst'.log
        exact .inl ⟨hout, by rw [hst'.context, hst'.same], hevents,
          Event.map_render_eq Value.swapped_faithful hevents⟩
      · refine .inr ⟨herr, kind, before.reverse, before'.reverse, [], ?_, ?_,
          List.forall₂_reverse_iff.mpr hlike, List.reverse_prefix.mpr hsub⟩
        · simp [Run.State.events, hcut]
        · simpa using hnone

/-- **Interruption cuts a run at a node and does nothing else.**  In one environment a function of
the host yields its argument and raises the flag of the context first, from its call number `k` on;
in another the identity stands in its place.

* The two runs agree, or the first is interrupted, and what it had recorded before that is a
  beginning of what the second records.  This holds of an evaluation on its own and of one that is
  recorded as a whole.
* With the steps of the first run noted down, those taken with the flag down come first.  After the
  flag was raised, no node is evaluated any more: all there can be are operators, bindings and calls
  whose operands were there already.
* If the flag is raised from the start, the run is interrupted at once.  No step is taken, and the
  store is left as it was. -/
theorem eval_interrupted_at_node (e : Expr) (chain : Env Unit) (context : Context)
    (store : Store Stock.Counts) (cell : Nat) (k : Int) :
    let stopping : Env Stock := chain.recode fun _ => .stop cell context.flag k
    let passing : Env Stock := chain.recode fun _ => .identity
    let s : Run.State Stock Stock.Counts := .start context store
    let noted := e.evalNoting Stock.host stopping s.noting
    Run.CutAtNode (Value.Stopped cell context.flag k) (e.eval Stock.host stopping s)
      (e.eval Stock.host passing s) ∧
    Run.CutAtNode (Value.Stopped cell context.flag k) (e.evalLogged Stock.host stopping s)
      (e.evalLogged Stock.host passing s) ∧
    ((noted.1, noted.2.forget) = e.eval Stock.host stopping s ∧
      ∃ before after, noted.2.notes = before ++ after ∧ (∀ n ∈ before, n.raised = false) ∧
        ∀ n ∈ after, n.raised = true ∧ n.step.isNode = false) ∧
    (context.isInterrupted store = true →
      e.eval Stock.host stopping s =
        (.error .interrupted, ⟨context, store, [.interrupted e.kind]⟩) ∧
      noted.2.notes = []) := by
  intro stopping passing s noted
  have hempty : s.noting.Divided := ⟨[], [], rfl, by simp, by simp, fun _ => rfl⟩
  obtain ⟨hout, hstate, up, down, hnotes, hup, hdown, -⟩ :=
    evalNoting_notes Stock.host_neverLowers e stopping s.noting hempty
  refine ⟨?_, ?_, ⟨Prod.ext hout hstate, down.reverse, up.reverse, ?_, ?_, ?_⟩,
    fun hraised => ⟨e.eval_of_raised Stock.host stopping hraised, ?_⟩⟩
  · exact eval_cutAtNode cell k e chain s (fun _ => List.not_mem_nil) .nil
  · rw [Expr.evalLogged_eq, Expr.evalLogged_eq]
    have hbegun := eval_cutAtNode cell k e chain { s with log := [.begun e.kind] } (by simp)
      (.cons (.begun e.kind) .nil)
    exact hbegun.concluded Value.swapped_faithful
  · show noted.2.store.host.notes.reverse = _
    rw [hnotes, List.reverse_append]
  · simpa using hdown
  · simpa using hup
  · show (e.evalNoting Stock.host stopping s.noting).2.notes = []
    rw [e.evalNoting_of_raised Stock.host stopping hraised]
    rfl

/-- An environment in which one function of the host, yet to be chosen, goes by the name `stop`. -/
def withStop : Env Unit := .frame 1 "stop" (.builtin ⟨0, "stop", .host (), .empty⟩) .empty

/-- `let x = 1 + stop 2 in x`. -/
def bindStop : Expr :=
  .letIn false "x" (.binary (.int 1) .add (.app (.var "stop") (.int 2))) (.var "x")

/-- The flag is raised in the call of `stop`.  The sum is still formed and bound, and then the
variable is not evaluated any more.  With the flag raised from the start, nothing is done at all. -/
theorem eval_interrupted_at_node_bindStop :
    let stopping : Env Stock := withStop.recode fun _ => .stop 0 7 1
    let passing : Env Stock := withStop.recode fun _ => .identity
    let s (up : Bool) : Run.State Stock Stock.Counts :=
      .start ⟨5, 0, 7⟩ ⟨2, fun _ => up, fun _ => 0⟩
    let out := bindStop.eval Stock.host stopping (s false)
    let out' := bindStop.eval Stock.host passing (s false)
    let noted := bindStop.evalNoting Stock.host stopping (s false).noting
    (out'.1.toOption.map Value.render = some "3" ∧
      out.2.events.map Event.render = ["TRACE apply builtin builtin=stop arg=2",
        "DEBUG evaluation interrupted kind=variable"] ∧
      Run.CutAtNode (Value.Stopped 0 7 1) out out') ∧
    (noted.2.notes.map Note.raised =
        [false, false, false, false, false, false, false, true, true] ∧
      (noted.1, noted.2.forget) = out) ∧
    (bindStop.eval Stock.host stopping (s true)).1 = .error .interrupted := by
  intro stopping passing s out out' noted
  have hlaw (up : Bool) := eval_interrupted_at_node bindStop withStop ⟨5, 0, 7⟩
    ⟨2, fun _ => up, fun _ => 0⟩ 0 1
  refine ⟨⟨by decide +kernel, by decide +kernel, (hlaw false).1⟩,
    ⟨by decide +kernel, (hlaw false).2.2.1.1⟩, ?_⟩
  exact congrArg Prod.fst ((hlaw true).2.2.2 rfl).1

end EagerLambda
