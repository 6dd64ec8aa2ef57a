import EagerLambda.Eval.Stock
import EagerLambda.Proofs.Cutoff

/-!
# Limit — raising the limit only lengthens a run

Two runs of one expression start from the same state, but for the limit of the context.  They do the
same until the lower limit is reached, and if it never is they are the same run
(`eval_limit_raised`).  In particular, a run that does not overflow is not changed by any higher
limit.

The functions of the host see the store and not the context, so they cannot tell the two runs apart,
whatever flags they raise or lower.

The comparison is a cutoff (`raised`): values and environments are equal, states are equal but for
the limit, and the error that cuts the first run short is the overflow.
-/

namespace EagerLambda

variable {κ σ : Type}

/-! ### The comparison -/

/-- The same context with another limit. -/
def Context.withLimit (c : Context) (limit : Nat) : Context := { c with limit }

/-- The same state with another limit. -/
def Run.State.withLimit (s : Run.State κ σ) (limit : Nat) : Run.State κ σ :=
  { s with context := s.context.withLimit limit }

/-- Runs under the limit `low` beside runs under the limit `high`. -/
def raised (low high : Nat) : Cutoff κ σ where
  value := Eq
  env := Eq
  state d s t := d ≤ low ∧ s.context.depth = d ∧ s.context.limit = low ∧
    (∀ depth limit, .limitReached depth limit ∉ s.log) ∧ t = s.withLimit high
  error := .stackOverflow low low
  cut s t := ∃ before, s.log = .limitReached low low :: before ∧
    (∀ depth limit, .limitReached depth limit ∉ before) ∧ before <:+ t.log

theorem raised_eq {low high d : Nat} {s t : Run.State κ σ} (hst : (raised low high).state d s t) :
    t = s.withLimit high := hst.2.2.2.2

/-- One event more, unless it tells of a refused call, and a change of the store. -/
theorem raised_cons {low high d : Nat} {s : Run.State κ σ}
    (hst : (raised low high).state d s (s.withLimit high)) (event : Event κ)
    (hevent : ∀ depth limit, event ≠ .limitReached depth limit) (store : Store σ) :
    (raised low high).state d ⟨s.context, store, event :: s.log⟩
      (Run.State.withLimit ⟨s.context, store, event :: s.log⟩ high) := by
  obtain ⟨hle, hdepth, hlimit, hlog, -⟩ := hst
  refine ⟨hle, hdepth, hlimit, fun depth limit hmem => ?_, rfl⟩
  rcases List.mem_cons.mp hmem with heq | hmem
  · exact hevent depth limit heq.symm
  · exact hlog depth limit hmem

theorem raised_poll (low high d : Nat) (kind : Kind) :
    Run.Until (raised low high : Cutoff κ σ) d (fun _ _ => True) (Run.poll kind)
      (Run.poll kind) := by
  intro s t hst
  obtain rfl := raised_eq hst
  have hflag : (s.withLimit high).context.isInterrupted (s.withLimit high).store =
      s.context.isInterrupted s.store := rfl
  by_cases hraised : s.context.isInterrupted s.store = true
  · simp only [Run.poll, hflag, if_pos hraised]
    exact .inl ⟨.error .interrupted,
      raised_cons hst (.interrupted kind) (fun _ _ h => by cases h) s.store⟩
  · simp only [Run.poll, hflag, if_neg hraised]
    exact .inl ⟨.ok trivial, hst⟩

/-- A builtin does the same under both limits: it looks at the store only. -/
theorem raised_builtin (host : Host κ σ) (low high d : Nat) (b : Builtin κ) (v : Value κ) :
    Run.Until (raised low high) d Eq (b.run host v) (b.run host v) := by
  intro s t hst
  obtain rfl := raised_eq hst
  cases hb : b.code with
  | intrinsic i =>
      rw [Builtin.run_intrinsic host hb, Builtin.run_intrinsic host hb]
      exact .inl ⟨Outcome.like_eq_iff.mpr rfl,
        raised_cons hst (.builtinCall b.name v) (fun _ _ h => by cases h) s.store⟩
  | host code =>
      rw [Builtin.run_host host hb, Builtin.run_host host hb]
      exact .inl ⟨Outcome.like_eq_iff.mpr rfl,
        raised_cons hst (.builtinCall b.name v) (fun _ _ h => by cases h) _⟩

theorem raised_lawful (host : Host κ σ) (low high : Nat) : (raised low high).Lawful host where
  faithful := Value.eq_faithful
  lookup := by
    rintro env _ rfl x
    cases env.lookup? x with
    | none => exact .none
    | some v => exact .some rfl
  frame := by
    rintro env _ v _ rfl rfl id x
    rfl
  closure_iff := by
    rintro ⟨id, x, b, self, env⟩ w
    constructor
    · rintro rfl
      exact ⟨env, rfl, rfl⟩
    · rintro ⟨_, rfl, rfl⟩
      rfl
  depth := by
    rintro d s _ ⟨-, hdepth, -, -, rfl⟩
    exact ⟨hdepth, hdepth⟩
  next := by
    rintro d s _ ⟨-, -, -, -, rfl⟩
    rfl
  taken := by
    rintro d s _ ⟨hle, hdepth, hlimit, hlog, rfl⟩ n
    exact ⟨hle, hdepth, hlimit, hlog, rfl⟩
  record := by
    intro d s t event event' hst hevent hwork
    obtain rfl := raised_eq hst
    obtain rfl := hevent.eq fun _ _ h => h
    refine raised_cons hst event (fun _ _ heq => ?_) s.store
    rw [heq] at hwork
    cases hwork
  deeper := by
    rintro d s _ ⟨-, -, hlimit, hlog, rfl⟩ hlt
    exact ⟨hlimit ▸ hlt, rfl, hlimit, hlog, rfl⟩
  leave := by
    rintro d s _ ⟨hle, hdepth, hlimit, hlog, rfl⟩
    refine ⟨Nat.le_of_succ_le hle, ?_, hlimit, hlog, rfl⟩
    simp [Run.State.leave, Context.leave, hdepth]
  poll := raised_poll low high
  builtin := by
    intro d b b' v v' hb hv
    obtain rfl : b = b' := by injection hb
    obtain rfl : v = v' := hv
    exact raised_builtin host low high d b v
  cut_mono := by
    rintro s t t' ⟨before, hlog, hnone, hsub⟩ hgrow
    exact ⟨before, hlog, hnone, hsub.trans hgrow⟩
  cut_leave h := h

/-! ### Calls and expressions -/

/-- With room for `room` calls under the lower limit and for `room'` calls under the higher one. -/
theorem callAt_raised (host : Host κ σ) {low high : Nat} (hle : low ≤ high) (room : Nat) :
    ∀ room' d, d + room = low → d + room' = high → ∀ u u' v v', u = u' → v = v' →
      Run.Until (raised low high) d Eq (callAt host room u v) (callAt host room' u' v') := by
  have hlaw := raised_lawful host low high
  induction room with
  | zero =>
      intro room' d hlow hhigh
      refine hlaw.callAt fun c c' v v' hc hv s t hst => .inr ?_
      -- the first run is cut short here, and the second goes on from the same log
      obtain ⟨-, hdepth, hlimit, hlog, rfl⟩ := hst
      rw [callAt_closure_full host 0 c v (by omega)]
      have hfull : s.context.depth = low := hdepth.trans hlow
      simp only [Run.overflow, hfull, hlimit]
      exact ⟨rfl, s.log, rfl, hlog, (callAt_adds host room' _ _).suffix (s.withLimit high)⟩
  | succ room ih =>
      intro room' d hlow hhigh
      obtain ⟨room', rfl⟩ : ∃ n, room' = n + 1 := ⟨room' - 1, by omega⟩
      refine hlaw.callAt fun c c' v v' hc hv s t hst => ?_
      have hbody := hlaw.evalWith (ih room' (d + 1) (by omega) (by omega)) (callAt_adds host room')
      have hs : s.context.limit = low := hst.2.2.1
      have ht : t.context.limit = high := by rw [raised_eq hst]; rfl
      exact hlaw.closure_within hbody hc hv hst (by omega) (by omega)

theorem eval_raised (host : Host κ σ) {low high : Nat} (hle : low ≤ high) (e : Expr) (env : Env κ)
    (d : Nat) : Run.Until (raised low high) d Eq (e.eval host env) (e.eval host env) := by
  intro s t hst
  have hlaw := raised_lawful host low high
  obtain ⟨hd, hdepth, hlimit, -, rfl⟩ := id hst
  have hcall := callAt_raised host hle (low - d) (high - d) d (by omega) (by omega)
  have hroom : s.context.room = low - d := by rw [Context.room, hdepth, hlimit]
  have hroom' : (s.withLimit high).context.room = high - d := by
    show high - s.context.depth = high - d
    rw [hdepth]
  rw [Expr.eval, Expr.eval, hroom, hroom']
  exact hlaw.evalWith hcall (callAt_adds host _) e env env rfl s _ hst

/-! ### The law -/

/-- What a higher limit makes of a run with the outcome `out`: either nothing changes, or the run
was refused a call at the limit `low`, and what it had recorded before that is the beginning of what
the run with the outcome `out'` records. -/
def Run.Lengthens (low : Nat) (out out' : Except (EvalError κ) (Value κ) × Run.State κ σ) : Prop :=
  (out'.1 = out.1 ∧ out'.2.events = out.2.events ∧ out'.2.store = out.2.store ∧
    out'.2.context.depth = out.2.context.depth) ∨
  (out.1 = .error (.stackOverflow low low) ∧ ∃ before after,
    out.2.events = before ++ .limitReached low low :: after ∧
    (∀ depth limit, .limitReached depth limit ∉ before ++ after) ∧ before <+: out'.2.events)

theorem Run.Lengthens.of_ends {low high d : Nat}
    {out out' : Except (EvalError κ) (Value κ) × Run.State κ σ}
    (h : (raised low high).Ends d Eq out out') : Run.Lengthens low out out' := by
  rcases h with ⟨hout, hst⟩ | ⟨herr, before, hlog, hnone, hsub⟩
  · rw [Run.Lengthens, raised_eq hst]
    exact .inl ⟨(Outcome.like_eq_iff.mp hout).symm, rfl, rfl, rfl⟩
  · refine .inr ⟨herr, before.reverse, [], ?_, ?_, List.reverse_prefix.mpr hsub⟩
    · simp [Run.State.events, hlog]
    · simpa using hnone

/-- The same when the runs are recorded as a whole. -/
theorem Run.Lengthens.concluded {low : Nat}
    {out out' : Except (EvalError κ) (Value κ) × Run.State κ σ} (h : Run.Lengthens low out out') :
    Run.Lengthens low (Run.concluded out) (Run.concluded out') := by
  rcases h with ⟨hout, hevents, hstore, hdepth⟩ | ⟨herr, before, after, hevents, hnone, hsub⟩
  · refine .inl ⟨hout, ?_, hstore, hdepth⟩
    rw [Run.events_concluded, Run.events_concluded, hevents, hout]
  · refine .inr ⟨herr, before, after ++ Run.closing out.1, ?_, ?_, ?_⟩
    · rw [Run.events_concluded, hevents, List.append_assoc, List.cons_append]
    · simpa [herr, Run.closing] using hnone
    · rw [Run.events_concluded]
      exact hsub.trans (List.prefix_append _ _)

/-- **Raising the limit only lengthens a run.**  From the same state, under two limits that are not
below the present depth, the runs have the same outcome, record the same events and leave the same
store, with all its flags; or the one under the lower limit is refused a call at this very limit,
and what it had recorded before is a beginning of what the other one records.  This holds of an
evaluation on its own and of one that is recorded as a whole.

Hence any outcome but an overflow is the outcome under every higher limit. -/
theorem eval_limit_raised (host : Host κ σ) (e : Expr) (env : Env κ) (context : Context)
    (store : Store σ) {low high : Nat} (hle : low ≤ high) (hdepth : context.depth ≤ low) :
    let under (limit : Nat) : Run.State κ σ := .start (context.withLimit limit) store
    Run.Lengthens low (e.eval host env (under low)) (e.eval host env (under high)) ∧
    Run.Lengthens low (e.evalLogged host env (under low)) (e.evalLogged host env (under high)) ∧
    ((∀ depth limit, (e.eval host env (under low)).1 ≠ .error (.stackOverflow depth limit)) →
      (e.eval host env (under high)).1 = (e.eval host env (under low)).1) := by
  intro under
  have hlaw (log : List (Event κ)) (hlog : ∀ depth limit, .limitReached depth limit ∉ log) :
      Run.Lengthens low (e.eval host env { under low with log })
        (e.eval host env { under high with log }) :=
    .of_ends (eval_raised host hle e env context.depth _ _ ⟨hdepth, rfl, rfl, hlog, rfl⟩)
  have heval := hlaw [] (by simp)
  refine ⟨heval, ?_, fun hne => ?_⟩
  · rw [Expr.evalLogged_eq, Expr.evalLogged_eq]
    exact (hlaw [.begun e.kind] (by simp)).concluded
  · rcases heval with ⟨hout, -⟩ | ⟨herr, -⟩
    · exact hout
    · exact absurd herr (hne low low)

/-- `(\x => (\y => stop y) x) 5`: two nested calls, and within them one of the function `stop`. -/
def stopInside : Expr :=
  .app (.lam "x" none (.app (.lam "y" none (.app (.var "stop") (.var "y"))) (.var "x"))) (.int 5)

/-- An environment in which `stop` raises the flag `0` as soon as it is called. -/
def stopping : Env Stock :=
  .frame 1 "stop" (.builtin ⟨0, "stop", .host (.stop 0 0 1), .empty⟩) .empty

/-- With room for one call the run is cut short at the second.  With room for two it ends in a value
and with the flag raised, and so it does with room for three. -/
theorem eval_limit_raised_stopInside :
    let out (limit : Nat) := stopInside.eval Stock.host stopping
      (.start (Context.withLimit ⟨0, 0, 0⟩ limit) ⟨2, fun _ => false, fun _ => 0⟩)
    ((out 1).1 = .error (.stackOverflow 1 1) ∧ Run.Lengthens 1 (out 1) (out 2)) ∧
    ((out 2).1.toOption.map Value.render = some "5" ∧ (out 2).2.store.raised 0 = true ∧
      (out 3).1 = (out 2).1) := by
  intro out
  have hshown : (out 2).1.toOption.map Value.render = some "5" := by decide +kernel
  have hraise (low : Nat) := eval_limit_raised Stock.host stopInside stopping ⟨0, 0, 0⟩
    ⟨2, fun _ => false, fun _ => 0⟩ (Nat.le_succ low) (Nat.zero_le low)
  refine ⟨⟨rfl, (hraise 1).1⟩, hshown, by decide +kernel, (hraise 2).2.2 fun depth limit herr => ?_⟩
  have hnone : (out 2).1.toOption.map Value.render = none := by
    rw [show (out 2).1 = _ from herr]
    rfl
  exact nomatch hshown.symm.trans hnone

end EagerLambda
