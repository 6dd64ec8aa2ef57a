import EagerLambda.Proofs.Interruption
import EagerLambda.Proofs.Invariants
import Mathlib.Data.List.Chain

/-!
# Trail — what the events tell about a run

Which sequences of events a run can record depends on the depth at which it starts, on the limit and
on how it ends.  `Trail` says which: calls, builtins and recursive closures one after the other, the
events of a call after the call itself and one level deeper, and an event at the end if the run was
refused a call or interrupted.  That a trail is added to what was recorded before is an invariant
(`trails`), and so every evaluation adds one, the same whatever was recorded before
(`eval_follows`).

What the trace as a whole tells (`trace_is_faithful`) is proved by induction on the trail.  Nothing
but work is told of until the end, where it is told if the run was cut short (`Trail.split`).  The
depths of the calls are those of a walk through the tree of calls, every call before those inside it
(`Trail.walk`), and a run that is refused a call is at the depth of its last call
(`Trail.refused_at`).
-/

namespace EagerLambda

variable {κ σ α β : Type}

/-! ### Trails -/

/-- The error says that the run was cut short: refused a call, or interrupted. -/
def EvalError.isCut : EvalError κ → Bool
  | .stackOverflow _ _ | .interrupted => true
  | _ => false

/-- A result that satisfies `V`, or an error of a run that was not cut short. -/
def Outcome.Uncut (V : α → Prop) : Except (EvalError κ) α → Prop
  | .ok a => V a
  | .error e => e.isCut = false

/-- The events of a run that starts at the depth `d` and ends in the error `r`, or in none. -/
inductive Trail (limit : Nat) : Nat → Option (EvalError κ) → List (Event κ) → Prop where
  /-- Nothing worth telling, and perhaps an error. -/
  | silent {d : Nat} {r : Option (EvalError κ)} (h : ∀ e, r = some e → e.isCut = false) :
      Trail limit d r []
  | tied {d : Nat} (name param : String) : Trail limit d none [.tied name param]
  | builtin {d : Nat} (name : String) (arg : Value κ) : Trail limit d none [.builtinCall name arg]
  | interrupted {d : Nat} (kind : Kind) :
      Trail limit d (some .interrupted) [.interrupted kind]
  | refused {d : Nat} (h : limit ≤ d) :
      Trail limit d (some (.stackOverflow d limit)) [.limitReached d limit]
  | call {d : Nat} (h : d < limit) (param : String) (arg : Value κ) {r : Option (EvalError κ)}
      {events : List (Event κ)} (hbody : Trail limit (d + 1) r events) :
      Trail limit d r (.closureCall param arg (d + 1) :: events)
  | append {d : Nat} {events : List (Event κ)} (h : Trail limit d none events)
      {r : Option (EvalError κ)} {events' : List (Event κ)} (h' : Trail limit d r events') :
      Trail limit d r (events ++ events')

/-- The depth that a call shows. -/
def Event.depth? : Event κ → Option Nat
  | .closureCall _ _ depth => some depth
  | _ => none

/-- The depths of the calls, in the order in which these were made. -/
def depths (events : List (Event κ)) : List Nat := events.filterMap Event.depth?

theorem depths_append (events events' : List (Event κ)) :
    depths (events ++ events') = depths events ++ depths events' := List.filterMap_append

/-- The events that tell of a cut: none, unless the run was cut short. -/
inductive CutBy : Option (EvalError κ) → List (Event κ) → Prop where
  | none {r : Option (EvalError κ)} (h : ∀ e, r = some e → e.isCut = false) : CutBy r []
  | interrupted (kind : Kind) : CutBy (some .interrupted) [.interrupted kind]
  | refused (depth limit : Nat) :
      CutBy (some (.stackOverflow depth limit)) [.limitReached depth limit]

/-- A depth that is at most one deeper than the last, and deeper than where the walk began. -/
abbrev Descends (start depth next : Nat) : Prop := start < next ∧ next ≤ depth + 1

namespace Trail

variable {limit d : Nat} {r : Option (EvalError κ)} {events : List (Event κ)}

/-- **Nothing but work is told of until the end**, and there it is told if the run was cut short. -/
theorem split (h : Trail limit d r events) :
    ∃ work last, events = work ++ last ∧ (∀ event ∈ work, event.isWork = true) ∧ CutBy r last := by
  induction h with
  | silent h => exact ⟨[], [], rfl, by simp, .none h⟩
  | tied name param => exact ⟨[.tied name param], [], rfl, by simp [Event.isWork], .none (by simp)⟩
  | builtin name arg =>
      exact ⟨[.builtinCall name arg], [], rfl, by simp [Event.isWork], .none (by simp)⟩
  | interrupted kind => exact ⟨[], _, rfl, by simp, .interrupted kind⟩
  | refused h => exact ⟨[], _, rfl, by simp, .refused _ _⟩
  | call h param arg _ ih =>
      obtain ⟨work, last, rfl, hwork, hlast⟩ := ih
      refine ⟨.closureCall param arg _ :: work, last, rfl, fun event hmem => ?_, hlast⟩
      rcases List.mem_cons.mp hmem with rfl | hmem
      · rfl
      · exact hwork event hmem
  | append _ _ ih ih' =>
      obtain ⟨work, last, rfl, hwork, hlast⟩ := ih
      obtain ⟨work', last', rfl, hwork', hlast'⟩ := ih'
      cases hlast with
      | none =>
          refine ⟨work ++ work', last', by simp, fun event hmem => ?_, hlast'⟩
          rcases List.mem_append.mp hmem with hmem | hmem
          · exact hwork event hmem
          · exact hwork' event hmem

/-- No call is deeper than the limit, and all are deeper than where the run began. -/
theorem bounded (h : Trail limit d r events) :
    ∀ depth ∈ depths events, d < depth ∧ depth ≤ limit := by
  induction h with
  | silent | tied | builtin | interrupted | refused => simp [depths, Event.depth?]
  | call h param arg _ ih =>
      intro depth hmem
      rcases List.mem_cons.mp hmem with rfl | hmem
      · exact ⟨Nat.lt_succ_self _, h⟩
      · obtain ⟨hlow, hhigh⟩ := ih depth hmem
        exact ⟨Nat.lt_of_succ_lt hlow, hhigh⟩
  | append _ _ ih ih' =>
      intro depth hmem
      rw [depths_append] at hmem
      rcases List.mem_append.mp hmem with hmem | hmem
      · exact ih depth hmem
      · exact ih' depth hmem

/-- **The depths walk through the tree of calls**: each is deeper than where the run began, and at
most one deeper than the one before. -/
theorem walk (h : Trail limit d r events) : (d :: depths events).IsChain (Descends d) := by
  induction h with
  | silent | tied | builtin | interrupted | refused => exact .singleton _
  | @call d h param arg r events _ ih =>
      have hinner : ((d + 1) :: depths events).IsChain (Descends d) :=
        ih.imp fun _ _ h => ⟨Nat.lt_of_succ_lt h.1, h.2⟩
      exact List.isChain_cons_cons.mpr ⟨⟨Nat.lt_succ_self d, Nat.le_refl _⟩, hinner⟩
  | @append d events h r events' h' ih ih' =>
      rw [depths_append, ← List.cons_append]
      refine List.isChain_append.mpr ⟨ih, (List.isChain_cons.mp ih').2, fun x hx y hy => ?_⟩
      -- the first call of the second part is one level below the start, and no call is above it
      have hstart : d ≤ x := by
        rcases List.mem_cons.mp (List.mem_of_getLast? hx) with rfl | hmem
        · exact Nat.le_refl _
        · exact Nat.le_of_lt (h.bounded x hmem).1
      obtain ⟨hlow, hhigh⟩ := (List.isChain_cons.mp ih').1 y hy
      exact ⟨hlow, by omega⟩

/-- **A run is refused a call at the depth of its last call**, or at that where it began if there
was none; and that depth is not below the limit. -/
theorem refused_at (h : Trail limit d r events) {depth top : Nat}
    (hr : r = some (.stackOverflow depth top)) :
    (d :: depths events).getLast? = some depth ∧ limit ≤ depth ∧ top = limit := by
  induction h with
  | silent h => cases h _ hr
  | tied | builtin | interrupted => cases hr
  | refused h =>
      cases hr
      exact ⟨rfl, h, rfl⟩
  | @call d h param arg r events _ ih =>
      obtain ⟨hlast, hfull⟩ := ih hr
      refine ⟨?_, hfull⟩
      rw [← hlast]
      exact List.getLast?_cons_cons
  | @append d events h r events' h' ih ih' =>
      obtain ⟨hlast, hfull⟩ := ih' hr
      refine ⟨?_, hfull⟩
      rw [depths_append]
      rcases List.eq_nil_or_concat (depths events') with hnone | ⟨rest, last, hsome⟩
      · -- the run is refused a call where it began, so there was no room for any call before
        rw [hnone] at hlast ⊢
        obtain rfl : d = depth := by simpa using hlast
        have hempty : depths events = [] := by
          refine List.eq_nil_iff_forall_not_mem.mpr fun x hx => ?_
          obtain ⟨hlow, hhigh⟩ := h.bounded x hx
          omega
        rw [hempty]
        rfl
      · rw [hsome] at hlast ⊢
        simpa [List.getLast?_cons] using hlast

/-- A run that began below the limit is refused a call at the limit, and its last call was there. -/
theorem deepest (h : Trail limit d r events) (hle : d ≤ limit) {depth top : Nat}
    (hr : r = some (.stackOverflow depth top)) :
    depth = limit ∧ top = limit ∧ (d < limit → (depths events).getLast? = some limit) := by
  obtain ⟨hlast, hfull, rfl⟩ := h.refused_at hr
  have hdepth : depth = top := by
    refine Nat.le_antisymm ?_ hfull
    rcases List.mem_cons.mp (List.mem_of_getLast? hlast) with rfl | hmem
    · exact hle
    · exact (h.bounded depth hmem).2
  subst hdepth
  refine ⟨rfl, rfl, fun hlt => ?_⟩
  cases hsome : depths events with
  | nil =>
      rw [hsome] at hlast
      cases hlast
      exact absurd hlt (Nat.lt_irrefl d)
  | cons first rest => rwa [hsome, List.getLast?_cons_cons] at hlast

end Trail

/-! ### Evaluations leave trails -/

theorem Operator.uncut_apply (Q : κ → Prop) (op : Operator) (l r : Value κ) :
    Outcome.Uncut (Value.Within Q) (op.apply l r) := by
  have hans := op.apply_answer l r
  generalize op.apply l r = out at hans
  cases hans with
  | base _ hv => exact Value.every_of_not_callable hv
  | incompatible | byZero | overflow => rfl

theorem Intrinsic.uncut_apply (Q : κ → Prop) (i : Intrinsic) (v : Value κ) :
    Outcome.Uncut (Value.Within Q) (i.apply v) := by
  have hans := i.apply_answer v
  generalize i.apply v = out at hans
  cases hans with
  | base _ hv => exact Value.every_of_not_callable hv
  | invalid | empty | noChar => rfl

/-- The functions in `Q` never complain of a limit or of an interruption, and no other functions
than those in `Q` come from them. -/
def Host.NeverCuts (host : Host κ σ) (Q : κ → Prop) : Prop :=
  ∀ code captured arg (t : Store σ), Q code → captured.Within Q → arg.Within Q →
    Outcome.Uncut (Value.Within Q) (host.call code captured arg t).1

/-- No stock function complains of a limit or of an interruption, not even the one that raises a
flag. -/
theorem Stock.host_neverCuts : Stock.host.NeverCuts fun _ => True := by
  intro code captured arg t _ hcaptured harg
  cases code with
  | identity => exact harg
  | negate => exact Operator.subtract.uncut_apply _ _ _
  | fail => rfl
  | pair name => exact ⟨trivial, harg, trivial⟩
  | join =>
      simp only [Stock.host, Stock.call]
      cases captured.lookup? Stock.first with
      | none => rfl
      | some first => exact Operator.concat.uncut_apply _ _ _
  | stop cell flag after =>
      rw [Stock.call_stop]
      exact harg

theorem Outcome.Uncut.of_error? {V : α → Prop} {out : Except (EvalError κ) α}
    (h : Outcome.Uncut V out) (e : EvalError κ) (he : Outcome.error? out = some e) :
    e.isCut = false := by
  cases out with
  | ok a => cases he
  | error e' =>
      obtain rfl : e' = e := Option.some.inj he
      exact h

theorem EvalError.Raised.uncut {e : EvalError κ} (h : e.Raised) : e.isCut = false := by
  cases h with
  | notAFunction | nonBoolean => rfl
  | @operator op l r _ h =>
      have huncut := op.uncut_apply (fun _ => True) l r
      rw [h] at huncut
      exact huncut

/-- A trail is added to what was recorded before. -/
def trails (Q : κ → Prop) : Invariant κ σ := .within Q fun s r t =>
  ∃ events, t.log = events.reverse ++ s.log ∧ Trail s.context.limit s.context.depth r events

section

variable {Q : κ → Prop}

/-- The event of a builtin, and nothing more unless it fails. -/
theorem Trail.builtin_then {limit d : Nat} (name : String) (arg : Value κ)
    {r : Option (EvalError κ)} (h : ∀ e, r = some e → e.isCut = false) :
    Trail limit d r [.builtinCall name arg] :=
  .append (.builtin name arg) (.silent h)

theorem trails_lawful {host : Host κ σ} (hhost : host.NeverCuts Q) : (trails Q).Lawful host where
  toClosed := Invariant.within_closed _ _
  refl _ := ⟨[], rfl, .silent fun _ h => by cases h⟩
  trans {s t u r} hcontext h h' := by
    obtain ⟨events, hlog, htrail⟩ := h
    obtain ⟨events', hlog', htrail'⟩ := h'
    rw [hcontext] at htrail'
    refine ⟨events ++ events', ?_, .append htrail htrail'⟩
    rw [hlog', hlog, List.reverse_append, List.append_assoc]
  taken _ _ := ⟨[], rfl, .silent fun _ h => by cases h⟩
  tied _ name param := ⟨[.tied name param], rfl, .tied name param⟩
  raised he _ := ⟨[], rfl, .silent fun _ h => Option.some.inj h ▸ he.uncut⟩
  unbound _ _ _ := ⟨[], rfl, .silent fun _ h => Option.some.inj h ▸ rfl⟩
  interrupted _ kind := ⟨[.interrupted kind], rfl, .interrupted kind⟩
  intrinsic i name v _ :=
    ⟨[.builtinCall name v], rfl, .builtin_then name v (i.uncut_apply Q v).of_error?⟩
  host {b code v} hb hcode hv s := by
    obtain ⟨hQ, hcaptured⟩ := Builtin.Every.of_host hb hcode
    have huncut := hhost code b.captured v s.store hQ hcaptured hv
    rw [Builtin.run_host host hcode]
    refine ⟨rfl, fun w hw => ?_, [.builtinCall b.name v], rfl, .builtin_then _ _ huncut.of_error?⟩
    rw [show (host.call code b.captured v s.store).1 = .ok w from hw] at huncut
    exact huncut
  call {s t r c v} hroom _ h := by
    obtain ⟨events, hlog, htrail⟩ := h
    refine ⟨.closureCall c.param v (s.context.depth + 1) :: events, ?_, .call hroom _ v htrail⟩
    show t.log = _
    rw [hlog, List.reverse_cons, List.append_assoc]
    rfl
  refused hfull := ⟨[.limitReached _ _], rfl, .refused hfull⟩

/-- **Evaluations leave trails**, in the context in which they began and whatever was recorded
before. -/
theorem eval_follows {host : Host κ σ} (hhost : host.NeverCuts Q) {env : Env κ}
    (henv : env.Within Q) (e : Expr) (context : Context) (store : Store σ) :
    ∃ r events store', (∀ log, e.eval host env ⟨context, store, log⟩ =
        (r, ⟨context, store', events.reverse ++ log⟩)) ∧
      Trail context.limit context.depth (Outcome.error? r) events ∧
      ∀ v, r = .ok v → v.Within Q := by
  obtain ⟨r, context', store', added, hrun⟩ := e.eval_adds host env context store
  have hend := (trails_lawful hhost).eval (e := e) henv ⟨context, store, []⟩
  rw [hrun] at hend
  obtain ⟨hcontext, hresult, events, hlog, htrail⟩ := hend
  obtain rfl : context' = context := hcontext
  obtain rfl : added = events.reverse := by simpa using hlog
  exact ⟨r, events, store', hrun, htrail, hresult⟩

end

/-! ### The trace as a whole -/

/-- How the trace of an evaluation that is recorded as a whole ends. -/
inductive Ending : Except (EvalError κ) α → List (Event κ) → Prop where
  | done (a : α) : Ending (.ok a) []
  | failed {e : EvalError κ} (h : e.isCut = false) : Ending (.error e) [.failed e]
  | interrupted (kind : Kind) :
      Ending (.error .interrupted) [.interrupted kind, .failed .interrupted]
  | refused (depth limit : Nat) : Ending (.error (.stackOverflow depth limit))
      [.limitReached depth limit, .failed (.stackOverflow depth limit)]

theorem CutBy.ending {r : Except (EvalError κ) α} {last : List (Event κ)}
    (h : CutBy (Outcome.error? r) last) : Ending r (last ++ Run.closing r) := by
  cases r with
  | ok a =>
      cases h with
      | none => exact .done a
  | error e =>
      generalize herror : Outcome.error? (Except.error e : Except (EvalError κ) α) = r at h
      cases h with
      | none h => exact .failed (h e herror.symm)
      | interrupted kind => cases herror; exact .interrupted kind
      | refused depth limit => cases herror; exact .refused depth limit

/-- What the trace of an evaluation of an expression of the given kind tells, if the evaluation
started at the depth `start` and had the outcome `r`. -/
structure Faithful (start limit : Nat) (kind : Kind) (r : Except (EvalError κ) α)
    (events : List (Event κ)) : Prop where
  /-- The beginning is told first, and once. -/
  begun : ∃ rest, events = .begun kind :: rest ∧ ∀ k, .begun k ∉ rest
  /-- A failure is told if there was one, and with its error. -/
  failed : ∀ e, .failed e ∈ events ↔ r = .error e
  /-- A failure is told last, and once. -/
  failed_last : ∀ e, r = .error e →
    ∃ earlier, events = earlier ++ [.failed e] ∧ ∀ e', .failed e' ∉ earlier
  /-- A refused call is told if that was the error, and with its numbers. -/
  limitReached : ∀ depth top,
    .limitReached depth top ∈ events ↔ r = .error (.stackOverflow depth top)
  /-- A refused call is told right before the failure, and once. -/
  limitReached_last : ∀ depth top, r = .error (.stackOverflow depth top) →
    ∃ earlier, events = earlier ++ [.limitReached depth top, .failed (.stackOverflow depth top)] ∧
      ∀ depth' top', .limitReached depth' top' ∉ earlier
  /-- An interruption is told if that was the error. -/
  interrupted : (∃ k, .interrupted k ∈ events) ↔ r = .error .interrupted
  /-- An interruption is told right before the failure, and once. -/
  interrupted_last : r = .error .interrupted →
    ∃ earlier k, events = earlier ++ [.interrupted k, .failed .interrupted] ∧
      ∀ k', .interrupted k' ∉ earlier
  /-- The depths of the calls are those of a walk through the tree of calls. -/
  walk : (start :: depths events).IsChain (Descends start)
  /-- No call is deeper than the limit. -/
  bounded : ∀ depth ∈ depths events, depth ≤ limit
  /-- A call is refused at the limit, and the last call before was there. -/
  deepest : ∀ depth top, r = .error (.stackOverflow depth top) →
    depth = limit ∧ top = limit ∧ (start < limit → (depths events).getLast? = some limit)

/-! The trace is the beginning, the work and the ending.  What it tells is read off the ending. -/

section

variable {kind : Kind} {r : Except (EvalError κ) α} {work last : List (Event κ)} {event : Event κ}

theorem not_mem_work (hwork : ∀ event ∈ work, event.isWork = true)
    (hevent : event.isWork = false) : event ∉ work := fun hmem =>
  Bool.false_ne_true (hevent.symm.trans (hwork event hmem))

/-- What is neither a beginning nor work is told at the end. -/
theorem mem_trace_iff (hwork : ∀ event ∈ work, event.isWork = true) (hevent : event.isWork = false)
    (hbegun : ∀ k, event ≠ .begun k) : event ∈ .begun kind :: (work ++ last) ↔ event ∈ last := by
  simp [hbegun kind, not_mem_work hwork hevent]

namespace Ending

theorem begun_not_mem (h : Ending r last) (k : Kind) : .begun k ∉ last := by
  cases h <;> simp

theorem failed_mem_iff (h : Ending r last) (e : EvalError κ) :
    .failed e ∈ last ↔ r = .error e := by
  cases h <;> simp [eq_comm]

theorem limitReached_mem_iff (h : Ending r last) (depth top : Nat) :
    .limitReached depth top ∈ last ↔ r = .error (.stackOverflow depth top) := by
  cases h with
  | failed h =>
      refine iff_of_false (by simp) ?_
      rintro ⟨⟩
      cases h
  | done | interrupted | refused => simp [eq_comm]

theorem interrupted_mem_iff (h : Ending r last) :
    (∃ k, .interrupted k ∈ last) ↔ r = .error .interrupted := by
  cases h with
  | failed h =>
      refine iff_of_false (by simp) ?_
      rintro ⟨⟩
      cases h
  | done | interrupted | refused => simp

/-- A failure is told last, and once. -/
theorem failed_last (h : Ending r last) {e : EvalError κ} (hr : r = .error e) :
    ∃ earlier, last = earlier ++ [.failed e] ∧ ∀ e', .failed e' ∉ earlier := by
  subst hr
  cases h with
  | failed => exact ⟨[], rfl, by simp⟩
  | interrupted k => exact ⟨[.interrupted k], rfl, by simp⟩
  | refused depth top => exact ⟨[.limitReached depth top], rfl, by simp⟩

theorem eq_of_refused {depth top : Nat}
    (h : Ending (.error (.stackOverflow depth top) : Except (EvalError κ) α) last) :
    last = [.limitReached depth top, .failed (.stackOverflow depth top)] := by
  cases h with
  | failed h => cases h
  | refused => rfl

theorem eq_of_interrupted (h : Ending (.error .interrupted : Except (EvalError κ) α) last) :
    ∃ k, last = [.interrupted k, .failed .interrupted] := by
  cases h with
  | failed h => cases h
  | interrupted k => exact ⟨k, rfl⟩

end Ending

end

/-- **What a trail tells**, between the beginning and the failure. -/
theorem Trail.faithful {limit d : Nat} {r : Except (EvalError κ) α} {events : List (Event κ)}
    (h : Trail limit d (Outcome.error? r) events) (hle : d ≤ limit) (kind : Kind) :
    Faithful d limit kind r (.begun kind :: (events ++ Run.closing r)) := by
  have hdepths : depths (.begun kind :: (events ++ Run.closing r)) = depths events := by
    have hclosing : depths (Run.closing r) = [] := by cases r <;> rfl
    change depths (events ++ Run.closing r) = depths events
    rw [depths_append, hclosing, List.append_nil]
  obtain ⟨work, cut, hsplit, hwork, hcut⟩ := h.split
  have hending := hcut.ending
  have hevents : events ++ Run.closing r = work ++ (cut ++ Run.closing r) := by
    rw [hsplit, List.append_assoc]
  rw [hevents] at hdepths ⊢
  generalize cut ++ Run.closing r = last at *
  exact
    { begun := ⟨work ++ last, rfl, fun k hmem => (List.mem_append.mp hmem).elim
        (not_mem_work hwork rfl) (hending.begun_not_mem k)⟩
      failed := fun e => (mem_trace_iff hwork rfl (by simp)).trans (hending.failed_mem_iff e)
      failed_last := by
        intro e hr
        obtain ⟨earlier, rfl, honce⟩ := hending.failed_last hr
        exact ⟨.begun kind :: (work ++ earlier), by simp,
          fun e' hmem => honce e' ((mem_trace_iff hwork rfl (by simp)).mp hmem)⟩
      limitReached := fun depth top =>
        (mem_trace_iff hwork rfl (by simp)).trans (hending.limitReached_mem_iff depth top)
      limitReached_last := by
        rintro depth top rfl
        obtain rfl := hending.eq_of_refused
        exact ⟨.begun kind :: (work ++ []), by simp,
          fun _ _ hmem => List.not_mem_nil ((mem_trace_iff hwork rfl (by simp)).mp hmem)⟩
      interrupted := (exists_congr fun k => mem_trace_iff hwork rfl (by simp)).trans
        hending.interrupted_mem_iff
      interrupted_last := by
        rintro rfl
        obtain ⟨k, rfl⟩ := hending.eq_of_interrupted
        exact ⟨.begun kind :: (work ++ []), k, by simp,
          fun _ hmem => List.not_mem_nil ((mem_trace_iff hwork rfl (by simp)).mp hmem)⟩
      walk := by rw [hdepths]; exact h.walk
      bounded := fun depth hmem => (h.bounded depth (hdepths ▸ hmem)).2
      deepest := by
        rintro depth top rfl
        rw [hdepths]
        exact h.deepest hle rfl }

/-- **The trace is faithful.**  The functions of the host in the environment never complain of a
limit or of an interruption themselves, and the context is not beyond its limit.  Then the trace of
an evaluation tells how it began, how deep its calls were and how it ended; without the first event
and that of the failure it is the trace of the bare evaluation, which has the same outcome.  The
line of a failure names its cause and says what the user is told.

Functions of the host record nothing themselves: a `Host` changes the store and no more.  One that
evaluates expressions in turn, and so adds events of its own in the middle of a call, is not among
those described here. -/
theorem trace_is_faithful {host : Host κ σ} {Q : κ → Prop} (hhost : host.NeverCuts Q) {env : Env κ}
    (henv : env.Within Q) (e : Expr) (context : Context) (store : Store σ)
    (hle : context.depth ≤ context.limit) :
    let out := e.evalLogged host env (.start context store)
    let bare := e.eval host env (.start context store)
    Faithful context.depth context.limit e.kind out.1 out.2.events ∧
    (∀ error, out.1 = .error error → out.2.events.getLast?.map Event.render =
      some ("DEBUG evaluation failed kind=" ++ error.kind ++ " err=" ++ error.message)) ∧
    out.1 = bare.1 ∧
    out.2.events = .begun e.kind :: (bare.2.events ++ Run.closing bare.1) := by
  intro out bare
  obtain ⟨r, events, store', hrun, htrail, -⟩ := eval_follows hhost henv e context store
  have hbare : bare = (r, ⟨context, store', events.reverse⟩) :=
    (hrun []).trans (by rw [List.append_nil])
  have hout : out = Run.concluded (r, ⟨context, store', events.reverse ++ [.begun e.kind]⟩) :=
    (e.evalLogged_eq host env _).trans (congrArg Run.concluded (hrun [.begun e.kind]))
  have hevents : out.2.events = .begun e.kind :: (events ++ Run.closing r) := by
    rw [hout, Run.events_concluded]
    simp [Run.State.events]
  have hresult : out.1 = r := congrArg Prod.fst hout
  have hfaithful := htrail.faithful hle e.kind
  rw [hevents, hresult, hbare]
  refine ⟨hfaithful, fun error herror => ?_, rfl, by simp [Run.State.events]⟩
  obtain ⟨earlier, hlast, -⟩ := hfaithful.failed_last error herror
  rw [hlast, List.getLast?_concat]
  rfl

/-- `let rec f = \x => f (stop x) in f 1`. -/
def stopLoop : Expr :=
  .letIn true "f" (.lam "x" none (.app (.var "f") (.app (.var "stop") (.var "x"))))
    (.app (.var "f") (.int 1))

/-- The loop is entered from inside a call, with a function that raises the flag when it is called
for the second time.  For at most two calls more the loop reaches the limit, since a call is entered
before the flag is looked at; for at most three calls more it is interrupted. -/
theorem trace_is_faithful_stopLoop :
    let env : Env Stock := withStop.recode fun _ => .stop 0 7 2
    let run (limit : Nat) := stopLoop.evalLogged Stock.host env
      (.start ⟨limit, 1, 7⟩ ⟨2, fun _ => false, fun _ => 0⟩)
    ((run 3).2.events.map Event.render =
        ["DEBUG span eval_expr kind=let", "TRACE bound recursive closure binder=f param=x",
          "TRACE apply closure param=x arg=1 depth=2", "TRACE apply builtin builtin=stop arg=1",
          "TRACE apply closure param=x arg=1 depth=3", "TRACE apply builtin builtin=stop arg=1",
          "DEBUG call depth limit reached depth=3 max=3",
          "DEBUG evaluation failed kind=stack-overflow " ++
            "err=stack overflow: call depth 3 exceeds maximum 3"] ∧
      Faithful 1 3 .letIn (run 3).1 (run 3).2.events) ∧
    ((run 4).2.events.map Event.render =
        ["DEBUG span eval_expr kind=let", "TRACE bound recursive closure binder=f param=x",
          "TRACE apply closure param=x arg=1 depth=2", "TRACE apply builtin builtin=stop arg=1",
          "TRACE apply closure param=x arg=1 depth=3", "TRACE apply builtin builtin=stop arg=1",
          "TRACE apply closure param=x arg=1 depth=4",
          "DEBUG evaluation interrupted kind=application",
          "DEBUG evaluation failed kind=interrupted err=evaluation interrupted"] ∧
      Faithful 1 4 .letIn (run 4).1 (run 4).2.events) := by
  intro env run
  have henv : env.Within fun _ => True := ⟨⟨trivial, trivial⟩, trivial⟩
  have hlaw (limit : Nat) (hle : 1 ≤ limit) := trace_is_faithful Stock.host_neverCuts henv stopLoop
    ⟨limit, 1, 7⟩ ⟨2, fun _ => false, fun _ => 0⟩ hle
  exact ⟨⟨by decide +kernel, (hlaw 3 (by decide)).1⟩, ⟨by decide +kernel, (hlaw 4 (by decide)).1⟩⟩

end EagerLambda
