import EagerLambda.Proofs.Machines

/-!
# Steps — what an evaluation does, one thing after the other

The trace of a run tells of calls, but not of every node that is evaluated, operator that is applied
or name that is bound.  `Noting` is the machine that notes all of these down, each together with
whether the flag was raised at the time, and `Expr.evalNoting` is evaluation by it.  The notes are
kept beside what the host keeps, and nothing looks at them: without the notes it is evaluation
(`evalNoting_notes`).

The flag is looked at before every node, so no node is noted with the flag raised.  Unless a
function of the host lowers it again, the notes are then divided (`Run.State.Divided`): first those
that were taken with the flag down, then, once it was raised, others that are no nodes.
-/

namespace EagerLambda

variable {κ σ α β : Type}

/-! ### Notes -/

/-- Something that an evaluation does.  All but the first act on values that are there already. -/
inductive Step (κ : Type) where
  /-- Begin to evaluate a node. -/
  | node (kind : Kind)
  /-- Apply an operator. -/
  | operation (op : Operator) (left right : Value κ)
  /-- Bind a name. -/
  | binding (name : String) (value : Value κ)
  /-- Run a builtin. -/
  | builtinCall (b : Builtin κ) (arg : Value κ)
  /-- Enter a closure. -/
  | closureCall (c : Closure κ) (arg : Value κ)

/-- Whether the step begins to evaluate a node. -/
def Step.isNode : Step κ → Bool
  | .node _ => true
  | _ => false

/-- A step, and whether the flag was raised when it was taken. -/
structure Note (κ : Type) where
  raised : Bool
  step : Step κ

/-- What the host keeps, and beside it the notes of an evaluation, the latest first. -/
structure Diary (κ σ : Type) where
  host : σ
  notes : List (Note κ)

/-- The store without the notes. -/
def Store.forget (t : Store (Diary κ σ)) : Store σ := ⟨t.next, t.raised, t.host.host⟩

/-- The store with notes beside it. -/
def Store.noting (t : Store σ) (notes : List (Note κ)) : Store (Diary κ σ) :=
  ⟨t.next, t.raised, t.host, notes⟩

/-- The state without the notes. -/
def Run.State.forget (s : Run.State κ (Diary κ σ)) : Run.State κ σ :=
  ⟨s.context, s.store.forget, s.log⟩

/-- The state a run with notes starts in. -/
def Run.State.noting (s : Run.State κ σ) : Run.State κ (Diary κ σ) :=
  ⟨s.context, s.store.noting [], s.log⟩

/-- The notes in the order in which they were taken. -/
def Run.State.notes (s : Run.State κ (Diary κ σ)) : List (Note κ) := s.store.host.notes.reverse

/-- Functions of the host do not see the notes. -/
def Host.noting (host : Host κ σ) : Host κ (Diary κ σ) where
  call code captured arg := fun t =>
    let (r, t') := host.call code captured arg t.forget
    (r, t'.noting t.host.notes)

/-! ### Evaluation with notes -/

namespace Run

/-- Note a step down. -/
def note (step : Step κ) : Run κ (Diary κ σ) Unit := fun s =>
  let notes := ⟨s.context.isInterrupted s.store, step⟩ :: s.store.host.notes
  (.ok (), { s with store := s.store.forget.noting notes })

/-- Look at the flag, then begin to evaluate a node. -/
def visit (kind : Kind) : Run κ (Diary κ σ) Unit := do
  poll kind
  note (.node kind)

end Run

/-- A run that takes notes. -/
def Noting (κ σ α : Type) : Type := Run κ (Diary κ σ) α

instance : Monad (Noting κ σ) := inferInstanceAs (Monad (Run κ (Diary κ σ)))

instance : Machine κ (Noting κ σ) where
  poll := Run.visit
  fail := Run.fail
  record := Run.record
  operate op left right := show Run κ (Diary κ σ) (Value κ) from do
    Run.note (.operation op left right)
    Run.ofExcept (op.apply left right)
  close env param body := Run.alloc (Closure.make env param body none)
  tie c name := Run.alloc (c.tie name)
  extend env name value := show Run κ (Diary κ σ) (Env κ) from do
    Run.note (.binding name value)
    Run.alloc (env.extend name value)
  enter c arg evalBody := c.runWith arg fun env => do
    Run.note (.closureCall c arg)
    evalBody env
  overflow := Run.overflow

/-- Run a builtin with notes. -/
def Builtin.runNoting (host : Host κ σ) (b : Builtin κ) (arg : Value κ) : Noting κ σ (Value κ) :=
  show Run κ (Diary κ σ) (Value κ) from do
    Run.note (.builtinCall b arg)
    b.run host.noting arg

/-- Evaluate an expression with notes. -/
def Expr.evalNoting (host : Host κ σ) (e : Expr) (env : Env κ) : Run κ (Diary κ σ) (Value κ) :=
  fun s => e.evalWith (Machine.callAt (Builtin.runNoting host) s.context.room) env s

/-! ### What the notes are like -/

/-- The host has no function that lowers a flag. -/
def Host.NeverLowers (host : Host κ σ) : Prop := ∀ code captured arg (t : Store σ) (flag : Flag),
  t.raised flag = true → (host.call code captured arg t).2.raised flag = true

/-- The notes with the flag down come before those with the flag raised, and among the latter there
is no node.  As long as the flag is down, there are none of them. -/
def Run.State.Divided (s : Run.State κ (Diary κ σ)) : Prop := ∃ up down,
  s.store.host.notes = up ++ down ∧ (∀ n ∈ up, n.raised = true ∧ n.step.isNode = false) ∧
    (∀ n ∈ down, n.raised = false) ∧ (s.context.isInterrupted s.store = false → up = [])

namespace Run.State.Divided

variable {s : Run.State κ (Diary κ σ)}

/-- Only the notes and the flag matter, and the flag may have been raised since. -/
theorem of_notes (hs : s.Divided) {t : Run.State κ (Diary κ σ)}
    (hnotes : t.store.host.notes = s.store.host.notes)
    (hflag : s.context.isInterrupted s.store = true → t.context.isInterrupted t.store = true) :
    t.Divided := by
  obtain ⟨up, down, heq, hup, hdown, hclear⟩ := hs
  refine ⟨up, down, hnotes.trans heq, hup, hdown, fun ht => hclear ?_⟩
  cases hraised : s.context.isInterrupted s.store with
  | false => rfl
  | true => exact (hflag hraised).symm.trans ht

/-- One note more: with the flag raised anything but a node, with the flag down anything. -/
theorem note (hs : s.Divided) {step : Step κ}
    (hstep : s.context.isInterrupted s.store = true → step.isNode = false) :
    (Run.note step s).2.Divided := by
  obtain ⟨up, down, heq, hup, hdown, hclear⟩ := hs
  cases hflag : s.context.isInterrupted s.store with
  | true =>
      refine ⟨⟨true, step⟩ :: up, down, ?_, ?_, hdown, fun hdown => ?_⟩
      · simp [Run.note, Store.noting, hflag, heq]
      · rintro n (_ | ⟨_, hn⟩)
        · exact ⟨rfl, hstep hflag⟩
        · exact hup n hn
      · exact absurd (hflag.symm.trans hdown) (by simp)
  | false =>
      obtain rfl := hclear hflag
      refine ⟨[], ⟨false, step⟩ :: down, ?_, hup, ?_, fun _ => rfl⟩
      · simp [Run.note, Store.noting, hflag, heq]
      · rintro n (_ | ⟨_, hn⟩)
        · rfl
        · exact hdown n hn

end Run.State.Divided

/-! ### Evaluation with notes is evaluation -/

/-- Without the notes, the one run is the other; and it leaves divided notes divided. -/
def Run.Notes (x : Run κ (Diary κ σ) α) (y : Run κ σ α) : Prop := ∀ s, s.Divided →
  (x s).1 = (y s.forget).1 ∧ (x s).2.forget = (y s.forget).2 ∧ (x s).2.Divided

namespace Run.Notes

theorem pure (a : α) : Notes (Pure.pure a : Run κ (Diary κ σ) α) (Pure.pure a) :=
  fun _ hs => ⟨rfl, rfl, hs⟩

theorem fail (e : EvalError κ) : Notes (Run.fail e : Run κ (Diary κ σ) α) (Run.fail e) :=
  fun _ hs => ⟨rfl, rfl, hs⟩

theorem ofExcept (r : Except (EvalError κ) α) :
    Notes (Run.ofExcept r : Run κ (Diary κ σ) α) (Run.ofExcept r) := fun _ hs => ⟨rfl, rfl, hs⟩

theorem record (event : Event κ) :
    Notes (Run.record event : Run κ (Diary κ σ) Unit) (Run.record event) :=
  fun _ hs => ⟨rfl, rfl, hs⟩

theorem overflow : Notes (Run.overflow : Run κ (Diary κ σ) α) Run.overflow :=
  fun _ hs => ⟨rfl, rfl, hs⟩

theorem bind {x : Run κ (Diary κ σ) α} {y : Run κ σ α} {f : α → Run κ (Diary κ σ) β}
    {g : α → Run κ σ β} (hx : Notes x y) (hf : ∀ a, Notes (f a) (g a)) :
    Notes (x >>= f) (y >>= g) := by
  intro s hs
  obtain ⟨hout, hstate, hs₁⟩ := hx s hs
  rcases hxs : x s with ⟨r, s₁⟩
  rcases hys : y s.forget with ⟨r', t₁⟩
  rw [hxs, hys] at hout hstate
  rw [hxs] at hs₁
  obtain rfl : r = r' := hout
  obtain rfl : s₁.forget = t₁ := hstate
  cases r with
  | error e =>
      rw [bind_error hxs, bind_error hys]
      exact ⟨rfl, rfl, hs₁⟩
  | ok a =>
      rw [bind_ok hxs, bind_ok hys]
      exact hf a s₁ hs₁

/-- Steps other than nodes can be noted at any time. -/
theorem note {step : Step κ} (hstep : step.isNode = false) {y : Run κ σ α}
    {x : Run κ (Diary κ σ) α} (hx : Notes x y) : Notes (Run.note step >>= fun _ => x) y :=
  fun _ hs => hx _ (hs.note fun _ => hstep)

/-- A node is noted only if the flag is down. -/
theorem visit (kind : Kind) : Notes (Run.visit kind : Run κ (Diary κ σ) Unit) (Run.poll kind) := by
  intro s hs
  have hflag : s.forget.context.isInterrupted s.forget.store =
      s.context.isInterrupted s.store := rfl
  by_cases hraised : s.context.isInterrupted s.store = true
  · rw [Run.visit, bind_error (poll_raised kind hraised), poll_raised kind (hflag.trans hraised)]
    exact ⟨rfl, rfl, hs⟩
  · have hclear := Bool.eq_false_iff.mpr hraised
    rw [Run.visit, bind_ok (poll_clear kind hclear), poll_clear kind (hflag.trans hclear)]
    exact ⟨rfl, rfl, hs.note fun h => absurd h hraised⟩

/-- Both runs make the same things. -/
theorem alloc {x : Alloc (Diary κ σ) α} {y : Alloc σ α} {n : Nat} {f : Nat → α}
    (hx : ∀ t, x t = (f t.next, t.taken n)) (hy : ∀ t, y t = (f t.next, t.taken n)) :
    Notes (Run.alloc x) (Run.alloc y) := by
  intro s hs
  simp only [Run.alloc, hx, hy]
  exact ⟨rfl, rfl, hs.of_notes rfl id⟩

theorem enter : Notes (Run.enter : Run κ (Diary κ σ) Nat) Run.enter := by
  intro s hs
  have hcontext : s.forget.context = s.context := rfl
  by_cases hroom : s.context.depth < s.context.limit
  · simp only [Run.enter, hcontext, Context.enter?, if_pos hroom]
    exact ⟨trivial, rfl, hs⟩
  · simp only [Run.enter, hcontext, Context.enter?, if_neg hroom]
    exact overflow s hs

theorem leaving {x : Run κ (Diary κ σ) α} {y : Run κ σ α} (h : Notes x y) :
    Notes (Run.leaving x) (Run.leaving y) := by
  intro s hs
  obtain ⟨hout, hstate, hs₁⟩ := h s hs
  exact ⟨hout, congrArg Run.State.leave hstate, hs₁⟩

/-- Both runs tie a closure alike. -/
theorem tie (c : Closure κ) (name : String) :
    Notes (Run.alloc (c.tie name) : Run κ (Diary κ σ) (Closure κ)) (Run.alloc (c.tie name)) := by
  cases hc : c.selfName with
  | none =>
      exact .alloc (f := fun next => ⟨next, c.param, c.body, some name, c.env⟩)
        (Closure.tie_of_none hc name) (Closure.tie_of_none hc name)
  | some g =>
      exact .alloc (f := fun next => ⟨next + 1, c.param, c.body, some name,
        .frame next g (.closure c) c.env⟩) (Closure.tie_of_some hc name)
        (Closure.tie_of_some hc name)

/-- Both runs make the environment of a call alike. -/
theorem callEnv (c : Closure κ) (arg : Value κ) :
    Notes (Run.alloc (c.callEnv arg) : Run κ (Diary κ σ) (Env κ)) (Run.alloc (c.callEnv arg)) := by
  cases hc : c.selfName with
  | none =>
      exact .alloc (f := fun next => Env.frame next c.param arg c.env)
        (Closure.callEnv_of_none hc arg) (Closure.callEnv_of_none hc arg)
  | some g =>
      exact .alloc (f := fun next => Env.frame (next + 1) c.param arg
        (.frame next g (.closure c) c.env)) (Closure.callEnv_of_some hc arg)
        (Closure.callEnv_of_some hc arg)

/-- What the machine with notes does at each step is what runs do. -/
theorem related : Machine.Related (m := Noting κ σ) (n := Run κ σ) fun _ => Notes where
  pure := pure
  bind := bind
  poll := visit
  fail := fail
  record := record
  operate _ _ _ := note rfl (ofExcept _)
  close env param body :=
    .alloc (n := 1) (f := fun next => ⟨next, param, body, none, env⟩) (fun _ => rfl) fun _ => rfl
  tie := tie
  extend env name v :=
    note rfl (.alloc (n := 1) (f := fun next => .frame next name v env) (fun _ => rfl) fun _ => rfl)
  enter c arg _ _ hf := enter.bind fun _ => leaving <| (record _).bind fun _ =>
    (callEnv c arg).bind fun env => note rfl (hf env)
  overflow := overflow

end Run.Notes

/-- A builtin does not see the notes, and it leaves the flag raised if it is raised. -/
theorem Builtin.runNoting_notes {host : Host κ σ} (hhost : host.NeverLowers) (b : Builtin κ)
    (v : Value κ) : Run.Notes (b.runNoting host v) (b.run host v) := by
  refine .note rfl fun s hs => ?_
  cases hb : b.code with
  | intrinsic i =>
      rw [Builtin.run_intrinsic host hb, Builtin.run_intrinsic host.noting hb]
      exact ⟨rfl, rfl, hs⟩
  | host code =>
      rw [Builtin.run_host host hb, Builtin.run_host host.noting hb]
      exact ⟨rfl, rfl, hs.of_notes rfl (hhost code b.captured v s.store.forget s.context.flag)⟩

/-- **Evaluation with notes** is evaluation, and its notes are divided. -/
theorem evalNoting_notes {host : Host κ σ} (hhost : host.NeverLowers) (e : Expr) (env : Env κ) :
    Run.Notes (e.evalNoting host env) (e.eval host env) := by
  intro s
  have hcall := Run.Notes.related.callAt _ _ (Builtin.runNoting_notes hhost) s.context.room
  exact Run.Notes.related.evalWith _ _ (fun u v _ => hcall u v) e env s

end EagerLambda
