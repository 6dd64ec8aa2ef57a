import EagerLambda.Proofs.Closures

/-!
# Coincidence — an expression sees its free names and nothing else

Scope is lexical.  Two environments that agree on the free names of an expression cannot be told
apart by evaluating it, whatever else they bind, in whatever order, and whatever is shadowed in them
(`eval_coincides`).  To agree is to bind values that are alike (`Value.Alike`): closures of the same
code and self name count as alike if the environments they have captured agree on what their bodies
can see in turn.  Being alike is a lexical relation (`Value.alike_lexical`), and that is all it
takes.
-/

namespace EagerLambda

variable {κ σ : Type}

/-! ### Values that behave alike -/

/-- The names that a closure takes from the environment it has captured: those that are free in its
body, but for the parameter and the self name. -/
def Closure.outer (c : Closure κ) : List String :=
  c.body.free.filter fun x => x ≠ c.param ∧ c.selfName ≠ some x

/-- Equal values, if they are no functions; the same intrinsic; or closures of the same code that
have captured the same, as far as their bodies can see. -/
inductive Value.Alike : Value κ → Value κ → Prop where
  | base {v : Value κ} (h : v.isCallable = false) : Alike v v
  | intrinsic {b b' : Builtin κ} {i : Intrinsic} (hname : b.name = b'.name)
      (hb : b.code = .intrinsic i) (hb' : b'.code = .intrinsic i) :
      Alike (.builtin b) (.builtin b')
  | closure {c d : Closure κ} (hparam : c.param = d.param) (hbody : c.body = d.body)
      (hself : c.selfName = d.selfName)
      (henv : ∀ x ∈ c.outer, Option.Rel Alike (c.env.lookup? x) (d.env.lookup? x)) :
      Alike (.closure c) (.closure d)

/-- Each of the names is unbound in both environments, or bound in both to values that are alike. -/
def Env.AlikeOn (names : List String) (env env' : Env κ) : Prop :=
  ∀ x ∈ names, Option.Rel Value.Alike (env.lookup? x) (env'.lookup? x)

/-- Closures that are alike see values that are alike. -/
theorem Value.Alike.seen {c d : Closure κ} (h : Value.Alike (.closure c) (.closure d)) {x : String}
    (hfree : x ∈ c.body.free) (hx : x ≠ c.param) :
    Option.Rel Value.Alike (c.sees? x) (d.sees? x) := by
  cases h with
  | base h => cases h
  | closure hparam hbody hself henv =>
      rw [Closure.sees?, Closure.sees?, ← hself]
      by_cases hx' : c.selfName = some x
      · -- the self name goes to the closures themselves, so what they have captured need not
        -- agree on it
        rw [if_pos hx', if_pos hx']
        exact .some (.closure hparam hbody hself henv)
      · rw [if_neg hx', if_neg hx']
        exact henv x (by simp [Closure.outer, hfree, hx, hx'])

theorem Value.alike_lexical : Value.Lexical (Value.Alike (κ := κ)) where
  shape h := by
    cases h with
    | base h => exact .base h
    | intrinsic hname hb hb' => exact .intrinsic hname hb hb'
    | closure hparam hbody => exact .closure hparam hbody
  base := .base
  intrinsic := .intrinsic
  seen h _ hfree hx := h.seen hfree hx
  captured hparam hbody hself henv := by
    refine .closure hparam hbody hself fun x hx => ?_
    obtain ⟨hfree, hx⟩ := List.mem_filter.mp hx
    obtain ⟨hxparam, hxself⟩ := of_decide_eq_true hx
    exact henv x hfree hxparam hxself

/-! ### The law -/

/-- **Coincidence.**  Environments that agree on the free names of an expression give outcomes that
are alike, end at the same depth and write the same lines, in any two contexts with the same limit
and depth and with their flags both up or both down.

In particular, all bindings but those of the free names can be added, dropped, reordered and
shadowed. -/
theorem eval_coincides (host : Host κ σ) (e : Expr) (env env' : Env κ) {context context' : Context}
    {store store' : Store σ} (hlimit : context.limit = context'.limit)
    (hdepth : context.depth = context'.depth)
    (hflag : context.isInterrupted store = context'.isInterrupted store') :
    (env.AlikeOn e.free env' →
      Run.Agree Value.Alike (e.eval host env (.start context store))
        (e.eval host env' (.start context' store'))) ∧
    (env.Within (fun _ => False) → (∀ x ∈ e.free, env'.lookup? x = env.lookup? x) →
      Run.Agree Value.Alike (e.eval host env (.start context store))
        (e.eval host env' (.start context' store'))) := by
  have hlaw (h : env.AlikeOn e.free env') :=
    (Value.alike_lexical.eval host h).agree Value.alike_lexical.faithful hlimit hdepth hflag
  refine ⟨hlaw, fun hheld hlookup => hlaw fun x hx => ?_⟩
  rw [hlookup x hx]
  exact Value.alike_lexical.lookup_self hheld x

/-- The environment in which `k` and `z` are bound, and nothing else. -/
def bare : Env Stock := .frame 3 "k" (.closure selfApplying) (.frame 2 "z" (.int 1) .empty)

/-- The same bindings in another order, among others; the closure has captured more, and would be
hidden from itself if its self name were not bound in front. -/
def cluttered : Env Stock :=
  .frame 9 "h" (.bool true) (.frame 8 "z" (.int 1) (.frame 7 "k" (.closure
    ⟨6, "x", selfApplying.body, some "h", .frame 5 "h" (.str "") (.frame 4 "y" (.int 5) .empty)⟩)
      (.frame 3 "z" (.int 2) .empty)))

/-- `k z` goes round until there is no room, in either environment; and so it does with one more
binding in front. -/
theorem eval_coincides_cluttered :
    let s : Run.State Stock Stock.Counts := .start ⟨3, 1, 0⟩ ⟨10, fun _ => false, fun _ => 0⟩
    let e : Expr := .app (.var "k") (.var "z")
    (e.eval Stock.host bare s).1 = .error (.stackOverflow 3 3) ∧
    Run.Agree Value.Alike (e.eval Stock.host bare s) (e.eval Stock.host cluttered s) ∧
    Run.Agree Value.Alike (e.eval Stock.host bare s)
      (e.eval Stock.host (.frame 9 "w" (.closure selfApplying) bare) s) := by
  intro s e
  have hheld : bare.Within fun _ => False := ⟨⟨trivial, trivial, trivial⟩, trivial, trivial⟩
  refine ⟨rfl, (eval_coincides Stock.host e bare cluttered rfl rfl rfl).1 fun x hx => ?_,
    (eval_coincides Stock.host e bare _ rfl rfl rfl).2 hheld fun x hx => ?_⟩
  · rcases List.mem_cons.mp hx with rfl | hx
    · refine .some (.closure rfl rfl rfl fun y hy => ?_)
      obtain rfl : y = "y" := by simpa [Closure.outer, selfApplying, Expr.free] using hy
      exact .some (.base rfl)
    · obtain rfl : x = "z" := by simpa [Expr.free] using hx
      exact .some (.base rfl)
  · have hne : "w" ≠ x := by
      rintro rfl
      revert hx
      decide
    rw [Env.lookup?, if_neg hne]

end EagerLambda
