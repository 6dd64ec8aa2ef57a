import EagerLambda.Eval.Stock
import EagerLambda.Proofs.Invariants
import EagerLambda.Proofs.Machines

/-!
# Causes — what an error says is so

An error names a cause and mentions the values, operators and numbers that go with it.  What it says
can be checked against these alone: a value that is said to be no function is none, operands that
are said to be refused are of types that the operator does not accept, and so on
(`EvalError.Truthful`).  Every error in which an evaluation ends is truthful in this sense
(`errors_tell_the_truth`), however deep inside nested calls it arose.

Two causes are about the run itself.  A call is refused at the limit and nowhere else, and a run is
interrupted only if the flag was raised before it began.  So the invariant that evaluation keeps
(`truth`) is about the flag as well: whatever a run does, it ends with the flag it began with.

That something is no function could be found out in two places, before the argument is evaluated and
again when the call is made.  The second place is never reached from an application: whatever is
done there makes no difference (`evalElse_eq`).
-/

namespace EagerLambda

variable {κ σ α β : Type}

/-! ### What the errors say -/

/-- The pairs of types that the operator accepts. -/
def Operator.accepted : Operator → List (Tag × Tag)
  | .add | .subtract | .multiply | .divide | .mod | .higher | .lower => [(.int, .int)]
  | .equality => [(.int, .int), (.bool, .bool), (.string, .string)]
  | .concat => [(.string, .string)]

/-- The number is that of a character: below the surrogates or above them, up to the last plane. -/
def IsScalar (n : Int) : Prop := 0 ≤ n ∧ n ≤ 0xD7FF ∨ 0xE000 ≤ n ∧ n ≤ 0x10FFFF

/-- What the error says is so, in a run with the given limit that began with the flag raised or
not. -/
def EvalError.Truthful (limit : Nat) (raised : Bool) : EvalError κ → Prop
  | .unboundVariable _ => True
  | .notAFunction v => v.tag ≠ .closure ∧ v.tag ≠ .builtin
  | .nonBooleanCondition v => v.tag ≠ .bool
  | .incompatibleOperands op l r => (l.tag, r.tag) ∉ op.accepted
  | .divisionByZero op => op ∈ [.divide, .mod]
  | .integerOverflow op => op ∈ [.add, .subtract, .multiply, .divide, .mod]
  | .invalidArgument name expected v =>
    ∃ i : Intrinsic, name = i.name ∧ expected = i.domain.name ∧ v.tag ≠ i.domain
  | .emptyString name => ∃ i ∈ [Intrinsic.firstChar, .remainingChars, .charCode], name = i.name
  | .invalidCharCode n => ¬ IsScalar n.toInt
  | .stackOverflow depth max => depth = limit ∧ max = limit
  | .interrupted => raised = true

/-- A result that satisfies `V`, or an error that is truthful. -/
def Outcome.Truthful (limit : Nat) (raised : Bool) (V : α → Prop) : Except (EvalError κ) α → Prop
  | .ok a => V a
  | .error e => e.Truthful limit raised

/-- A value is a function if its type is that of closures or that of builtins. -/
theorem Value.tag_of_not_callable {v : Value κ} (h : v.isCallable = false) :
    v.tag ≠ .closure ∧ v.tag ≠ .builtin := by
  cases v with
  | int n | bool b | str s => exact ⟨fun h => (by cases h), fun h => (by cases h)⟩
  | closure c | builtin b => cases h

/-! ### Operators -/

namespace Operator

variable {limit : Nat} {raised : Bool} {P : Closure κ → Prop} {Q : κ → Prop} {op : Operator}
  {l r : Value κ}

/-- Two values that are not both words are not of the types that arithmetic accepts. -/
theorem tags_ne_int (h : ∀ a b, l = .int a → r = .int b → False) :
    (l.tag, r.tag) ≠ (Tag.int, Tag.int) := by
  intro htags
  obtain ⟨hl, hr⟩ := Prod.mk.inj htags
  cases l with
  | int a =>
      cases r with
      | int b => exact h a b rfl rfl
      | bool n | str n | closure n | builtin n => cases hr
  | bool n | str n | closure n | builtin n => cases hl

theorem arithmetic_truthful (hop : op.accepted = [(.int, .int)])
    (hov : op ∈ [Operator.add, .subtract, .multiply, .divide, .mod])
    (f : Int64 → Int64 → Option Int64) (l r : Value κ) :
    Outcome.Truthful limit raised (Value.Every P Q) (op.arithmetic f l r) := by
  unfold arithmetic
  split
  · split
    · trivial
    · exact hov
  · next h => simpa [Outcome.Truthful, EvalError.Truthful, hop] using tags_ne_int h

theorem division_truthful (hop : op ∈ [Operator.divide, .mod])
    (f : Int64 → Int64 → Option Int64) (l r : Value κ) :
    Outcome.Truthful limit raised (Value.Every P Q) (op.division f l r) := by
  have haccepted : op.accepted = [(.int, .int)] := by
    simp only [List.mem_cons, List.not_mem_nil, or_false] at hop
    rcases hop with rfl | rfl <;> rfl
  unfold division
  split
  · split
    · exact hop
    · exact arithmetic_truthful haccepted (by simp_all) f _ _
  · next h => simpa [Outcome.Truthful, EvalError.Truthful, haccepted] using tags_ne_int h

theorem comparison_truthful (hop : op.accepted = [(.int, .int)]) (f : Int64 → Int64 → Bool)
    (l r : Value κ) :
    Outcome.Truthful limit raised (Value.Every P Q) (op.comparison f l r) := by
  unfold comparison
  split
  · trivial
  · next h => simpa [Outcome.Truthful, EvalError.Truthful, hop] using tags_ne_int h

/-- **Operators** refuse operands of the wrong types and no others, and complain of a zero or of an
overflow only where they can. -/
theorem apply_truthful (op : Operator) (l r : Value κ) :
    Outcome.Truthful limit raised (Value.Every P Q) (op.apply l r) := by
  cases op with
  | add => exact arithmetic_truthful rfl (by decide) _ l r
  | subtract => exact arithmetic_truthful rfl (by decide) _ l r
  | multiply => exact arithmetic_truthful rfl (by decide) _ l r
  | divide => exact division_truthful (by decide) _ l r
  | mod => exact division_truthful (by decide) _ l r
  | higher => exact comparison_truthful rfl _ l r
  | lower => exact comparison_truthful rfl _ l r
  | equality | concat =>
      cases l <;> cases r <;>
        simp [apply, Outcome.Truthful, EvalError.Truthful, accepted, Value.tag, Value.Every]

end Operator

/-! ### Intrinsics -/

namespace Intrinsic

variable {limit : Nat} {raised : Bool} {P : Closure κ → Prop} {Q : κ → Prop}

/-- There is a character for a word if its number is that of a character. -/
theorem charOf?_eq_none_iff {n : Int64} : charOf? n = none ↔ ¬ IsScalar n.toInt := by
  have hsign : 0 ≤ n ↔ 0 ≤ n.toInt := Int64.le_iff_toInt_le
  simp only [charOf?, ite_eq_right_iff, reduceCtorEq, imp_false, hsign, Nat.isValidChar, IsScalar]
  omega

theorem onChars_truthful {i : Intrinsic}
    (hi : i ∈ [Intrinsic.firstChar, .remainingChars, .charCode])
    {f : Char → List Char → Value κ} (hf : ∀ c cs, (f c cs).isCallable = false) (v : Value κ) :
    Outcome.Truthful limit raised (Value.Every P Q) (i.onChars f v) := by
  unfold onChars
  split
  · split
    · exact ⟨i, hi, rfl⟩
    · exact Value.every_of_not_callable (hf _ _)
  · next h =>
      have hdomain : i.domain = .string := by
        simp only [List.mem_cons, List.not_mem_nil, or_false] at hi
        rcases hi with rfl | rfl | rfl <;> rfl
      refine ⟨i, rfl, by rw [hdomain], fun htag => ?_⟩
      rw [hdomain] at htag
      cases v with
      | str s => exact h s rfl
      | int n | bool n | closure n | builtin n => cases htag

/-- **Intrinsics** refuse arguments of the wrong type, empty strings and numbers of no
characters. -/
theorem apply_truthful (i : Intrinsic) (v : Value κ) :
    Outcome.Truthful limit raised (Value.Every P Q) (i.apply v) := by
  cases i with
  | firstChar => exact onChars_truthful (by decide) (fun _ _ => rfl) v
  | remainingChars => exact onChars_truthful (by decide) (fun _ _ => rfl) v
  | charCode => exact onChars_truthful (by decide) (fun _ _ => rfl) v
  | codeChar =>
      cases v with
      | int n =>
          simp only [apply]
          split
          · trivial
          · next h => exact charOf?_eq_none_iff.mp h
      | bool n | str n | closure n | builtin n =>
          exact ⟨.codeChar, rfl, rfl, fun h => by cases h⟩

end Intrinsic

/-! ### Evaluations tell the truth -/

/-- The error of a truthful outcome. -/
theorem Outcome.Truthful.of_error? {limit : Nat} {raised : Bool} {V : α → Prop}
    {out : Except (EvalError κ) α} (h : Outcome.Truthful limit raised V out) {e : EvalError κ}
    (he : Outcome.error? out = some e) : e.Truthful limit raised := by
  cases out with
  | ok a => cases he
  | error e' =>
      obtain rfl : e' = e := Option.some.inj he
      exact h

theorem EvalError.Raised.truthful {e : EvalError κ} (h : e.Raised) (limit : Nat) (raised : Bool) :
    e.Truthful limit raised := by
  cases h with
  | notAFunction h => exact Value.tag_of_not_callable h
  | nonBoolean h => exact h
  | @operator op l r _ h =>
      have htruth : Outcome.Truthful limit raised (Value.Within fun _ => True) (op.apply l r) :=
        op.apply_truthful l r
      rw [h] at htruth
      exact htruth

/-- Without functions of the host, the flag stays as it is; and from a depth that is not above the
limit, errors are truthful. -/
def truth : Invariant κ σ := .within (fun _ => False) fun s r t =>
  t.context.isInterrupted t.store = s.context.isInterrupted s.store ∧
    (s.context.depth ≤ s.context.limit → ∀ e, r = some e →
      e.Truthful s.context.limit (s.context.isInterrupted s.store))

theorem truth_lawful (host : Host κ σ) : truth.Lawful host where
  toClosed := Invariant.within_closed _ _
  refl _ := ⟨rfl, fun _ _ h => by cases h⟩
  trans {s t u r} hcontext h h' := by
    refine ⟨h'.1.trans h.1, fun hle e he => ?_⟩
    have htruth := h'.2 (by rwa [hcontext]) e he
    rwa [h.1, hcontext] at htruth
  taken _ _ := ⟨rfl, fun _ _ h => by cases h⟩
  tied _ _ _ := ⟨rfl, fun _ _ h => by cases h⟩
  raised he _ := ⟨rfl, fun _ _ h => Option.some.inj h ▸ he.truthful _ _⟩
  unbound _ _ _ := ⟨rfl, fun _ _ h => Option.some.inj h ▸ trivial⟩
  interrupted hraised _ := ⟨rfl, fun _ _ h => Option.some.inj h ▸ hraised⟩
  intrinsic i _ v _ :=
    ⟨rfl, fun _ _ h => (i.apply_truthful (P := fun _ => True) (Q := fun _ => True) v).of_error? h⟩
  host hb hcode _ _ := (Builtin.Every.of_host hb hcode).1.elim
  call {s t r c v} hroom _ h := by
    have hflag := congrFun (c.quiet_callEnv v s.store) s.context.flag
    refine ⟨h.1.trans hflag, fun _ e he => ?_⟩
    have htruth := h.2 hroom e he
    rwa [show (s.inside c v).context.isInterrupted (s.inside c v).store = _ from hflag] at htruth
  refused hfull :=
    ⟨rfl, fun hle _ h => Option.some.inj h ▸ ⟨Nat.le_antisymm hle hfull, rfl⟩⟩

/-! ### Applications call nothing but functions -/

/-- Apply one value to another, or do something else with values that cannot be applied. -/
def Value.callElseWith (other : Value κ → Value κ → Run κ σ (Value κ)) (host : Host κ σ)
    (evalBody : Expr → Env κ → Run κ σ (Value κ)) : Value κ → Value κ → Run κ σ (Value κ)
  | .closure c, arg => c.runWith arg (evalBody c.body)
  | .builtin b, arg => b.run host arg
  | value, arg => other value arg

/-- The same with room for `room` nested calls. -/
def callElseAt (other : Value κ → Value κ → Run κ σ (Value κ)) (host : Host κ σ) :
    Nat → Value κ → Value κ → Run κ σ (Value κ)
  | 0 => Value.callElseWith other host fun _ _ => Run.overflow
  | room + 1 => Value.callElseWith other host (Expr.evalWith (callElseAt other host room))

/-- Evaluate an expression, with `other` in place of the refusal to apply what is no function. -/
def Expr.evalElse (other : Value κ → Value κ → Run κ σ (Value κ)) (host : Host κ σ) (e : Expr)
    (env : Env κ) : Run κ σ (Value κ) := fun s =>
  e.evalWith (callElseAt other host s.context.room) env s

theorem callElseAt_eq (other : Value κ → Value κ → Run κ σ (Value κ)) (host : Host κ σ)
    (room : Nat) :
    ∀ u v, u.isCallable = true → callElseAt other host room u v = callAt host room u v := by
  have hcall {evalBody evalBody' : Expr → Env κ → Run κ σ (Value κ)}
      (hbody : evalBody = evalBody') (u v : Value κ) (hu : u.isCallable = true) :
      u.callElseWith other host evalBody v = u.callWith host evalBody' v := by
    subst hbody
    cases u with
    | closure c | builtin b => rfl
    | int n | bool n | str n => cases hu
  induction room with
  | zero => exact hcall rfl
  | succ room ih => exact hcall (funext fun e => funext (e.evalWith_congr ih))

/-- **What would be done with something that is no function does not matter.** -/
theorem evalElse_eq (other : Value κ → Value κ → Run κ σ (Value κ)) (host : Host κ σ) (e : Expr)
    (env : Env κ) : e.evalElse other host env = e.eval host env :=
  funext fun s => congrFun (e.evalWith_congr (callElseAt_eq other host s.context.room) env) s

/-! ### The law -/

/-- **Every error tells the truth.**  In an environment whose builtins are intrinsics, and from a
depth that is not above the limit, an evaluation that fails does so with a truthful error.  The
refusal to call what is no function comes from applications, before the argument is evaluated: what
a call itself would do with such a value makes no difference. -/
theorem errors_tell_the_truth (host : Host κ σ) (e : Expr) {env : Env κ}
    (henv : env.Within fun _ => False) (s : Run.State κ σ)
    (hdepth : s.context.depth ≤ s.context.limit) :
    (∀ err, (e.eval host env s).1 = .error err →
      err.Truthful s.context.limit (s.context.isInterrupted s.store)) ∧
    ∀ other : Value κ → Value κ → Run κ σ (Value κ),
      e.evalElse other host env s = e.eval host env s := by
  refine ⟨fun err herr => ?_, fun other => by rw [evalElse_eq]⟩
  have hend := (truth_lawful host).eval (e := e) henv s
  exact hend.after.2 hdepth err (by rw [herr]; rfl)

/-- `(\n => c n) 55296`, where `c` is the intrinsic that makes characters: the error arises inside a
call, and the number is that of a surrogate. -/
theorem errors_tell_the_truth_surrogate :
    let env : Env Stock :=
      .frame 1 "c" (.builtin ⟨0, "codeChar", .intrinsic .codeChar, .empty⟩) .empty
    let s : Run.State Stock Stock.Counts := .start ⟨3, 1, 0⟩ ⟨2, fun _ => false, fun _ => 0⟩
    let e : Expr := .app (.lam "n" none (.app (.var "c") (.var "n"))) (.int 55296)
    (e.eval Stock.host env s).1 = .error (.invalidCharCode 55296) ∧
      ¬ IsScalar (55296 : Int64).toInt ∧
      ∀ other, e.evalElse other Stock.host env s = e.eval Stock.host env s := by
  intro env s e
  have herr : (e.eval Stock.host env s).1 = .error (.invalidCharCode 55296) := rfl
  have hheld : env.Within fun _ => False := ⟨trivial, trivial⟩
  obtain ⟨htruth, helse⟩ := errors_tell_the_truth Stock.host e hheld s (by decide)
  exact ⟨herr, htruth _ herr, helse⟩

end EagerLambda
