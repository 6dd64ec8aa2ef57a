import EagerLambda.Eval.Intrinsic
import EagerLambda.Eval.Operation

/-!
# Primitives — what operators and intrinsics can answer

An operator or an intrinsic that succeeds yields a word, a truth value or a string, never a function
(`Operator.Answer`, `Intrinsic.Answer`).  One that fails has a cause of its own: a primitive looks
at no variable, makes no call and tests no flag.  A function among the operands of an operator, or
as the argument of an intrinsic, is refused as it is.
-/

namespace EagerLambda

variable {κ : Type}

namespace Operator

/-- The answers that `op` can give for `l` and `r`.  All but the refusal of the operands need two
operands that are no functions. -/
inductive Answer (op : Operator) (l r : Value κ) : Except (EvalError κ) (Value κ) → Prop where
  | base {v : Value κ} (hlr : l.isCallable = false ∧ r.isCallable = false)
      (h : v.isCallable = false) : Answer op l r (.ok v)
  | incompatible : Answer op l r (.error (.incompatibleOperands op l r))
  | byZero (hlr : l.isCallable = false ∧ r.isCallable = false) :
      Answer op l r (.error (.divisionByZero op))
  | overflow (hlr : l.isCallable = false ∧ r.isCallable = false) :
      Answer op l r (.error (.integerOverflow op))

theorem arithmetic_answer (op : Operator) (f : Int64 → Int64 → Option Int64) (l r : Value κ) :
    Answer op l r (op.arithmetic f l r) := by
  unfold arithmetic
  split
  · split
    · exact .base ⟨rfl, rfl⟩ rfl
    · exact .overflow ⟨rfl, rfl⟩
  · exact .incompatible

theorem division_answer (op : Operator) (f : Int64 → Int64 → Option Int64) (l r : Value κ) :
    Answer op l r (op.division f l r) := by
  unfold division
  split
  · split
    · exact .byZero ⟨rfl, rfl⟩
    · exact arithmetic_answer op f _ _
  · exact .incompatible

theorem comparison_answer (op : Operator) (f : Int64 → Int64 → Bool) (l r : Value κ) :
    Answer op l r (op.comparison f l r) := by
  unfold comparison
  split
  · exact .base ⟨rfl, rfl⟩ rfl
  · exact .incompatible

/-- **Operators**: a base value, or a refusal that names the operator. -/
theorem apply_answer (op : Operator) (l r : Value κ) : Answer op l r (op.apply l r) := by
  cases op with
  | add => exact arithmetic_answer .add _ l r
  | subtract => exact arithmetic_answer .subtract _ l r
  | multiply => exact arithmetic_answer .multiply _ l r
  | divide => exact division_answer .divide _ l r
  | mod => exact division_answer .mod _ l r
  | higher => exact comparison_answer .higher _ l r
  | lower => exact comparison_answer .lower _ l r
  | equality =>
      simp only [apply]
      split
      · exact .base ⟨rfl, rfl⟩ rfl
      · exact .base ⟨rfl, rfl⟩ rfl
      · exact .base ⟨rfl, rfl⟩ rfl
      · exact .incompatible
  | concat =>
      simp only [apply]
      split
      · exact .base ⟨rfl, rfl⟩ rfl
      · exact .incompatible

/-- A function on either side is refused by every operator. -/
theorem apply_callable (op : Operator) {l r : Value κ}
    (h : l.isCallable = true ∨ r.isCallable = true) :
    op.apply l r = .error (.incompatibleOperands op l r) := by
  have hno : ¬ (l.isCallable = false ∧ r.isCallable = false) := by
    rintro ⟨hl, hr⟩
    simp [hl, hr] at h
  generalize ho : op.apply l r = out
  have hans : Answer op l r out := ho ▸ apply_answer op l r
  cases hans with
  | base hlr _ => exact absurd hlr hno
  | incompatible => rfl
  | byZero hlr => exact absurd hlr hno
  | overflow hlr => exact absurd hlr hno

/-- No operator complains of a name. -/
theorem apply_ne_unbound (op : Operator) (l r : Value κ) (x : String) :
    op.apply l r ≠ .error (.unboundVariable x) := by
  intro h
  have hans := h ▸ apply_answer op l r
  cases hans

end Operator

namespace Intrinsic

/-- The type of the arguments that the intrinsic accepts. -/
def domain : Intrinsic → Tag
  | .firstChar | .remainingChars | .charCode => .string
  | .codeChar => .int

/-- The answers that `i` can give for `v`.  All but the refusal of the argument need an argument
that is no function. -/
inductive Answer (i : Intrinsic) (v : Value κ) : Except (EvalError κ) (Value κ) → Prop where
  | base {w : Value κ} (hv : v.isCallable = false) (h : w.isCallable = false) : Answer i v (.ok w)
  | invalid : Answer i v (.error (.invalidArgument i.name i.domain.name v))
  | empty (hv : v.isCallable = false) : Answer i v (.error (.emptyString i.name))
  | noChar (hv : v.isCallable = false) (n : Int64) : Answer i v (.error (.invalidCharCode n))

theorem onChars_answer (i : Intrinsic) (hi : i.domain = .string) {f : Char → List Char → Value κ}
    (hf : ∀ c cs, (f c cs).isCallable = false) (v : Value κ) : Answer i v (i.onChars f v) := by
  unfold onChars
  split
  · split
    · exact .empty rfl
    · exact .base rfl (hf _ _)
  · exact hi ▸ .invalid

/-- **Intrinsics**: a base value, or a refusal that names the intrinsic. -/
theorem apply_answer (i : Intrinsic) (v : Value κ) : Answer i v (i.apply v) := by
  cases i with
  | firstChar => exact onChars_answer .firstChar rfl (fun _ _ => rfl) v
  | remainingChars => exact onChars_answer .remainingChars rfl (fun _ _ => rfl) v
  | charCode => exact onChars_answer .charCode rfl (fun _ _ => rfl) v
  | codeChar =>
      simp only [apply]
      split
      · split
        · exact .base rfl rfl
        · exact .noChar rfl _
      · exact .invalid

/-- A function is refused by every intrinsic. -/
theorem apply_callable (i : Intrinsic) {v : Value κ} (h : v.isCallable = true) :
    i.apply v = .error (.invalidArgument i.name i.domain.name v) := by
  have hno : v.isCallable ≠ false := by simp [h]
  generalize ho : i.apply v = out
  have hans : Answer i v out := ho ▸ apply_answer i v
  cases hans with
  | base hv _ => exact absurd hv hno
  | invalid => rfl
  | empty hv => exact absurd hv hno
  | noChar hv _ => exact absurd hv hno

/-- No intrinsic complains of a name. -/
theorem apply_ne_unbound (i : Intrinsic) (v : Value κ) (x : String) :
    i.apply v ≠ .error (.unboundVariable x) := by
  intro h
  have hans := h ▸ apply_answer i v
  cases hans

/-- A word with the code point of a character is taken for that character. -/
theorem charOf?_eq_some {n : Int64} {c : Char} (h : n.toInt = c.toNat) : charOf? n = some c := by
  have hsign : 0 ≤ n := Int64.le_iff_toInt_le.mpr (h ▸ Int.natCast_nonneg c.toNat)
  have hcode : n.toInt.toNat = c.toNat := by rw [h, Int.toNat_natCast]
  have hvalid : c.toNat.isValidChar := c.valid
  simp only [charOf?, hcode, Char.ofNat_toNat, if_pos (And.intro hsign hvalid)]

/-- Code points are far below the last word. -/
theorem toInt_code (c : Char) : (Int64.ofNat c.toNat).toInt = c.toNat := by
  have hvalid : c.toNat.isValidChar := c.valid
  have hlast : c.toNat < 0x110000 := hvalid.elim (by omega) And.right
  exact Int64.toInt_ofNat_of_lt (by omega)

theorem apply_codeChar {n : Int64} {c : Char} (h : n.toInt = c.toNat) :
    codeChar.apply (.int n : Value κ) = .ok (.str (String.ofList [c])) := by
  simp only [apply, charOf?_eq_some h]

theorem onChars_cons (i : Intrinsic) (f : Char → List Char → Value κ) (c : Char) (cs : List Char) :
    i.onChars f (.str (String.ofList (c :: cs))) = .ok (f c cs) := by
  simp only [onChars, String.toList_ofList]

end Intrinsic

end EagerLambda
