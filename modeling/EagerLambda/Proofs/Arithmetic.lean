import EagerLambda.Eval.Stock

/-!
# Arithmetic — operators on words against operators on integers

Words are integers between two bounds, and arithmetic on them is meant to be arithmetic on integers:
the exact result if it is a word, and an overflow if it is not.  `Operator.result?` is the exact
result of an operator on integers, `Operator.holds?` the exact comparison, and `Operator.Exact` says
that an answer is the one that these call for.

Every operator answers exactly, on all words but one pair (`apply_exact_iff`).  The remainder is
computed along with the quotient, and there is one quotient of two words that is no word: that of
the least word by minus one (`Word.inRange_tdiv_iff`).  The remainder there is zero, but an overflow
is reported (`mod_of_least`).

Where quotient and remainder are both found, they determine each other, and the dividend can be
computed from them without an overflow (`dividend_recovered`).
-/

namespace EagerLambda

variable {κ : Type}

/-! ### Words among the integers -/

namespace Word

/-- The integer is the value of a word. -/
def InRange (n : Int) : Prop := Int64.minValue.toInt ≤ n ∧ n ≤ Int64.maxValue.toInt

theorem inRange_iff {n : Int} :
    InRange n ↔ -9223372036854775808 ≤ n ∧ n ≤ 9223372036854775807 := Iff.rfl

instance (n : Int) : Decidable (InRange n) := decidable_of_iff _ inRange_iff.symm

theorem inRange_toInt (a : Int64) : InRange a.toInt := ⟨a.minValue_le_toInt, a.toInt_le⟩

theorem ofInt?_eq_none_iff {n : Int} : ofInt? n = none ↔ ¬ InRange n := by
  rw [inRange_iff, ofInt?]
  split <;> simp_all

/-- A word stands for its value and for no other integer. -/
theorem ofInt?_eq_some_iff {n : Int} {w : Int64} : ofInt? n = some w ↔ w.toInt = n := by
  constructor
  · intro h
    simp only [ofInt?, Option.ite_none_right_eq_some, Option.some.injEq] at h
    obtain ⟨⟨hlow, hhigh⟩, rfl⟩ := h
    exact Int64.toInt_ofInt_of_le (by omega) (by omega)
  · rintro rfl
    rw [ofInt?, if_pos (inRange_iff.mp (inRange_toInt w)), Int64.ofInt_toInt]

/-- There is a word for every integer in the range. -/
theorem exists_ofInt? {n : Int} (h : InRange n) : ∃ w : Int64, w.toInt = n ∧ ofInt? n = some w := by
  cases hn : ofInt? n with
  | none => exact absurd h (ofInt?_eq_none_iff.mp hn)
  | some w => exact ⟨w, ofInt?_eq_some_iff.mp hn, rfl⟩

/-! ### Quotients and remainders -/

theorem toInt_ne_zero {b : Int64} (hb : b ≠ 0) : b.toInt ≠ 0 :=
  fun h => hb (Int64.toInt_inj.mp h)

/-- **The quotient** of two words is a word, but for that of the least one by minus one. -/
theorem inRange_tdiv_iff (a b : Int64) :
    InRange (a.toInt.tdiv b.toInt) ↔ ¬ (a = Int64.minValue ∧ b = -1) := by
  constructor
  · rintro h ⟨rfl, rfl⟩
    exact absurd h (by decide)
  · intro hne
    have ha := inRange_toInt a
    have hsmall : b.toInt = -1 ∨ b.toInt = 0 ∨ b.toInt = 1 ∨ 2 ≤ b.toInt.natAbs := by omega
    rcases hsmall with hb | hb | hb | hb
    · -- only the least word has no opposite
      have hleast : a.toInt ≠ -9223372036854775808 :=
        fun h => hne ⟨Int64.toInt_inj.mp h, Int64.toInt_inj.mp hb⟩
      rw [inRange_iff] at ha
      rw [hb, Int.tdiv_neg, Int.tdiv_one, inRange_iff]
      omega
    · rw [hb, Int.tdiv_zero]
      decide
    · rw [hb, Int.tdiv_one]
      exact ha
    · have hhalf : (a.toInt.tdiv b.toInt).natAbs ≤ a.toInt.natAbs / 2 := by
        rw [Int.natAbs_tdiv]
        exact Nat.div_le_div_left hb (by decide)
      rw [inRange_iff] at ha ⊢
      omega

/-- A remainder lies between zero and the dividend. -/
theorem tmod_between (a b : Int) : 0 ≤ a.tmod b ∧ a.tmod b ≤ a ∨ a ≤ a.tmod b ∧ a.tmod b ≤ 0 := by
  have hsize : (a.tmod b).natAbs ≤ a.natAbs := by
    rw [Int.natAbs_tmod]
    exact Nat.mod_le _ _
  rcases Int.le_total 0 a with ha | ha
  · have hsign := Int.tmod_nonneg b ha
    omega
  · have hsign := Int.tmod_nonneg b (Int.neg_nonneg_of_nonpos ha)
    rw [Int.neg_tmod] at hsign
    omega

/-- The remainder is found wherever the quotient is. -/
theorem rem?_eq {a b : Int64} (h : ¬ (a = Int64.minValue ∧ b = -1)) :
    rem? a b = ofInt? (a.toInt.tmod b.toInt) := by
  obtain ⟨q, -, hq⟩ := exists_ofInt? ((inRange_tdiv_iff a b).mpr h)
  rw [rem?, show div? a b = some q from hq, Option.bind_some]

end Word

/-! ### Exact answers -/

namespace Operator

/-- The exact result of an arithmetic operator on integers, if there is one.  Quotients are rounded
toward zero, and the remainder goes with the quotient. -/
def result? : Operator → Int → Int → Option Int
  | .add, a, b => some (a + b)
  | .subtract, a, b => some (a - b)
  | .multiply, a, b => some (a * b)
  | .divide, a, b => if b = 0 then none else some (a.tdiv b)
  | .mod, a, b => if b = 0 then none else some (a.tmod b)
  | .higher, _, _ | .lower, _, _ | .equality, _, _ | .concat, _, _ => none

/-- Whether the integers compare as the operator says, if it compares integers. -/
def holds? : Operator → Int → Int → Option Bool
  | .higher, a, b => some (decide (b < a))
  | .lower, a, b => some (decide (a < b))
  | .equality, a, b => some (decide (a = b))
  | .add, _, _ | .subtract, _, _ | .multiply, _, _ | .divide, _, _ | .mod, _, _ | .concat, _, _ =>
    none

/-- The answer for the words `a` and `b` is the one that integers call for: the exact result if it
is a word and an overflow if and only if it is none, a complaint about a zero divisor, or the exact
comparison. -/
structure Exact (op : Operator) (a b : Int64) (out : Except (EvalError κ) (Value κ)) : Prop where
  fits : ∀ r, op.result? a.toInt b.toInt = some r → Word.InRange r →
    ∃ n : Int64, n.toInt = r ∧ out = .ok (.int n)
  overflows : ∀ r, op.result? a.toInt b.toInt = some r →
    (out = .error (.integerOverflow op) ↔ ¬ Word.InRange r)
  byZero : op ∈ [Operator.divide, .mod] → b = 0 → out = .error (.divisionByZero op)
  compares : ∀ t, op.holds? a.toInt b.toInt = some t → out = .ok (.bool t)

namespace Exact

variable {op : Operator} {a b : Int64}

/-- Arithmetic is exact if it yields the exact result wherever that is a word. -/
theorem of_result {f : Int64 → Int64 → Option Int64} {r : Int}
    (hr : op.result? a.toInt b.toInt = some r) (hf : f a b = Word.ofInt? r) :
    op.Exact a b (op.arithmetic f (.int a) (.int b) : Except (EvalError κ) (Value κ)) where
  fits := by
    intro r' hr' hrange
    obtain rfl := Option.some.inj (hr.symm.trans hr')
    obtain ⟨n, hn, hsome⟩ := Word.exists_ofInt? hrange
    exact ⟨n, hn, by simp only [arithmetic, hf, hsome]⟩
  overflows := by
    intro r' hr'
    obtain rfl := Option.some.inj (hr.symm.trans hr')
    rw [← Word.ofInt?_eq_none_iff, ← hf]
    cases hfab : f a b with
    | none => simp [arithmetic, hfab]
    | some n => simp [arithmetic, hfab]
  byZero := by
    rintro hop rfl
    simp only [List.mem_cons, List.not_mem_nil, or_false] at hop
    rcases hop with rfl | rfl
    · cases hr
    · cases hr
  compares := by
    intro t ht
    cases op with
    | higher | lower | equality => cases hr
    | add | subtract | multiply | divide | mod | concat => cases ht

/-- Where integers have neither a result nor a comparison, only a zero divisor is looked at. -/
theorem of_none {out : Except (EvalError κ) (Value κ)}
    (hr : op.result? a.toInt b.toInt = none) (ht : op.holds? a.toInt b.toInt = none)
    (hout : op ∈ [Operator.divide, .mod] → b = 0 → out = .error (.divisionByZero op)) :
    op.Exact a b out where
  fits := fun r hr' => by rw [hr] at hr'; cases hr'
  overflows := fun r hr' => by rw [hr] at hr'; cases hr'
  byZero := hout
  compares := fun t ht' => by rw [ht] at ht'; cases ht'

/-- Division is exact if it yields the exact result wherever that is a word. -/
theorem of_division (hop : op ∈ [Operator.divide, .mod]) {f : Int64 → Int64 → Option Int64}
    {r : Int} (hr : b ≠ 0 → op.result? a.toInt b.toInt = some r) (hf : f a b = Word.ofInt? r) :
    op.Exact a b (op.division f (.int a) (.int b) : Except (EvalError κ) (Value κ)) := by
  by_cases hb : b = 0
  · subst hb
    simp only [List.mem_cons, List.not_mem_nil, or_false] at hop
    rcases hop with rfl | rfl
    · exact .of_none rfl rfl fun _ _ => rfl
    · exact .of_none rfl rfl fun _ _ => rfl
  · simp only [division, if_neg hb]
    exact .of_result (hr hb) hf

/-- A comparison is exact if it is the comparison of integers. -/
theorem of_holds {t : Bool} (ht : op.holds? a.toInt b.toInt = some t) :
    op.Exact a b (.ok (.bool t) : Except (EvalError κ) (Value κ)) := by
  have hnone : op.result? a.toInt b.toInt = none ∧ op ∉ [Operator.divide, .mod] := by
    cases op with
    | higher | lower | equality => exact ⟨rfl, by decide⟩
    | add | subtract | multiply | divide | mod | concat => cases ht
  obtain ⟨hr, hop⟩ := hnone
  exact {
    fits := fun r hr' => by rw [hr] at hr'; cases hr'
    overflows := fun r hr' => by rw [hr] at hr'; cases hr'
    byZero := fun h => absurd h hop
    compares := fun t' ht' => by rw [Option.some.inj (ht.symm.trans ht')] }

end Exact

theorem result?_division {a b : Int64} (hb : b ≠ 0) :
    Operator.divide.result? a.toInt b.toInt = some (a.toInt.tdiv b.toInt) ∧
      Operator.mod.result? a.toInt b.toInt = some (a.toInt.tmod b.toInt) := by
  exact ⟨if_neg (Word.toInt_ne_zero hb), if_neg (Word.toInt_ne_zero hb)⟩

/-- Every operator answers exactly, but for the remainder of the least word by minus one. -/
theorem exact_apply {op : Operator} {a b : Int64}
    (h : ¬ (op = .mod ∧ a = Int64.minValue ∧ b = -1)) :
    op.Exact a b (op.apply (.int a) (.int b) : Except (EvalError κ) (Value κ)) := by
  cases op with
  | add | subtract | multiply => exact .of_result rfl rfl
  | divide => exact .of_division (by decide) (fun hb => (result?_division hb).1) rfl
  | mod =>
      have hne : ¬ (a = Int64.minValue ∧ b = -1) := fun hab => h ⟨rfl, hab⟩
      exact .of_division (by decide) (fun hb => (result?_division hb).2) (Word.rem?_eq hne)
  | higher | lower =>
      refine .of_holds ?_
      simp only [holds?, Int64.lt_iff_toInt_lt]
  | equality =>
      refine .of_holds ?_
      simp only [holds?, Int64.toInt_inj]
      rfl
  | concat => exact .of_none rfl rfl fun hop => by simp at hop

/-- A result that is a word is found, if the operator is not the remainder by minus one. -/
theorem exists_apply (op : Operator) {a b : Int64} {r : Int} (h : op ≠ .mod ∨ b ≠ -1)
    (hr : op.result? a.toInt b.toInt = some r) (hrange : Word.InRange r) :
    ∃ n : Int64, n.toInt = r ∧
      op.apply (.int a) (.int b) = (.ok (.int n) : Except (EvalError κ) (Value κ)) :=
  (exact_apply fun hex => h.elim (absurd hex.1) (absurd hex.2.2)).fits r hr hrange

/-- The least word has a remainder by minus one, but no quotient. -/
theorem mod_least : Operator.mod.apply (.int Int64.minValue) (.int (-1)) =
    (.error (.integerOverflow .mod) : Except (EvalError κ) (Value κ)) := rfl

end Operator

/-- **Arithmetic is exact, but for one remainder.**  An operator answers two words with the exact
result if it is a word and with an overflow if and only if it is none, complains of a divisor that
is zero, and compares words as the integers they stand for.  The only answer that is not exact is
the one for the remainder of the least word by minus one. -/
theorem apply_exact_iff (op : Operator) (a b : Int64) :
    op.Exact a b (op.apply (.int a) (.int b) : Except (EvalError κ) (Value κ)) ↔
      ¬ (op = .mod ∧ a = Int64.minValue ∧ b = -1) := by
  refine ⟨?_, Operator.exact_apply⟩
  rintro hexact ⟨rfl, rfl, rfl⟩
  exact (hexact.overflows 0 (by decide)).mp Operator.mod_least (by decide)

/-- The remainder of the least word by minus one is zero, which is a word, and an overflow is
reported. -/
theorem mod_of_least :
    Operator.mod.result? Int64.minValue.toInt (-1 : Int64).toInt = some 0 ∧ Word.InRange 0 ∧
      Operator.mod.apply (.int Int64.minValue) (.int (-1)) =
        (.error (.integerOverflow .mod) : Except (EvalError Stock) (Value Stock)) ∧
      ¬ Operator.mod.Exact Int64.minValue (-1)
        (Operator.mod.apply (.int Int64.minValue) (.int (-1)) :
          Except (EvalError Stock) (Value Stock)) := by
  have hresult : Operator.mod.result? Int64.minValue.toInt (-1 : Int64).toInt = some 0 := by decide
  have hrange : Word.InRange 0 := by decide
  exact ⟨hresult, hrange, Operator.mod_least,
    fun hexact => (hexact.overflows 0 hresult).mp Operator.mod_least hrange⟩

/-! ### Quotient and remainder together -/

/-- The sign condition on a remainder: it is zero or on the side of zero where the dividend is. -/
theorem Word.sign_tmod (a b : Int) : a.tmod b = 0 ∨ (a.tmod b).sign = a.sign := by
  rw [← Int.sign_eq_zero_iff_zero, Int.sign_tmod]
  split
  · exact .inl rfl
  · exact .inr rfl

/-- **Uniqueness**: a remainder smaller than the divisor, and zero or of the sign of the dividend,
can only be the one of the quotient that is rounded toward zero. -/
theorem Word.tdiv_tmod_unique {a b q r : Int} (h : q * b + r = a) (hsize : r.natAbs < b.natAbs)
    (hsign : r = 0 ∨ r.sign = a.sign) : q = a.tdiv b ∧ r = a.tmod b := by
  have hb : b ≠ 0 := by
    rintro rfl
    cases hsize
  have hsum : r + b * q = a := by rw [Int.mul_comm, Int.add_comm, h]
  rcases Int.le_total 0 a with ha | ha
  · have hr : 0 ≤ r := by
      rcases hsign with hr | hr
      · omega
      · exact Int.sign_nonneg_iff.mp (hr ▸ Int.sign_nonneg_iff.mpr ha)
    obtain ⟨hq, hr⟩ := (Int.tdiv_tmod_unique ha hb).mpr ⟨hsum, hr, by omega⟩
    exact ⟨hq.symm, hr.symm⟩
  · have hr : r ≤ 0 := by
      rcases hsign with hr | hr
      · omega
      · exact Int.sign_nonpos_iff.mp (hr ▸ Int.sign_nonpos_iff.mpr ha)
    obtain ⟨hq, hr⟩ := (Int.tdiv_tmod_unique' ha hb).mpr ⟨hsum, by omega, hr⟩
    exact ⟨hq.symm, hr.symm⟩

namespace Operator

/-- Arithmetic that succeeds has found a word. -/
theorem arithmetic_eq_ok_iff {op : Operator} {f : Int64 → Int64 → Option Int64} {a b : Int64}
    {v : Value κ} :
    op.arithmetic f (.int a) (.int b) = .ok v ↔ ∃ n, f a b = some n ∧ v = .int n := by
  cases h : f a b with
  | none => simp [arithmetic, h]
  | some n => simp [arithmetic, h, eq_comm]

theorem division_eq_ok_iff {op : Operator} {f : Int64 → Int64 → Option Int64} {a b : Int64}
    {v : Value κ} :
    op.division f (.int a) (.int b) = .ok v ↔ b ≠ 0 ∧ ∃ n, f a b = some n ∧ v = .int n := by
  by_cases hb : b = 0
  · simp [division, hb]
  · simp only [division, if_neg hb]
    exact arithmetic_eq_ok_iff.trans ⟨fun h => ⟨hb, h⟩, fun h => h.2⟩

end Operator

/-- **The dividend can be recovered.**  Where both the quotient and the remainder of `a` by `b` are
found, multiplying the quotient by `b` and adding the remainder yields `a` again, without an
overflow on the way.  The remainder is smaller in size than `b`, and it is zero or has the sign of
`a`.  No other integers have these properties. -/
theorem dividend_recovered (a b : Int64) {u v : Value κ}
    (hu : Operator.divide.apply (.int a) (.int b) = .ok u)
    (hv : Operator.mod.apply (.int a) (.int b) = .ok v) :
    ∃ q r p : Int64, u = .int q ∧ v = .int r ∧
      Operator.multiply.apply u (.int b) = .ok (.int p) ∧
      Operator.add.apply (.int p) v = .ok (.int a) ∧
      r.toInt.natAbs < b.toInt.natAbs ∧ (r.toInt = 0 ∨ r.toInt.sign = a.toInt.sign) ∧
      ∀ q' r' : Int, q' * b.toInt + r' = a.toInt → r'.natAbs < b.toInt.natAbs →
        (r' = 0 ∨ r'.sign = a.toInt.sign) → q' = q.toInt ∧ r' = r.toInt := by
  obtain ⟨hb, q, hq, rfl⟩ := Operator.division_eq_ok_iff.mp hu
  obtain ⟨-, r, hr, rfl⟩ := Operator.division_eq_ok_iff.mp hv
  have hq : q.toInt = a.toInt.tdiv b.toInt := Word.ofInt?_eq_some_iff.mp hq
  have hr : r.toInt = a.toInt.tmod b.toInt := by
    have hfits := (Word.inRange_tdiv_iff a b).mp (hq ▸ Word.inRange_toInt q)
    exact Word.ofInt?_eq_some_iff.mp (Word.rem?_eq hfits ▸ hr)
  have hsum : q.toInt * b.toInt + r.toInt = a.toInt := by
    rw [hq, hr, Int.tdiv_mul_add_tmod]
  -- the product lies between zero and the dividend, because the remainder does
  have hproduct : Word.InRange (q.toInt * b.toInt) := by
    have ha := Word.inRange_iff.mp (Word.inRange_toInt a)
    have hbetween := Word.tmod_between a.toInt b.toInt
    rw [← hr] at hbetween
    rw [Word.inRange_iff]
    omega
  obtain ⟨p, hp, hmultiply⟩ :=
    Operator.multiply.exists_apply (.inl (by decide)) rfl hproduct
  have hback : p.toInt + r.toInt = a.toInt := hp ▸ hsum
  obtain ⟨n, hn, hadd⟩ :=
    Operator.add.exists_apply (.inl (by decide)) rfl (hback ▸ Word.inRange_toInt a)
  refine ⟨q, r, p, rfl, rfl, hmultiply, ?_, ?_, ?_, ?_⟩
  · rw [hadd, Int64.toInt_inj.mp (hn.trans hback)]
  · rw [hr, Int.natAbs_tmod]
    exact Nat.mod_lt _ (Int.natAbs_pos.mpr (Word.toInt_ne_zero hb))
  · rw [hr]
    exact Word.sign_tmod a.toInt b.toInt
  · intro q' r' h hsize hsign
    rw [hq, hr]
    exact Word.tdiv_tmod_unique h hsize hsign

/-- The least word by three: the quotient is rounded toward zero, the remainder is negative, and the
way back touches the least word without an overflow. -/
theorem dividend_recovered_least :
    Operator.divide.apply (.int Int64.minValue) (.int 3) =
        (.ok (.int (-3074457345618258602)) : Except (EvalError Stock) (Value Stock)) ∧
      Operator.mod.apply (.int Int64.minValue) (.int 3) =
        (.ok (.int (-2)) : Except (EvalError Stock) (Value Stock)) ∧
      ∃ p : Int64, Operator.multiply.apply (.int (-3074457345618258602)) (.int 3) =
          (.ok (.int p) : Except (EvalError Stock) (Value Stock)) ∧
        Operator.add.apply (.int p) (.int (-2)) =
          (.ok (.int Int64.minValue) : Except (EvalError Stock) (Value Stock)) := by
  have hquotient : Operator.divide.apply (.int Int64.minValue) (.int 3) =
      (.ok (.int (-3074457345618258602)) : Except (EvalError Stock) (Value Stock)) := rfl
  have hremainder : Operator.mod.apply (.int Int64.minValue) (.int 3) =
      (.ok (.int (-2)) : Except (EvalError Stock) (Value Stock)) := rfl
  obtain ⟨q, r, p, -, -, hp, ha, -⟩ := dividend_recovered Int64.minValue 3 hquotient hremainder
  exact ⟨hquotient, hremainder, p, hp, ha⟩

end EagerLambda
