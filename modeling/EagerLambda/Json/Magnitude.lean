/-!
# JSON — the magnitude of numbers

Whether a number is finite in the 64-bit binary format, as far as a quick conversion can tell: the
leading digits that fit into a word are rounded to 53 binary digits and multiplied by the rounded
power of ten that stands for the rest.  The product is rounded once more, so numbers very close to
the end of the range may fall on the other side of it than their exact values do.
-/

namespace EagerLambda.Json.Number

/-- `n` rounded to 53 binary digits; a tie goes to the even neighbour. -/
def round53 (n : Nat) : Nat :=
  let unit := Nat.pow 2 (n.log2 - 52)
  let below := n / unit
  let rest := n % unit
  if unit < 2 * rest ∨ (2 * rest = unit ∧ below % 2 = 1) then (below + 1) * unit else below * unit

theorem round53_le (n : Nat) : round53 n ≤ 2 * n := by
  rcases Nat.eq_zero_or_pos n with rfl | hn
  · decide
  have hunit : Nat.pow 2 (n.log2 - 52) ≤ n :=
    Nat.le_trans (Nat.pow_le_pow_right (by decide) (Nat.sub_le ..))
      (Nat.log2_self_le (Nat.ne_of_gt hn))
  have hbelow : n / Nat.pow 2 (n.log2 - 52) * Nat.pow 2 (n.log2 - 52) ≤ n := Nat.div_mul_le_self ..
  simp only [round53]
  split
  · rw [Nat.add_mul]; omega
  · omega

/-- The least number that rounds to infinity. -/
def infinite : Nat := Nat.pow 2 1024 - Nat.pow 2 970

/-- Append digits to `w` as long as the result fits into a word; the digits left over follow. -/
def leading : Nat → List Char → Nat × List Char
  | w, []      => (w, [])
  | w, d :: ds =>
    let next := 10 * w + (d.toNat - '0'.toNat)
    if next < Nat.pow 2 64 then leading next ds else (w, d :: ds)

/-- Whether `w · 10 ^ scale` is finite, for a word `w`.  The largest power of ten of the format is
the 308th. -/
def isFiniteScaled (w : Nat) (scale : Int) : Bool :=
  w == 0 || scale < 0 ||
    (scale ≤ 308 && round53 w * round53 (Nat.pow 10 scale.toNat) < infinite)

/-- Whether the number with the given integer part, fraction and exponent is finite.  Digits of the
integer part that no longer fit count as a power of ten, those of the fraction not at all. -/
def isFinite (whole fraction : List Char) (exponent : Int) : Bool :=
  let (w, beyond) := leading 0 whole
  let (w, unused) := leading w fraction
  isFiniteScaled w (beyond.length + unused.length - fraction.length + exponent)

end EagerLambda.Json.Number
