/-!
# Words

Arithmetic on 64-bit words that is exact or fails: the result is computed as an integer and has to
fit into a word again.
-/

namespace EagerLambda.Word

/-- The word with the value `n`, if there is one. -/
def ofInt? (n : Int) : Option Int64 :=
  if -9223372036854775808 ≤ n ∧ n ≤ 9223372036854775807 then some (Int64.ofInt n) else none

/-- The sum. -/
def add? (a b : Int64) : Option Int64 := ofInt? (a.toInt + b.toInt)

/-- The difference. -/
def sub? (a b : Int64) : Option Int64 := ofInt? (a.toInt - b.toInt)

/-- The product. -/
def mul? (a b : Int64) : Option Int64 := ofInt? (a.toInt * b.toInt)

/-- The quotient, rounded toward zero. -/
def div? (a b : Int64) : Option Int64 := ofInt? (a.toInt.tdiv b.toInt)

/-- The remainder that goes with the quotient, with the sign of the dividend.  It is computed along
with the quotient, so it fails wherever the quotient does not fit. -/
def rem? (a b : Int64) : Option Int64 := (div? a b).bind fun _ => ofInt? (a.toInt.tmod b.toInt)

end EagerLambda.Word
