import Mathlib.Algebra.Field.Rat
import EntityQuery.Proofs.Equality

/-!
# The amount of a decimal

A decimal stands for a rational number, its signed coefficient over a power of ten.  `==` compares
two coefficients over the product of the denominators, so that it holds of decimals of one amount,
whatever their scales.  An integer becomes the decimal without decimal places of its own amount.
-/

namespace EntityQuery.Decimal

variable {a b : Decimal}

/-- The number that a decimal stands for. -/
def amount (d : Decimal) : ℚ := d.signed / tenTo d.scale

theorem tenTo_ne_zero (scale : Nat) : (tenTo scale : ℚ) ≠ 0 :=
  Nat.cast_ne_zero.2 (Nat.ne_of_gt (tenTo_pos scale))

theorem equal_iff_amount : Equal a b ↔ a.amount = b.amount := by
  rw [equal_iff, amount, amount, div_eq_div_iff (tenTo_ne_zero _) (tenTo_ne_zero _)]
  exact_mod_cast Iff.rfl

theorem signed_ofInt64 (n : Int64) : (ofInt64 n).signed = n.toInt := by
  simp only [signed, ofInt64, decide_eq_true_eq]
  split <;> omega

theorem amount_ofInt64 (n : Int64) : (ofInt64 n).amount = n.toInt := by
  have hscale : (tenTo (ofInt64 n).scale : ℚ) = 1 := Nat.cast_one
  rw [amount, signed_ofInt64, hscale, div_one]

/-- To widen an integer first makes no difference. -/
theorem ofInt32_eq (n : Int32) : ofInt32 n = ofInt64 n.toInt64 := by
  simp [ofInt32, ofInt64]

end EntityQuery.Decimal
