import EntityQuery.Number.Power

/-!
# Fixed-point decimals

A decimal is a sign and a coefficient of at most ninety-six bits over a power of ten.  The scale
belongs to the number: `1.0` and `1.00` are different decimals of the same amount.  Zero may have a
sign, which it keeps when a negative number is rounded to nothing.  `==` compares amounts, to which
neither the scale nor the sign of zero matters; `=` compares all parts.
-/

namespace EntityQuery

def coefficientLimit : Nat := 0x1000000000000000000000000

def maxScale : Nat := 28

/-- The number `coefficient / 10 ^ scale` with a sign. -/
structure Decimal where
  negative : Bool
  coefficient : Nat
  scale : Nat
  coefficient_lt : coefficient < coefficientLimit
  scale_le : scale ≤ maxScale
deriving DecidableEq

namespace Decimal

def of? (negative : Bool) (coefficient scale : Nat) : Option Decimal :=
  if h : coefficient < coefficientLimit ∧ scale ≤ maxScale then
    some ⟨negative, coefficient, scale, h.1, h.2⟩
  else
    none

def signed (d : Decimal) : Int := if d.negative then -d.coefficient else d.coefficient

/-- Whether two decimals are the same amount, whatever their scales. -/
def sameAmount (a b : Decimal) : Bool := a.signed * tenTo b.scale = b.signed * tenTo a.scale

instance : BEq Decimal := ⟨sameAmount⟩

def ofInt? (n : Int) : Option Decimal := of? (n < 0) n.natAbs 0

def ofInt64 (n : Int64) : Decimal where
  negative := n.toInt < 0
  coefficient := n.toInt.natAbs
  scale := 0
  coefficient_lt := by
    have upper := n.toInt_lt
    have lower := n.le_toInt
    unfold coefficientLimit
    omega
  scale_le := by decide

def ofInt32 (n : Int32) : Decimal where
  negative := n.toInt < 0
  coefficient := n.toInt.natAbs
  scale := 0
  coefficient_lt := by
    have upper := n.toInt_lt
    have lower := n.le_toInt
    unfold coefficientLimit
    omega
  scale_le := by decide

end Decimal

end EntityQuery
