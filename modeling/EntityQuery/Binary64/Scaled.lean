import EntityQuery.Binary64

/-!
# Decimal numbers by scaling

A quick way to read a decimal number: its digits are rounded to a floating point number, which is
multiplied or divided by a rounded power of ten.  Every step rounds to the nearest, ties to even.
The result is the number nearest to the decimal one when no step but the last has to round, as with
digits up to `2 ^ 53` and powers of ten up to the 22nd; otherwise it may be a neighbour of that.
-/

namespace EntityQuery.Binary64

def maxPowerOfTen : Nat := 308

/-- The number nearest to a power of ten; those beyond the greatest finite one are infinite. -/
def powerOfTen (n : Nat) : Binary64 := ofRatio false (tenTo (min n (maxPowerOfTen + 1))) 1

def product (x y : Binary64) : Binary64 :=
  ofRatio false (x.units * y.units) (unitsPerOne * unitsPerOne)

def quotient (x y : Binary64) : Binary64 := ofRatio false x.units y.units

/--
The number of some digits divided by `10 ^ n`.  A power that is not finite is divided by in two
steps, and two such steps leave nothing of a number of sixty-four bits.
-/
def scaledDown (digits n : Nat) : Binary64 :=
  if n ≤ maxPowerOfTen then
    quotient (ofNat digits) (powerOfTen n)
  else if n ≤ 2 * maxPowerOfTen then
    quotient (quotient (ofNat digits) (powerOfTen maxPowerOfTen)) (powerOfTen (n - maxPowerOfTen))
  else
    ofNat 0

/-- The number of some digits, which fit sixty-four bits, times a power of ten. -/
def scaled (digits : Nat) (exponent : Int) : Binary64 :=
  if 0 ≤ exponent then product (ofNat digits) (powerOfTen exponent.toNat)
  else scaledDown digits exponent.natAbs

end EntityQuery.Binary64
