import EntityQuery.Number.Power

/-!
# Binary floating point numbers of 64 bits

A number is its bit pattern: a sign bit, eleven exponent bits and fifty-two fraction bits.  Two
numbers are equal when their patterns are, so every pattern that is not a number equals itself
and the two zeros differ.  Arithmetic on the patterns is exact: a finite magnitude is
`significand * 2 ^ shift` in units of `2 ^ (-1074)`, the smallest positive number.
-/

namespace EntityQuery

/-- A floating point number, given by its bit pattern. -/
structure Binary64 where
  bits : UInt64
deriving DecidableEq

namespace Binary64

def signBit : Nat := 0x8000000000000000

def fractionSize : Nat := 0x10000000000000

def isNegative (x : Binary64) : Bool := signBit ≤ x.bits.toNat

def exponentField (x : Binary64) : Nat := x.bits.toNat / fractionSize % 0x800

def fraction (x : Binary64) : Nat := x.bits.toNat % fractionSize

/-- Neither infinite nor a pattern that is not a number. -/
def isFinite (x : Binary64) : Bool := x.exponentField < 2047

def significand (x : Binary64) : Nat :=
  if x.exponentField = 0 then x.fraction else fractionSize + x.fraction

/-- The power of two that goes with `significand`, in units of `2 ^ (-1074)`. -/
def shift (x : Binary64) : Nat := x.exponentField - 1

/-- The magnitude of a finite number in units of `2 ^ (-1074)`. -/
def units (x : Binary64) : Nat := x.significand * twoTo x.shift

/-- The quotient of two natural numbers, rounded to the nearest, ties to even. -/
def roundedQuotient (num den : Nat) : Nat :=
  let quotient := num / den
  let twice := 2 * (num % den)
  if den < twice ∨ (twice = den ∧ quotient % 2 = 1) then quotient + 1 else quotient

def infinityBits : Nat := 0x7ff0000000000000

/-- How many of the smallest positive number make one. -/
def unitsPerOne : Nat := twoTo 1074

/--
The number nearest to `num / den`, ties to even.  Counted in units of `2 ^ (-1074)`, the ratio is
cut to a significand of at most fifty-three bits; since exponent and fraction adjoin, a
significand that is rounded up to `2 ^ 53` carries into the exponent by itself.
-/
def ofRatio (negative : Bool) (num den : Nat) : Binary64 :=
  let units := num * unitsPerOne
  let shift := Nat.log2 (units / den) - 52
  let rounded := shift * fractionSize + roundedQuotient units (den * twoTo shift)
  let magnitude := min rounded infinityBits
  ⟨UInt64.ofNat (if negative then signBit + magnitude else magnitude)⟩

def ofNat (n : Nat) : Binary64 := ofRatio false n 1

def ofInt (n : Int) : Binary64 := ofRatio (n < 0) n.natAbs 1

def ofDecimal (digits : Nat) (exponent : Int) : Binary64 :=
  if 0 ≤ exponent then ofRatio false (digits * tenTo exponent.toNat) 1
  else ofRatio false digits (tenTo exponent.natAbs)

def magnitude (x : Binary64) : Binary64 := ⟨x.bits &&& 0x7fffffffffffffff⟩

def negative (x : Binary64) : Binary64 := ⟨x.bits ||| 0x8000000000000000⟩

end Binary64

structure FiniteBinary64 extends Binary64 where
  finite : toBinary64.isFinite = true
deriving DecidableEq

def Binary64.finite? (x : Binary64) : Option FiniteBinary64 :=
  if h : x.isFinite = true then some ⟨x, h⟩ else none

end EntityQuery
