import EntityQuery.Binary64

/-!
# Shortest decimal digits

The decimal digits of a finite number: the fewest that read back to it, and of those the nearest
to it.  For each digit count the two neighbours of the number on that decimal grid are tried; a
grid of seventeen digits always has one that reads back.  The number may lie halfway between its
neighbours, so a reader of the digits says which of the two it takes.
-/

namespace EntityQuery

/-- A decimal number `digits * 10 ^ exponent`, with its digits written out. -/
structure DecimalDigits where
  digits : List Char
  exponent : Int
deriving DecidableEq

inductive TieRule where
  /-- The neighbour with the even last digit. -/
  | toEven
  /-- The neighbour that is farther from zero. -/
  | awayFromZero
deriving DecidableEq

def TieRule.takesLower : TieRule → Nat → Bool
  | .toEven, lower => lower % 2 = 0
  | .awayFromZero, _ => false

namespace Binary64

def leadingExponent (num den : Nat) : Int :=
  if den ≤ num then
    (Nat.toDigits 10 (num / den)).length - 1
  else
    -(Nat.toDigits 10 ((den - 1) / num)).length

/--
The decimal number of `count` digits that lies nearest to a finite number other than zero and
reads back to its magnitude, if there is one.
-/
def nearestDigits? (x : Binary64) (tie : TieRule) (count : Nat) : Option (Nat × Int) :=
  let num := x.units
  let den := unitsPerOne
  let exponent := leadingExponent num den - count + 1
  let num := if exponent < 0 then num * tenTo exponent.natAbs else num
  let den := if exponent < 0 then den else den * tenTo exponent.toNat
  let lower := num / den
  let twice := 2 * (num % den)
  let neighbours :=
    if twice < den ∨ (twice = den ∧ tie.takesLower lower) then [lower, lower + 1]
    else [lower + 1, lower]
  (neighbours.find? fun digits => ofDecimal digits exponent = x.magnitude).map
    (·, exponent)

/-- Digits without trailing zeros; the zeros go into the exponent. -/
def withoutTrailingZeros (digits : List Char) (exponent : Int) : DecimalDigits :=
  let zeros := (digits.reverse.takeWhile (· = '0')).length
  ⟨digits.take (digits.length - zeros), exponent + zeros⟩

def shortestDigits (x : Binary64) (tie : TieRule) : DecimalDigits :=
  if x.significand = 0 then ⟨['0'], 0⟩
  else
    match (List.range 17).findSome? fun n => x.nearestDigits? tie (n + 1) with
    | some (digits, exponent) => withoutTrailingZeros (Nat.toDigits 10 digits) exponent
    | none => ⟨['0'], 0⟩

end Binary64

end EntityQuery
