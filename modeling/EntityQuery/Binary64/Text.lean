import EntityQuery.Binary64.Shortest
import EntityQuery.Text.Hex

/-!
# The text of a floating point number

Three written forms.  The compact form is that of numbers in JSON text: the shortest digits, with
a fraction always written, and positional from `1e-5` up to below `1e16`.  The positional form
never has an exponent, and of two equally near digits it takes the upper ones where the compact
form takes the even ones.  The bit form is the bit pattern in sixteen hexadecimal digits.
-/

namespace EntityQuery

structure CompactLayout where
  /-- The most digits before the point. -/
  wholeDigits : Int
  /-- The most zeros between the point and the first digit. -/
  leadingZeros : Int

/-- Numbers in JSON text have up to sixteen digits before the point and four zeros after it. -/
def CompactLayout.json : CompactLayout := ⟨16, 4⟩

namespace Binary64

def signText (x : Binary64) : List Char := if x.isNegative then ['-'] else []

/-- Digits with a point after the first `whole` of them, padded with zeros on either side. -/
def placePoint (digits : List Char) (whole : Int) : List Char :=
  if whole ≤ 0 then
    '0' :: '.' :: (List.replicate (-whole).toNat '0' ++ digits)
  else if whole < digits.length then
    digits.take whole.toNat ++ '.' :: digits.drop whole.toNat
  else
    digits ++ List.replicate (whole - digits.length).toNat '0'

/-- An exponent in decimal digits, always with a sign. -/
def exponentText (n : Int) : List Char :=
  (if n < 0 then '-' else '+') :: Nat.toDigits 10 n.natAbs

def compactText (x : Binary64) (layout : CompactLayout := .json) : List Char :=
  let ⟨digits, exponent⟩ := x.shortestDigits .toEven
  let whole := digits.length + exponent
  x.signText ++
    if x.significand = 0 then
      ['0', '.', '0']
    else if 0 ≤ exponent ∧ whole ≤ layout.wholeDigits then
      placePoint digits whole ++ ['.', '0']
    else if -layout.leadingZeros ≤ whole ∧ whole ≤ layout.wholeDigits then
      placePoint digits whole
    else
      match digits with
      | [d] => d :: 'e' :: exponentText (whole - 1)
      | ds => placePoint ds 1 ++ 'e' :: exponentText (whole - 1)

/-- The positional form of a finite number: a whole number has no point. -/
def positionalText (x : Binary64) : List Char :=
  let ⟨digits, exponent⟩ := x.shortestDigits .awayFromZero
  x.signText ++ if x.significand = 0 then ['0'] else placePoint digits (digits.length + exponent)

def bitText (x : Binary64) : String :=
  String.ofList ((Hex.padded 16 x.bits.toNat).map Hex.digitChar)

def ofBitText? (text : String) : Option Binary64 := do
  let digits ← text.toList.mapM Hex.digit?
  if digits.length = 16 then some ⟨UInt64.ofNat (Hex.value digits)⟩ else none

end Binary64

end EntityQuery
