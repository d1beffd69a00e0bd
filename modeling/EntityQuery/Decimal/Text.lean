import EntityQuery.Decimal
import EntityQuery.Text.Digits

/-!
# The text of a decimal

A decimal is written with as many digits after the point as its scale says and at least one digit
before it.  It is read from an optional sign and digits with at most one point, where `_` may
separate digits; a text that is not of this form may still be one with a power of ten after `e`.
Digits beyond the greatest scale, and digits after the point that the coefficient has no room for,
round the number by the first of them, and a half goes away from zero.
-/

namespace EntityQuery.Decimal

def text (d : Decimal) : List Char :=
  let digits := Nat.toDigits 10 d.coefficient
  let digits := List.replicate (d.scale + 1 - digits.length) '0' ++ digits
  let whole := digits.length - d.scale
  (if d.negative then ['-'] else []) ++ digits.take whole ++
    if d.scale = 0 then [] else '.' :: digits.drop whole

structure Amount where
  coefficient : Nat
  scale : Nat

def digitValue (c : Char) : Nat := c.toNat - '0'.toNat

/--
Round an amount by the first digit that is dropped.  A coefficient that leaves the range gives up
its last digit.
-/
def Amount.roundBy? (amount : Amount) (digit : Nat) : Option Amount :=
  if digit < 5 then some amount
  else if amount.coefficient + 1 < coefficientLimit then
    some ⟨amount.coefficient + 1, amount.scale⟩
  else if amount.scale = 0 then none
  else some ⟨(amount.coefficient + 5) / 10, amount.scale - 1⟩

/--
Round an amount at the rest of its text, which has only digits and separators.  A separator in the
place of the first dropped digit counts as zero.
-/
def Amount.roundAt? (amount : Amount) : List Char → Option Amount
  | [] => some amount
  | c :: rest =>
      if (c :: rest).any fun d => ¬ d.isDigit ∧ d ≠ '_' then none
      else if c.isDigit then amount.roundBy? (digitValue c)
      else some amount

/-- A coefficient from here on may outgrow sixty-four bits with the next digit. -/
def wideCoefficient : Nat := 1844674407370954906

/--
Read digits with at most one point.  `pointed` says whether the point has been read and `started`
whether a digit has.  `wide` says whether the coefficient has been wide before its last digit; if
so, separators before the first dropped digit are passed over.
-/
def scan? (amount : Amount) (pointed started wide : Bool) : List Char → Option Amount
  | [] => if started then some amount else none
  | c :: rest =>
      if c.isDigit then
        let coefficient := 10 * amount.coefficient + digitValue c
        if coefficient < coefficientLimit then
          let longer : Amount := ⟨coefficient, if pointed then amount.scale + 1 else amount.scale⟩
          if pointed ∧ maxScale ≤ longer.scale then
            longer.roundAt? (if wide then rest.dropWhile (· = '_') else rest)
          else
            scan? longer pointed true (wide || wideCoefficient ≤ coefficient) rest
        else if pointed then amount.roundAt? (c :: rest)
        else none
      else if c = '.' ∧ ¬ pointed then scan? amount true started wide rest
      else if c = '_' ∧ started then scan? amount pointed started wide rest
      else none

/-- Read an unsigned decimal and give it a sign, unless it is zero. -/
def readSigned? (negative : Bool) (text : List Char) : Option Decimal := do
  let amount ← scan? ⟨0, 0⟩ false false false text
  of? (negative && amount.coefficient ≠ 0) amount.coefficient amount.scale

def readPlain? : List Char → Option Decimal
  | '-' :: rest => readSigned? true rest
  | '+' :: rest => readSigned? false rest
  | text => readSigned? false text

/-- Read an exponent that has no minus sign of its own but may have a plus sign. -/
def readExponent? (text : List Char) : Option Nat :=
  match Digits.read? (if text.head? = some '+' then text.tail else text) with
  | some (n, []) => some n
  | _ => none

/--
Scale a decimal up by a power of ten.  As far as the scale allows, only the point moves; beyond
that the number becomes whole.
-/
def scaleUp? (d : Decimal) (exponent : Nat) : Option Decimal :=
  if exponent ≤ d.scale then of? d.negative d.coefficient (d.scale - exponent)
  else if exponent ≤ maxScale then
    of? d.negative (d.coefficient * tenTo (exponent - d.scale)) 0
  else none

def dropDigits (n count : Nat) : Nat := (n + tenTo count / 2) / tenTo count

/--
Scale a decimal down by a power of ten.  As far as the scale allows, only the point moves; beyond
that the number is rounded.
-/
def scaleDown? (d : Decimal) (exponent : Nat) : Option Decimal :=
  let scale := d.scale + exponent
  if exponent ≤ maxScale then
    of? d.negative (dropDigits d.coefficient (scale - maxScale)) (min scale maxScale)
  else none

def readScientific? (text : List Char) : Option Decimal :=
  let isMark := fun c => c = 'e' ∨ c = 'E'
  match readPlain? (text.takeWhile (¬ isMark ·)), text.dropWhile (¬ isMark ·) with
  | some d, _ :: '-' :: exponent => do d.scaleDown? (← readExponent? exponent)
  | some d, _ :: exponent => do d.scaleUp? (← readExponent? exponent)
  | _, _ => none

def read? (text : List Char) : Option Decimal :=
  readPlain? text <|> readScientific? text

end EntityQuery.Decimal
