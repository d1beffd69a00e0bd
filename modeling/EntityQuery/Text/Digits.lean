/-!
# Runs of decimal digits

Numbers are written either plainly, with `Nat.toDigits 10`, or padded to a fixed width, and are
read from the front of a text.  A text is a list of characters, and every reader answers the
rest of the text beside the value that it read.
-/

namespace EntityQuery.Digits

/-- The lowest `width` decimal digits of a number, leading zeros included. -/
def padded : Nat → Nat → List Char
  | 0, _ => []
  | width + 1, n => padded width (n / 10) ++ [Nat.digitChar (n % 10)]

/-- Split off the leading digits of a text, at most `limit` of them. -/
def splitAtMost : Nat → List Char → List Char × List Char
  | 0, text => ([], text)
  | _ + 1, [] => ([], [])
  | limit + 1, c :: text =>
      if c.isDigit then
        ((c :: (splitAtMost limit text).1), (splitAtMost limit text).2)
      else
        ([], c :: text)

def value (digits : List Char) : Nat := Nat.ofDigitChars 10 digits 0

/-- Read a number of at least one and at most `limit` digits. -/
def readAtMost? (limit : Nat) (text : List Char) : Option (Nat × List Char) :=
  match splitAtMost limit text with
  | ([], _) => none
  | (digits, rest) => some (value digits, rest)

def read? (text : List Char) : Option (Nat × List Char) :=
  readAtMost? text.length text

theorem length_padded (width n : Nat) : (padded width n).length = width := by
  induction width generalizing n with
  | zero => rfl
  | succ width ih => simp [padded, ih]

end EntityQuery.Digits
