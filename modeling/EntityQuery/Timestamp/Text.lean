import EntityQuery.Number.Power
import EntityQuery.Timestamp
import EntityQuery.Text.Blank
import EntityQuery.Text.Digits

/-!
# The text of points in time

Points in time are written as `YYYY-MM-DDTHH:MM:SSZ`, with three, six or nine decimals of the
second where they are needed.  They are read from any offset.  The reader is lenient: a number may
have fewer digits, blanks may stand before its parts, and the parts of the offset may be joined.
-/

namespace EntityQuery

namespace Date

/-- The text of a year: four digits, or a sign and at least four outside of 0 to 9999. -/
def yearText (year : Int) : List Char :=
  if 0 ≤ year ∧ year ≤ 9999 then Digits.padded 4 year.toNat
  else
    let digits := Nat.toDigits 10 year.natAbs
    (if year < 0 then '-' else '+') :: (List.replicate (4 - digits.length) '0' ++ digits)

def text (d : Date) : List Char :=
  yearText d.year ++ '-' :: Digits.padded 2 d.month ++ '-' :: Digits.padded 2 d.day

/-- Read a year: at most four digits, or a sign and any number of them. -/
def readYear? : List Char → Option (Int × List Char)
  | '-' :: rest => (Digits.read? rest).map fun (n, rest) => (-(n : Int), rest)
  | '+' :: rest => (Digits.read? rest).map fun (n, rest) => ((n : Int), rest)
  | text => (Digits.readAtMost? 4 text).map fun (n, rest) => ((n : Int), rest)

def readFront? (text : List Char) : Option (Date × List Char) := do
  let (year, text) ← readYear? (skipBlanks text)
  let text ← expect? '-' (skipBlanks text)
  let (month, text) ← Digits.readAtMost? 2 (skipBlanks text)
  let text ← expect? '-' (skipBlanks text)
  let (day, text) ← Digits.readAtMost? 2 (skipBlanks text)
  let date ← of? year month day
  return (date, text)

def read? (text : List Char) : Option Date :=
  match readFront? text with
  | some (date, rest) => if skipBlanks rest = [] then some date else none
  | none => none

end Date

namespace Timestamp

/-- The decimals of the second: none, three, six or nine, as few as are exact. -/
def fractionText (nano : Nat) : List Char :=
  if nano = 0 then []
  else if nano % 1000000 = 0 then '.' :: Digits.padded 3 (nano / 1000000)
  else if nano % 1000 = 0 then '.' :: Digits.padded 6 (nano / 1000)
  else '.' :: Digits.padded 9 nano

/-- The text of a point in time.  A leap second is the sixtieth of its minute. -/
def text (t : Timestamp) : List Char :=
  let second := t.second % 60 + t.nano / nanosPerSecond
  t.date.text ++ 'T' :: Digits.padded 2 (t.second / 3600) ++
    ':' :: Digits.padded 2 (t.second / 60 % 60) ++ ':' :: Digits.padded 2 second ++
    fractionText (t.nano % nanosPerSecond) ++ ['Z']

/-- Read the decimals of the second, of which nine count. -/
def readFraction? : List Char → Option (Nat × List Char)
  | '.' :: text =>
      match Digits.splitAtMost 9 text with
      | ([], _) => none
      | (digits, rest) =>
          some (Digits.value digits * tenTo (9 - digits.length), rest.dropWhile Char.isDigit)
  | text => some (0, text)

/-- Read a time of day as its second and nanoseconds.  Second 60 is a leap second. -/
def readTime? (text : List Char) : Option ((Nat × Nat) × List Char) := do
  let (hour, text) ← Digits.readAtMost? 2 (skipBlanks text)
  let text ← expect? ':' (skipBlanks text)
  let (minute, text) ← Digits.readAtMost? 2 (skipBlanks text)
  let text ← expect? ':' (skipBlanks text)
  let (second, text) ← Digits.readAtMost? 2 (skipBlanks text)
  let (nano, text) ← readFraction? text
  if hour < 24 ∧ minute < 60 ∧ second ≤ 60 then
    let inMinute := if second = 60 then 59 else second
    let leap := if second = 60 then nanosPerSecond else 0
    return ((hour * 3600 + minute * 60 + inMinute, nano + leap), text)
  else
    none

def readOffsetAmount? : List Char → Option (Nat × List Char)
  | a :: b :: text =>
      match text.dropWhile (fun c => c = ':' ∨ isBlank c) with
      | c :: d :: rest =>
          if a.isDigit ∧ b.isDigit ∧ c.isDigit ∧ d.isDigit ∧ c < '6' then
            let seconds := Digits.value [a, b] * 3600 + Digits.value [c, d] * 60
            if seconds < secondsPerDay then some (seconds, rest) else none
          else
            none
      | _ => none
  | _ => none

/-- Read an offset in seconds: `Z`, `UTC`, or a sign with hours and minutes. -/
def readOffset? : List Char → Option (Int × List Char)
  | '+' :: text => (readOffsetAmount? text).map fun (n, rest) => ((n : Int), rest)
  | '-' :: text => (readOffsetAmount? text).map fun (n, rest) => (-(n : Int), rest)
  | '\u2212' :: text => (readOffsetAmount? text).map fun (n, rest) => (-(n : Int), rest)
  | u :: t :: c :: text =>
      if u.toLower = 'z' then some (0, t :: c :: text)
      else if u.toLower = 'u' ∧ t.toLower = 't' ∧ c.toLower = 'c' then some (0, text)
      else none
  | z :: text => if z.toLower = 'z' then some (0, text) else none
  | [] => none

def read? (text : List Char) : Option Timestamp := do
  let (date, text) ← Date.readFront? text
  let text ← expect? 'T' text <|> expect? 't' text <|> expect? ' ' text
  let ((second, nano), text) ← readTime? text
  let (offset, text) ← readOffset? (skipBlanks text)
  if skipBlanks text = [] then atOffset? date second nano offset else none

end Timestamp

end EntityQuery
