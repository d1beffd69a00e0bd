import EntityQuery.Binary64.Scaled
import EntityQuery.Json
import EntityQuery.Text.Digits
import EntityQuery.Text.Hex

/-!
# Reading JSON text

The reader takes the standard grammar with these rules.  A number without fraction and exponent
that fits 64 bits is an integer, and `-0` is the negative zero.  Every other number is read by
scaling the leading digits that fit 64 bits, and must be finite.  The members of an object are
sorted by name, and of two members of one name the later counts.  Arrays and objects nest less than
128 deep.
-/

namespace EntityQuery.Json

def isSpace (c : Char) : Bool := c = ' ' || c = '\n' || c = '\t' || c = '\r'

def skipSpaces (text : List Char) : List Char := text.dropWhile isSpace

def expectAll? : List Char → List Char → Option (List Char)
  | [], text => some text
  | c :: expected, d :: text => if d = c then expectAll? expected text else none
  | _ :: _, [] => none

def readUnit? : List Char → Option (Nat × List Char)
  | a :: b :: c :: d :: rest => do
      return (Hex.value [← Hex.digit? a, ← Hex.digit? b, ← Hex.digit? c, ← Hex.digit? d], rest)
  | _ => none

/--
Read the character after `\u`.  A character beyond sixteen bits is given by two units, and half of
such a pair does not stand alone.
-/
def readCodePoint? (text : List Char) : Option (Char × List Char) := do
  let (unit, text) ← readUnit? text
  if 0xD800 ≤ unit ∧ unit < 0xDC00 then
    let (low, text) ← readUnit? (← expectAll? ['\\', 'u'] text)
    if 0xDC00 ≤ low ∧ low < 0xE000 then
      return (Char.ofNat (0x10000 + (unit - 0xD800) * 0x400 + (low - 0xDC00)), text)
    else
      none
  else if 0xDC00 ≤ unit ∧ unit < 0xE000 then none
  else return (Char.ofNat unit, text)

def readEscape? : List Char → Option (Char × List Char)
  | '"' :: rest => some ('"', rest)
  | '\\' :: rest => some ('\\', rest)
  | '/' :: rest => some ('/', rest)
  | 'b' :: rest => some ('\x08', rest)
  | 'f' :: rest => some ('\x0c', rest)
  | 'n' :: rest => some ('\n', rest)
  | 'r' :: rest => some ('\r', rest)
  | 't' :: rest => some ('\t', rest)
  | 'u' :: rest => readCodePoint? rest
  | _ => none

/-- Read the rest of a string after its opening quote; `fuel` bounds its length. -/
def readCharacters? : Nat → List Char → List Char → Option (String × List Char)
  | 0, _, _ => none
  | _ + 1, _, [] => none
  | fuel + 1, read, c :: rest =>
      if c = '"' then some (String.ofList read.reverse, rest)
      else if c = '\\' then
        match readEscape? rest with
        | some (d, rest) => readCharacters? fuel (d :: read) rest
        | none => none
      else if c.toNat < 32 then none
      else readCharacters? fuel (c :: read) rest

def readString? (text : List Char) : Option (String × List Char) :=
  readCharacters? (text.length + 1) [] text

/-- Read the digits before the point: a zero stands alone. -/
def readWhole? : List Char → Option (List Char × List Char)
  | '0' :: rest => some (['0'], rest)
  | text =>
      match text.span Char.isDigit with
      | ([], _) => none
      | (digits, rest) => some (digits, rest)

def readFraction? : List Char → Option (List Char × List Char)
  | '.' :: rest =>
      match rest.span Char.isDigit with
      | ([], _) => none
      | (digits, rest) => some (digits, rest)
  | text => some ([], text)

def readSignedExponent? : List Char → Option (Int × List Char)
  | '-' :: rest => (Digits.read? rest).map fun (n, rest) => (-(n : Int), rest)
  | '+' :: rest => (Digits.read? rest).map fun (n, rest) => ((n : Int), rest)
  | text => (Digits.read? text).map fun (n, rest) => ((n : Int), rest)

def readExponent? : List Char → Option (Option Int × List Char)
  | 'e' :: rest => (readSignedExponent? rest).map fun (n, rest) => (some n, rest)
  | 'E' :: rest => (readSignedExponent? rest).map fun (n, rest) => (some n, rest)
  | text => some (none, text)

/--
Append digits to a number as long as it fits 64 bits.  The result is that number and how many
digits were left out; after the first of them no other is appended.
-/
def appendDigits (n : Nat) : List Char → Nat × Nat
  | [] => (n, 0)
  | c :: digits =>
      let longer := 10 * n + (c.toNat - '0'.toNat)
      if longer < 0x10000000000000000 then appendDigits longer digits else (n, digits.length + 1)

def inexact? (negative : Bool) (digits : Nat) (exponent : Int) : Option Json :=
  let magnitude := Binary64.scaled digits exponent
  (if negative then magnitude.negative else magnitude).finite?.map float

def number? (negative : Bool) (whole fraction : List Char) (exponent : Option Int) :
    Option Json :=
  match appendDigits 0 whole, fraction, exponent with
  | (n, 0), [], none =>
      if negative then
        if n = 0 ∨ 0x8000000000000000 < n then inexact? true n 0 else some (int (-n))
      else
        some (int n)
  | (n, omitted), fraction, exponent =>
      let (digits, unread) := appendDigits n fraction
      inexact? negative digits (exponent.getD 0 + omitted - (fraction.length - unread : Nat))

def readNumber? (text : List Char) : Option (Json × List Char) := do
  let negative := text.head? = some '-'
  let (whole, text) ← readWhole? (if negative then text.tail else text)
  let (fraction, text) ← readFraction? text
  let (exponent, text) ← readExponent? text
  return (← number? negative whole fraction exponent, text)

/-- Put a member in its place among sorted members, instead of one of the same name. -/
def insertSorted (name : String) (value : Json) : List (String × Json) → List (String × Json)
  | [] => [(name, value)]
  | (other, old) :: members =>
      if name < other then (name, value) :: (other, old) :: members
      else if name = other then (name, value) :: members
      else (other, old) :: insertSorted name value members

mutual

/-- Read a value.  `depth` is how deep arrays and objects may nest, `fuel` bounds the length. -/
def readValue? : Nat → Nat → List Char → Option (Json × List Char)
  | 0, _, _ => none
  | fuel + 1, depth, text =>
      match skipSpaces text with
      | '"' :: rest => (readString? rest).map fun (s, rest) => (string s, rest)
      | '[' :: rest =>
          if depth = 0 then none
          else
            match skipSpaces rest with
            | ']' :: rest => some (array [], rest)
            | rest => (readItems? fuel (depth - 1) [] rest).map fun (items, rest) =>
                (array items, rest)
      | '\x7b' :: rest =>
          if depth = 0 then none
          else
            match skipSpaces rest with
            | '\x7d' :: rest => some (object [], rest)
            | rest => (readMembers? fuel (depth - 1) [] rest).map fun (members, rest) =>
                (object members, rest)
      | 't' :: rest => (expectAll? ['r', 'u', 'e'] rest).map (bool true, ·)
      | 'f' :: rest => (expectAll? ['a', 'l', 's', 'e'] rest).map (bool false, ·)
      | 'n' :: rest => (expectAll? ['u', 'l', 'l'] rest).map (null, ·)
      | text => readNumber? text

/-- Read the items of an array, of which those in `read` come first in reverse. -/
def readItems? : Nat → Nat → List Json → List Char → Option (List Json × List Char)
  | 0, _, _, _ => none
  | fuel + 1, depth, read, text =>
      match readValue? fuel depth text with
      | none => none
      | some (item, rest) =>
          match skipSpaces rest with
          | ',' :: rest => readItems? fuel depth (item :: read) rest
          | ']' :: rest => some ((item :: read).reverse, rest)
          | _ => none

/-- Read the members of an object into those already read. -/
def readMembers? : Nat → Nat → List (String × Json) → List Char →
    Option (List (String × Json) × List Char)
  | 0, _, _, _ => none
  | fuel + 1, depth, read, text =>
      match skipSpaces text with
      | '"' :: rest =>
          match readString? rest with
          | none => none
          | some (name, rest) =>
              match skipSpaces rest with
              | ':' :: rest =>
                  match readValue? fuel depth rest with
                  | none => none
                  | some (value, rest) =>
                      match skipSpaces rest with
                      | ',' :: rest => readMembers? fuel depth (insertSorted name value read) rest
                      | '\x7d' :: rest => some (insertSorted name value read, rest)
                      | _ => none
              | _ => none
      | _ => none

end

def depthLimit : Nat := 127

def read? (text : String) : Option Json :=
  let chars := text.toList
  match readValue? (chars.length + 1) depthLimit chars with
  | some (j, rest) => if skipSpaces rest = [] then some j else none
  | none => none

end EntityQuery.Json
