import EntityQuery.Text.Hex

/-!
# Universally unique identifiers

An identifier is thirty-two hexadecimal digits.  It is written in lower case in groups of 8, 4, 4,
4 and 12 digits.  It is read in either case, as written or without hyphens; the hyphenated form
may stand in braces or after `urn:uuid:`, again in either case.
-/

namespace EntityQuery

/-- An identifier of 128 bits, by its hexadecimal digits. -/
structure Uuid where
  digits : List (Fin 16)
  length_eq : digits.length = 32
deriving DecidableEq

namespace Uuid

def nil : Uuid := ⟨List.replicate 32 Hex.zero, List.length_replicate⟩

def ofDigits? (digits : List (Fin 16)) : Option Uuid :=
  if h : digits.length = 32 then some ⟨digits, h⟩ else none

def text (id : Uuid) : List Char :=
  let digits := id.digits.map Hex.digitChar
  digits.take 8 ++ '-' :: (digits.drop 8).take 4 ++ '-' :: (digits.drop 12).take 4 ++
    '-' :: (digits.drop 16).take 4 ++ '-' :: digits.drop 20

def readSimple? (text : List Char) : Option Uuid := do
  ofDigits? (← text.mapM Hex.digit?)

/-- Read a text of thirty-six characters with hyphens after the 8th, 12th, 16th and 20th digit. -/
def readHyphenated? (text : List Char) : Option Uuid :=
  match text.take 8, text.drop 8 with
  | a, '-' :: b =>
      match b.take 4, b.drop 4 with
      | b, '-' :: c =>
          match c.take 4, c.drop 4 with
          | c, '-' :: d =>
              match d.take 4, d.drop 4 with
              | d, '-' :: e => readSimple? (a ++ b ++ c ++ d ++ e)
              | _, _ => none
          | _, _ => none
      | _, _ => none
  | _, _ => none

/-- What may stand before the hyphenated form, in either case. -/
def urnScheme : List Char := ['u', 'r', 'n', ':', 'u', 'u', 'i', 'd', ':']

def read? (text : List Char) : Option Uuid :=
  if text.length = 32 then readSimple? text
  else if (text.take 9).map Char.toLower = urnScheme then readHyphenated? (text.drop 9)
  else if text.head? = some '\x7b' ∧ text.getLast? = some '\x7d' then
    readHyphenated? text.tail.dropLast
  else readHyphenated? text

end Uuid

end EntityQuery
