/-!
# Hexadecimal digits

A digit is a number below sixteen.  Digits are written in lower case and read in either case.
-/

namespace EntityQuery.Hex

def zero : Fin 16 := ⟨0, Nat.zero_lt_succ 15⟩

def digitChar (d : Fin 16) : Char := Nat.digitChar d.val

def digit? (c : Char) : Option (Fin 16) :=
  if '0' ≤ c ∧ c ≤ '9' then some (Fin.ofNat 16 (c.toNat - '0'.toNat))
  else if 'a' ≤ c ∧ c ≤ 'f' then some (Fin.ofNat 16 (c.toNat - 'a'.toNat + 10))
  else if 'A' ≤ c ∧ c ≤ 'F' then some (Fin.ofNat 16 (c.toNat - 'A'.toNat + 10))
  else none

def value (digits : List (Fin 16)) : Nat := digits.foldl (fun acc d => 16 * acc + d.val) 0

/-- The lowest `width` hexadecimal digits of a number, leading zeros included. -/
def padded : Nat → Nat → List (Fin 16)
  | 0, _ => []
  | width + 1, n => padded width (n / 16) ++ [Fin.ofNat 16 n]

theorem digit?_digitChar (d : Fin 16) : digit? (digitChar d) = some d := by
  revert d
  decide

end EntityQuery.Hex
