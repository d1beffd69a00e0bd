/-!
# Powers of two and of ten

The two families of powers that number formats are made of.
-/

namespace EntityQuery

def twoTo (n : Nat) : Nat := Nat.pow 2 n

def tenTo (n : Nat) : Nat := Nat.pow 10 n

theorem tenTo_pos (n : Nat) : 0 < tenTo n := Nat.pow_pos (by decide)

end EntityQuery
