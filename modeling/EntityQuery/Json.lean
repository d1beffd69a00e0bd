import EntityQuery.Binary64

/-!
# JSON values

JSON values as data.  Integers and floating point numbers are kept apart, because readers treat
`1` and `1.0` differently; a floating point number in JSON is finite.  The members of an object
keep their order.

The second half reads the shapes in which structures are stored.  A structure is an object with a
member for each field, or an array of its fields in order.  A choice among named cases is a string.
A choice with contents has two members, or two array items: the name of the case and its contents.
Every reader is an `Option` that is `none` when the value does not have the shape.
-/

namespace EntityQuery

inductive Json
  | null
  | bool (b : Bool)
  | int (n : Int)
  | float (x : FiniteBinary64)
  | string (s : String)
  | array (items : List Json)
  | object (members : List (String × Json))

namespace Json

mutual

/-- How many levels of arrays and objects a value has. -/
def height : Json → Nat
  | array items => heightOfItems items + 1
  | object members => heightOfMembers members + 1
  | _ => 0

def heightOfItems : List Json → Nat
  | [] => 0
  | item :: items => max item.height (heightOfItems items)

def heightOfMembers : List (String × Json) → Nat
  | [] => 0
  | (_, value) :: members => max value.height (heightOfMembers members)

end

def ofOption (write : α → Json) : Option α → Json
  | some a => write a
  | none => null

/-- The JSON value of a floating point number: `null` when it is not finite. -/
def ofBinary64 (x : Binary64) : Json := ofOption float x.finite?

def bool? : Json → Option Bool
  | bool b => some b
  | _ => none

def string? : Json → Option String
  | string s => some s
  | _ => none

def intBetween? (lower upper : Int) : Json → Option Int
  | int n => if lower ≤ n ∧ n ≤ upper then some n else none
  | _ => none

def int32? (j : Json) : Option Int32 :=
  (j.intBetween? (-2147483648) 2147483647).map Int32.ofInt

def int64? (j : Json) : Option Int64 :=
  (j.intBetween? (-9223372036854775808) 9223372036854775807).map Int64.ofInt

def uint32? (j : Json) : Option UInt32 :=
  (j.intBetween? 0 4294967295).map fun n => UInt32.ofNat n.toNat

/-- A finite number; an integer stands for the floating point number nearest to it. -/
def finite? : Json → Option FiniteBinary64
  | float x => some x
  | int n => (Binary64.ofInt n).finite?
  | _ => none

def items? : Json → Option (List Json)
  | array items => some items
  | _ => none

def listOf? (read? : Json → Option α) (j : Json) : Option (List α) := do
  (← j.items?).mapM read?

/-- A member that may be absent or `null`. -/
def optional? (read? : Json → Option α) : Option Json → Option (Option α)
  | none => some none
  | some null => some none
  | some j => (read? j).map some

/-- The fields of a structure, `none` for each that an object leaves out. -/
def fields? (names : List String) : Json → Option (List (Option Json))
  | object members => some (names.map (members.lookup ·))
  | array items => if items.length = names.length then some (items.map some) else none
  | _ => none

/-- Like `fields?`, where an array may also leave out fields at its end. -/
def leadingFields? (names : List String) : Json → Option (List (Option Json))
  | object members => some (names.map (members.lookup ·))
  | array items =>
      if items.length ≤ names.length then
        some (items.map some ++ List.replicate (names.length - items.length) none)
      else
        none
  | _ => none

/-- The name of a case without contents: a string, or an object whose one member is `null`. -/
def caseName? : Json → Option String
  | string s => some s
  | object [(name, null)] => some name
  | _ => none

def caseOf? (cases : List α) (name : α → String) (j : Json) : Option α := do
  let found ← j.caseName?
  cases.find? (name · = found)

/-- A case and its contents, which an object may leave out.  In an array the name is a string. -/
def tagged? (tag content : String) : Json → Option (String × Option Json)
  | object members => do
      return (← (← members.lookup tag).caseName?, members.lookup content)
  | array [name, value] => do return (← name.string?, some value)
  | _ => none

def ofTagged (tag content name : String) (value : Json) : Json :=
  object [(tag, string name), (content, value)]

end Json

end EntityQuery
