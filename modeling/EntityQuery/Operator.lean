import EntityQuery.Json

/-!
# Comparison operators

The operators of conditions, and how many values each of them takes.
-/

namespace EntityQuery

inductive Arity
  | zero
  | one
  | many
deriving DecidableEq

namespace Arity

def accepts : Arity → Nat → Bool
  | zero, count => count = 0
  | one, count => count = 1
  | many, _ => true

def name : Arity → String
  | zero => "zero"
  | one => "one"
  | many => "many"

/-- The arity in the words of a message. -/
def phrase : Arity → String
  | zero => "no values"
  | one => "exactly one value"
  | many => "a list of values"

end Arity

inductive Operator
  | equal
  | notEqual
  | greaterThan
  | greaterEqual
  | lessThan
  | lessEqual
  | like
  | isIn
  | notIn
  | null
  | notNull
  | today
  | yesterday
deriving DecidableEq

namespace Operator

def all : List Operator :=
  [equal, notEqual, greaterThan, greaterEqual, lessThan, lessEqual, like, isIn, notIn, null,
    notNull, today, yesterday]

def arity : Operator → Arity
  | null | notNull | today | yesterday => .zero
  | equal | notEqual | greaterThan | greaterEqual | lessThan | lessEqual | like => .one
  | isIn | notIn => .many

def name : Operator → String
  | equal => "equal"
  | notEqual => "not_equal"
  | greaterThan => "greater_than"
  | greaterEqual => "greater_equal"
  | lessThan => "less_than"
  | lessEqual => "less_equal"
  | like => "like"
  | isIn => "in"
  | notIn => "not_in"
  | null => "null"
  | notNull => "not_null"
  | today => "today"
  | yesterday => "yesterday"

def label (op : Operator) : String := op.name.toUpper

def toJson (op : Operator) : Json := .string op.name

def ofJson? (j : Json) : Option Operator := j.caseOf? all name

theorem ofJson?_toJson (op : Operator) : ofJson? op.toJson = some op := by
  cases op <;> decide

end Operator

end EntityQuery
