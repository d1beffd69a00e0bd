import EntityQuery.Record.Attribute

/-!
# Typed readings of attribute values

The types in which an attribute value can be read.  Every reading looks through aliases.
-/

namespace EntityQuery

/-- A type in which attribute values are read. -/
inductive Reading
  | bool
  | int32
  | int64
  | float64
  | dateTime
  | string
  | decimal
  | uuid
  | reference
  | anyValue
deriving DecidableEq

namespace Reading

def all : List Reading :=
  [bool, int32, int64, float64, dateTime, string, decimal, uuid, reference, anyValue]

abbrev Result : Reading → Type
  | bool => Bool
  | int32 => Int32
  | int64 => Int64
  | float64 => Binary64
  | dateTime => Timestamp
  | string => String
  | decimal => Decimal
  | uuid => Uuid
  | reference => EntityReference
  | anyValue => AttributeValue

def expected : Reading → String
  | bool => "bool"
  | int32 => "int32"
  | int64 => "int64"
  | float64 => "float64"
  | dateTime => "datetime"
  | string => "string"
  | decimal => "decimal"
  | uuid => "reference"
  | reference => "entity reference"
  | anyValue => "attribute"

/-- Read a value that is not aliased. -/
def readPlain? : (r : Reading) → AttributeValue → Option r.Result
  | bool, .scalar v => v.bool?
  | int32, .scalar v => v.int32?
  | int64, .scalar v => v.int64?
  | float64, .scalar v => v.float64?
  | dateTime, .scalar v => v.dateTime?
  | string, .scalar v => v.string?
  | decimal, .scalar v => v.decimal?
  | decimal, .money amount => some amount
  | uuid, .scalar v => v.reference?
  | uuid, .reference target => some target.id
  | reference, .reference target => some target
  | anyValue, value => some value
  | _, _ => none

/-- Read an attribute value; `none` when it holds another kind. -/
def read? (r : Reading) (value : AttributeValue) : Option r.Result := r.readPlain? value.unaliased

end Reading

end EntityQuery
