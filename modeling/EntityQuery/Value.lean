import EntityQuery.Binary64.Text
import EntityQuery.Decimal.Text
import EntityQuery.Json
import EntityQuery.Timestamp.Text
import EntityQuery.Uuid

/-!
# Scalar values

The values that a condition compares an attribute with.  `==` on values tells their kinds apart,
takes decimals by amount and everything else as it is; in particular floating point numbers are
compared by their bits.
-/

namespace EntityQuery

inductive Value
  | bool (b : Bool)
  | int32 (n : Int32)
  | int64 (n : Int64)
  | float64 (x : Binary64)
  | decimal (d : Decimal)
  | string (s : String)
  | dateTime (t : Timestamp)
  | reference (id : Uuid)
deriving DecidableEq

inductive FloatStyle
  /-- A number, which is `null` when it is not finite. -/
  | number
  /-- A string of hexadecimal digits, which keeps every bit. -/
  | bits
deriving DecidableEq

def FloatStyle.toJson : FloatStyle → Binary64 → Json
  | number, x => .ofBinary64 x
  | bits, x => .string x.bitText

namespace Decimal

def toJson (d : Decimal) : Json := .string (String.ofList d.text)

/-- The decimal of a text or of a number. -/
def ofJson? : Json → Option Decimal
  | .string s => read? s.toList
  | .int n => ofInt? n
  | .float x => readPlain? x.positionalText
  | _ => none

end Decimal

namespace Timestamp

def toJson (t : Timestamp) : Json := .string (String.ofList t.text)

def ofJson? (j : Json) : Option Timestamp := do read? (← j.string?).toList

end Timestamp

namespace Uuid

def toJson (id : Uuid) : Json := .string (String.ofList id.text)

def ofJson? (j : Json) : Option Uuid := do read? (← j.string?).toList

end Uuid

namespace Value

def same : Value → Value → Bool
  | bool a, bool b => a = b
  | int32 a, int32 b => a = b
  | int64 a, int64 b => a = b
  | float64 a, float64 b => a = b
  | decimal a, decimal b => a == b
  | string a, string b => a = b
  | dateTime a, dateTime b => a = b
  | reference a, reference b => a = b
  | _, _ => false

instance : BEq Value := ⟨same⟩

/-- The name of the kind of a value in messages. -/
def kind : Value → String
  | bool _ => "bool"
  | int32 _ => "int32"
  | int64 _ => "int64"
  | float64 _ => "float64"
  | decimal _ => "decimal"
  | string _ => "string"
  | dateTime _ => "datetime"
  | reference _ => "reference"

def bool? : Value → Option Bool
  | bool b => some b
  | _ => none

def int32? : Value → Option Int32
  | int32 n => some n
  | _ => none

/-- An integer of 64 bits, or one of 32 bits widened. -/
def int64? : Value → Option Int64
  | int64 n => some n
  | int32 n => some n.toInt64
  | _ => none

/-- A floating point number, or an integer of 32 bits as one. -/
def float64? : Value → Option Binary64
  | float64 x => some x
  | int32 n => some (.ofInt n.toInt)
  | _ => none

/-- A decimal, or an integer as one. -/
def decimal? : Value → Option Decimal
  | decimal d => some d
  | int32 n => some (.ofInt32 n)
  | int64 n => some (.ofInt64 n)
  | _ => none

def string? : Value → Option String
  | string s => some s
  | _ => none

def dateTime? : Value → Option Timestamp
  | dateTime t => some t
  | _ => none

def reference? : Value → Option Uuid
  | reference id => some id
  | _ => none

/-- The name of the case of a value in data. -/
def typeName : Value → String
  | dateTime _ => "date_time"
  | value => value.kind

def contentJson (floats : FloatStyle) : Value → Json
  | bool b => .bool b
  | int32 n => .int n.toInt
  | int64 n => .int n.toInt
  | float64 x => floats.toJson x
  | decimal d => d.toJson
  | string s => .string s
  | dateTime t => t.toJson
  | reference id => id.toJson

def toJson (value : Value) (floats : FloatStyle := .number) : Json :=
  .ofTagged "type" "value" value.typeName (value.contentJson floats)

def ofContent? (type : String) (content : Json) : Option Value :=
  match type with
  | "bool" => content.bool?.map bool
  | "int32" => content.int32?.map int32
  | "int64" => content.int64?.map int64
  | "float64" => content.finite?.map (float64 ·.toBinary64)
  | "decimal" => (Decimal.ofJson? content).map decimal
  | "string" => content.string?.map string
  | "date_time" => (Timestamp.ofJson? content).map dateTime
  | "reference" => (Uuid.ofJson? content).map reference
  | _ => none

def ofJson? (j : Json) : Option Value := do
  match ← j.tagged? "type" "value" with
  | (type, some content) => ofContent? type content
  | (_, none) => none

end Value

/-- Types whose elements stand for scalar values. -/
class ToValue (τ : Type) where
  toValue : τ → Value

export ToValue (toValue)

instance : ToValue Value := ⟨id⟩
instance : ToValue Bool := ⟨.bool⟩
instance : ToValue Int32 := ⟨.int32⟩
instance : ToValue Int64 := ⟨.int64⟩
instance : ToValue Binary64 := ⟨.float64⟩
instance : ToValue Decimal := ⟨.decimal⟩
instance : ToValue String := ⟨.string⟩
instance : ToValue Timestamp := ⟨.dateTime⟩
instance : ToValue Uuid := ⟨.reference⟩

/-- A date stands for its beginning. -/
instance : ToValue Date := ⟨fun date => .dateTime (.ofDate date)⟩

end EntityQuery
