import EntityQuery.Value

/-!
# Attribute values

What a record holds under a name: a scalar, a pointer to another record, the code of an option, an
amount of money, or the value of a joined entity's attribute.
-/

namespace EntityQuery

structure EntityReference where
  logicalName : String
  id : Uuid
  name : Option String
deriving DecidableEq

inductive AttributeValue
  | scalar (value : Value)
  | reference (target : EntityReference)
  | optionSet (code : Int32)
  | money (amount : Decimal)
  /-- The value of an attribute of a joined entity. -/
  | aliased (entity attr : String) (value : AttributeValue)
deriving DecidableEq

namespace EntityReference

def toJson (r : EntityReference) : Json :=
  .object [("logical_name", .string r.logicalName), ("id", r.id.toJson),
    ("name", .ofOption .string r.name)]

def ofJson? (j : Json) : Option EntityReference := do
  match ← j.fields? ["logical_name", "id", "name"] with
  | [some logicalName, some id, name] =>
      return ⟨← logicalName.string?, ← Uuid.ofJson? id, ← Json.optional? Json.string? name⟩
  | _ => none

end EntityReference

namespace AttributeValue

def same : AttributeValue → AttributeValue → Bool
  | scalar a, scalar b => a == b
  | reference a, reference b => a = b
  | optionSet a, optionSet b => a = b
  | money a, money b => a == b
  | aliased entity attr a, aliased entity' attr' b => entity = entity' && attr = attr' && same a b
  | _, _ => false

instance : BEq AttributeValue := ⟨same⟩

/-- The value without the entities and attributes that it came through. -/
def unaliased : AttributeValue → AttributeValue
  | aliased _ _ value => value.unaliased
  | value => value

def toJson (floats : FloatStyle := .number) : AttributeValue → Json
  | scalar value => .ofTagged "kind" "value" "scalar" (value.toJson floats)
  | reference target => .ofTagged "kind" "value" "reference" target.toJson
  | optionSet code => .ofTagged "kind" "value" "option_set" (.int code.toInt)
  | money amount => .ofTagged "kind" "value" "money" amount.toJson
  | aliased entity attr value =>
      .ofTagged "kind" "value" "aliased"
        (.object [("entity", .string entity), ("attribute", .string attr),
          ("value", toJson floats value)])

/-- The attribute value of a JSON value, as long as aliases nest less than `depth` deep. -/
def ofJsonWithin? : Nat → Json → Option AttributeValue
  | 0, _ => none
  | depth + 1, j => do
      match ← j.tagged? "kind" "value" with
      | ("scalar", some content) => (Value.ofJson? content).map scalar
      | ("reference", some content) => (EntityReference.ofJson? content).map reference
      | ("option_set", some content) => content.int32?.map optionSet
      | ("money", some content) => (Decimal.ofJson? content).map money
      | ("aliased", some content) =>
          match ← content.fields? ["entity", "attribute", "value"] with
          | [some entity, some attr, some value] =>
              return aliased (← entity.string?) (← attr.string?) (← ofJsonWithin? depth value)
          | _ => none
      | _ => none

def ofJson? (j : Json) : Option AttributeValue := ofJsonWithin? j.height j

end AttributeValue

instance : Coe Value AttributeValue := ⟨.scalar⟩

end EntityQuery
