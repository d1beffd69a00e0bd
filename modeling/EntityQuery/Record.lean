import EntityQuery.Record.Reading
import EntityQuery.Table

/-!
# Records

A record is a row of a result: the attributes of an entity by name, and the display texts of some
of them.  An attribute of a joined entity has the name `alias.attribute`.
-/

namespace EntityQuery

/-- A row of a result. -/
structure Record where
  logicalName : String
  id : Uuid
  attributes : Table AttributeValue
  formatted : Table String
deriving DecidableEq, BEq

inductive ReadError
  | missingAttribute (attr logicalName : String) (id : Uuid)
  | typeMismatch (attr expected : String)
deriving DecidableEq

def ReadError.message : ReadError → String
  | missingAttribute attr logicalName id =>
      "no attribute named " ++ attr ++ " was present on record " ++ String.ofList id.text ++
        " (" ++ logicalName ++ ")"
  | typeMismatch attr expected => "attribute " ++ attr ++ " is not a " ++ expected

namespace Record

def new (logicalName : String) (id : Uuid) : Record := ⟨logicalName, id, .empty, .empty⟩

def default : Record := new "" .nil

def withAttribute (record : Record) (name : String) (value : AttributeValue) : Record :=
  { record with attributes := record.attributes.insert name value }

def aliasedName (aliasName attr : String) : String := aliasName ++ "." ++ attr

def withAliased (record : Record) (aliasName entity attr : String) (value : AttributeValue) :
    Record :=
  record.withAttribute (aliasedName aliasName attr) (.aliased entity attr value)

def withFormatted (record : Record) (name text : String) : Record :=
  { record with formatted := record.formatted.insert name text }

def cleared (record : Record) : Record := new record.logicalName record.id

def contains (record : Record) (name : String) : Bool := record.attributes.contains name

def attribute? (record : Record) (name : String) : Option AttributeValue :=
  record.attributes.get? name

/-- Read an attribute that may be absent or of another kind. -/
def get? (record : Record) (r : Reading) (name : String) : Option r.Result :=
  (record.attribute? name).bind r.read?

/-- Read an attribute that has to be there. -/
def require (record : Record) (r : Reading) (name : String) : Except ReadError r.Result :=
  match record.attribute? name with
  | none => .error (.missingAttribute name record.logicalName record.id)
  | some value =>
      match r.read? value with
      | none => .error (.typeMismatch name r.expected)
      | some result => .ok result

def getAliased? (record : Record) (r : Reading) (aliasName attr : String) : Option r.Result :=
  record.get? r (aliasedName aliasName attr)

def money? (record : Record) (name : String) : Option Decimal := do
  match (← record.attribute? name).unaliased with
  | .money amount => some amount
  | _ => none

def optionCode? (record : Record) (name : String) : Option Int32 := do
  match (← record.attribute? name).unaliased with
  | .optionSet code => some code
  | _ => none

def formatted? (record : Record) (name : String) : Option String := record.formatted.get? name

def toJson (record : Record) : Json :=
  .object [("logical_name", .string record.logicalName), ("id", record.id.toJson),
    ("attributes",
      .object (record.attributes.entries.map fun (name, value) => (name, value.toJson))),
    ("formatted_values",
      .object (record.formatted.entries.map fun (name, text) => (name, .string text)))]

def tableOfJson? (read? : Json → Option α) : Json → Option (Table α)
  | .object members => do
      return .ofList (← members.mapM fun (name, value) => (read? value).map (name, ·))
  | _ => none

def ofJson? (j : Json) : Option Record := do
  match ← j.fields? ["logical_name", "id", "attributes", "formatted_values"] with
  | [some logicalName, some id, some attributes, some formatted] =>
      return ⟨← logicalName.string?, ← Uuid.ofJson? id,
        ← tableOfJson? AttributeValue.ofJson? attributes, ← tableOfJson? Json.string? formatted⟩
  | _ => none

end Record

end EntityQuery
