import EntityQuery.Plan.Filter

/-!
# Joins

A join adds the rows of another entity to those of a local one, by equality of two key
attributes.  Joins nest: those nested in a join start from the entity that it adds.
-/

namespace EntityQuery

inductive Projection
  | all
  | only (names : List String)
deriving DecidableEq

/-- What becomes of rows without a partner. -/
inductive JoinKind
  | inner
  | leftOuter
deriving DecidableEq

structure Join where
  localEntity : String
  localAttribute : String
  remoteEntity : String
  remoteAttribute : String
  aliasName : Option String
  kind : JoinKind
  columns : Projection
  filter : Filter
  nested : List Join

namespace Projection

def isAll : Projection → Bool
  | all => true
  | only _ => false

/-- The attributes that are asked for by name. -/
def names? : Projection → Option (List String)
  | all => none
  | only names => some names

def toJson : Projection → Json
  | all => .object [("mode", .string "all_columns")]
  | only names => .ofTagged "mode" "columns" "explicit_set" (.array (names.map .string))

def ofJson? (j : Json) : Option Projection := do
  match ← j.tagged? "mode" "columns" with
  | ("all_columns", none) => some all
  | ("all_columns", some .null) => some all
  | ("explicit_set", some columns) => return only (← columns.listOf? Json.string?)
  | _ => none

end Projection

namespace JoinKind

def name : JoinKind → String
  | inner => "inner"
  | leftOuter => "left_outer"

def toJson (kind : JoinKind) : Json := .string kind.name

def ofJson? (j : Json) : Option JoinKind := j.caseOf? [inner, leftOuter] name

end JoinKind

namespace Join

mutual

def same : Join → Join → Bool
  | ⟨localEntity, localAttribute, remoteEntity, remoteAttribute, aliasName, kind, columns, filter,
        nested⟩,
    ⟨localEntity', localAttribute', remoteEntity', remoteAttribute', aliasName', kind', columns',
        filter', nested'⟩ =>
      localEntity = localEntity' && localAttribute = localAttribute' &&
        remoteEntity = remoteEntity' && remoteAttribute = remoteAttribute' && aliasName = aliasName' &&
        kind = kind' && columns = columns' && filter == filter' && sameAll nested nested'

def sameAll : List Join → List Join → Bool
  | [], [] => true
  | a :: as, b :: bs => same a b && sameAll as bs
  | _, _ => false

end

instance : BEq Join := ⟨same⟩

mutual

/-- The number of joins of the longest chain that starts with this one. -/
def depth : Join → Nat
  | ⟨_, _, _, _, _, _, _, _, nested⟩ => 1 + maxDepth nested

def maxDepth : List Join → Nat
  | [] => 0
  | j :: js => max j.depth (maxDepth js)

end

mutual

def count : Join → Nat
  | ⟨_, _, _, _, _, _, _, _, nested⟩ => 1 + totalCount nested

def totalCount : List Join → Nat
  | [] => 0
  | j :: js => j.count + totalCount js

end

mutual

/-- The first join with an alias: this one, or one nested in it. -/
def find? (aliasName : String) : Join → Option Join
  | ⟨localEntity, localAttribute, remoteEntity, remoteAttribute, own, kind, columns, filter,
        nested⟩ =>
      if own = some aliasName then
        some ⟨localEntity, localAttribute, remoteEntity, remoteAttribute, own, kind, columns,
          filter, nested⟩
      else
        findIn? aliasName nested

def findIn? (aliasName : String) : List Join → Option Join
  | [] => none
  | j :: js => find? aliasName j <|> findIn? aliasName js

end

mutual

def toJson (floats : FloatStyle := .number) : Join → Json
  | ⟨localEntity, localAttribute, remoteEntity, remoteAttribute, aliasName, kind, columns, filter,
        nested⟩ =>
      .object [("local_entity", .string localEntity), ("local_attribute", .string localAttribute),
        ("remote_entity", .string remoteEntity), ("remote_attribute", .string remoteAttribute),
        ("alias", .ofOption .string aliasName), ("kind", kind.toJson), ("columns", columns.toJson),
        ("filter", filter.toJson floats), ("nested_joins", .array (toJsonAll floats nested))]

def toJsonAll (floats : FloatStyle) : List Join → List Json
  | [] => []
  | j :: js => toJson floats j :: toJsonAll floats js

end

def fieldNames : List String :=
  ["local_entity", "local_attribute", "remote_entity", "remote_attribute", "alias", "kind",
    "columns", "filter", "nested_joins"]

/-- The join of a JSON value, as long as joins nest less than `depth` deep. -/
def ofJsonWithin? : Nat → Json → Option Join
  | 0, _ => none
  | depth + 1, j => do
      match ← j.fields? fieldNames with
      | [some localEntity, some localAttribute, some remoteEntity, some remoteAttribute, aliasName,
          some kind, some columns, some filter, some nested] =>
          return {
            localEntity := ← localEntity.string?
            localAttribute := ← localAttribute.string?
            remoteEntity := ← remoteEntity.string?
            remoteAttribute := ← remoteAttribute.string?
            aliasName := ← Json.optional? Json.string? aliasName
            kind := ← JoinKind.ofJson? kind
            columns := ← Projection.ofJson? columns
            filter := ← Filter.ofJson? filter
            nested := ← nested.listOf? (ofJsonWithin? depth)
          }
      | _ => none

def ofJson? (j : Json) : Option Join := ofJsonWithin? j.height j

end Join

end EntityQuery
