import EntityQuery.Plan.Join

/-!
# Query plans

A plan is all that a service needs to run a query.  It is a tree that owns its parts.
-/

namespace EntityQuery

inductive Direction
  | ascending
  | descending
deriving DecidableEq

structure SortKey where
  attr : String
  direction : Direction
deriving DecidableEq

structure Paging where
  pageSize : UInt32
  pageNumber : UInt32
  requestTotalCount : Bool := false
  continuationToken : Option String := none
deriving DecidableEq

/-- Whether a query may read without locks. -/
inductive Consistency
  | noLock
  | serviceDefault
deriving DecidableEq

/-- A query, ready to be run. -/
structure Plan where
  entity : String
  columns : Projection
  filter : Filter
  joins : List Join
  sort : List SortKey
  paging : Option Paging
  consistency : Consistency
deriving BEq

namespace Direction

def name : Direction → String
  | ascending => "asc"
  | descending => "desc"

def toJson (d : Direction) : Json := .string d.name

def ofJson? (j : Json) : Option Direction := j.caseOf? [ascending, descending] name

end Direction

namespace SortKey

def toJson (key : SortKey) : Json :=
  .object [("attribute", .string key.attr), ("direction", key.direction.toJson)]

def ofJson? (j : Json) : Option SortKey := do
  match ← j.fields? ["attribute", "direction"] with
  | [some attr, some direction] =>
      return ⟨← attr.string?, ← Direction.ofJson? direction⟩
  | _ => none

end SortKey

namespace Paging

def single : Paging := { pageSize := 1, pageNumber := 1 }

def toJson (p : Paging) : Json :=
  .object [("page_size", .int p.pageSize.toNat), ("page_number", .int p.pageNumber.toNat),
    ("request_total_count", .bool p.requestTotalCount),
    ("continuation_token", .ofOption .string p.continuationToken)]

def ofJson? (j : Json) : Option Paging := do
  match ← j.fields? ["page_size", "page_number", "request_total_count", "continuation_token"] with
  | [some pageSize, some pageNumber, some totalCount, token] =>
      return ⟨← pageSize.uint32?, ← pageNumber.uint32?, ← totalCount.bool?,
        ← Json.optional? Json.string? token⟩
  | _ => none

end Paging

namespace Consistency

def name : Consistency → String
  | noLock => "no-lock"
  | serviceDefault => "default"

def toJson (c : Consistency) : Json := .string c.name

def ofJson? (j : Json) : Option Consistency := j.caseOf? [noLock, serviceDefault] name

end Consistency

namespace Plan

/-- The first join with an alias, anywhere in the plan. -/
def findJoin? (plan : Plan) (aliasName : String) : Option Join := Join.findIn? aliasName plan.joins

def joinCount (plan : Plan) : Nat := Join.totalCount plan.joins

def toJson (plan : Plan) (floats : FloatStyle := .number) : Json :=
  .object [("entity", .string plan.entity), ("columns", plan.columns.toJson),
    ("filter", plan.filter.toJson floats), ("joins", .array (Join.toJsonAll floats plan.joins)),
    ("sort", .array (plan.sort.map SortKey.toJson)),
    ("paging", .ofOption Paging.toJson plan.paging), ("consistency", plan.consistency.toJson)]

def ofJson? (j : Json) : Option Plan := do
  match ← j.fields? ["entity", "columns", "filter", "joins", "sort", "paging", "consistency"] with
  | [some entity, some columns, some filter, some joins, some sort, paging, some consistency] =>
      return {
        entity := ← entity.string?
        columns := ← Projection.ofJson? columns
        filter := ← Filter.ofJson? filter
        joins := ← joins.listOf? Join.ofJson?
        sort := ← sort.listOf? SortKey.ofJson?
        paging := ← Json.optional? Paging.ofJson? paging
        consistency := ← Consistency.ofJson? consistency
      }
  | _ => none

end Plan

end EntityQuery
