import EntityQuery.Operator
import EntityQuery.Value

/-!
# Filters

A filter combines conditions and further filters, in the order in which they were given.
-/

namespace EntityQuery

inductive Combinator
  | and
  | or
deriving DecidableEq

structure Condition where
  attr : String
  operator : Operator
  values : List Value
deriving DecidableEq, BEq

structure Filter where
  combinator : Combinator
  conditions : List Condition
  subfilters : List Filter

namespace Combinator

def name : Combinator → String
  | and => "and"
  | or => "or"

def toJson (c : Combinator) : Json := .string c.name

def ofJson? (j : Json) : Option Combinator := j.caseOf? [and, or] name

end Combinator

namespace Condition

def toJson (c : Condition) (floats : FloatStyle := .number) : Json :=
  .object [("attribute", .string c.attr), ("operator", c.operator.toJson),
    ("values", .array (c.values.map (·.toJson floats)))]

/-- The condition of a JSON value.  The number of its values is not looked at. -/
def ofJson? (j : Json) : Option Condition := do
  match ← j.fields? ["attribute", "operator", "values"] with
  | [some attr, some operator, some values] =>
      return ⟨← attr.string?, ← Operator.ofJson? operator, ← values.listOf? Value.ofJson?⟩
  | _ => none

end Condition

namespace Filter

def empty (combinator : Combinator := .and) : Filter := ⟨combinator, [], []⟩

mutual

def same : Filter → Filter → Bool
  | ⟨combinator, conditions, subfilters⟩, ⟨combinator', conditions', subfilters'⟩ =>
      combinator = combinator' && conditions == conditions' && sameAll subfilters subfilters'

def sameAll : List Filter → List Filter → Bool
  | [], [] => true
  | f :: fs, g :: gs => same f g && sameAll fs gs
  | _, _ => false

end

instance : BEq Filter := ⟨same⟩

mutual

/-- Whether neither the filter nor any filter nested in it has a condition. -/
def isEmpty : Filter → Bool
  | ⟨_, conditions, subfilters⟩ => conditions.isEmpty && allEmpty subfilters

def allEmpty : List Filter → Bool
  | [] => true
  | f :: fs => f.isEmpty && allEmpty fs

end

mutual

def conditionCount : Filter → Nat
  | ⟨_, conditions, subfilters⟩ => conditions.length + totalCount subfilters

def totalCount : List Filter → Nat
  | [] => 0
  | f :: fs => f.conditionCount + totalCount fs

end

/-- The first condition on an attribute, at the top level of the filter. -/
def condition? (f : Filter) (attr : String) : Option Condition :=
  f.conditions.find? (·.attr = attr)

mutual

def toJson (floats : FloatStyle := .number) : Filter → Json
  | ⟨combinator, conditions, subfilters⟩ =>
      .object [("combinator", combinator.toJson),
        ("conditions", .array (conditions.map (·.toJson floats))),
        ("subfilters", .array (toJsonAll floats subfilters))]

def toJsonAll (floats : FloatStyle) : List Filter → List Json
  | [] => []
  | f :: fs => toJson floats f :: toJsonAll floats fs

end

/-- The filter of a JSON value, as long as filters nest less than `depth` deep. -/
def ofJsonWithin? : Nat → Json → Option Filter
  | 0, _ => none
  | depth + 1, j => do
      match ← j.fields? ["combinator", "conditions", "subfilters"] with
      | [some combinator, some conditions, some subfilters] =>
          return ⟨← Combinator.ofJson? combinator, ← conditions.listOf? Condition.ofJson?,
            ← subfilters.listOf? (ofJsonWithin? depth)⟩
      | _ => none

def ofJson? (j : Json) : Option Filter := ofJsonWithin? j.height j

end Filter

end EntityQuery
