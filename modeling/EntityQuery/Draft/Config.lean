import EntityQuery.Plan

/-!
# Defaults of query drafts

What a new query draft starts with.  The stored form may leave out any part.
-/

namespace EntityQuery

structure Config where
  combinator : Combinator := .and
  consistency : Consistency := .noLock
  /-- The kind of the joins that are linked without a draft of their own. -/
  joinKind : JoinKind := .inner
deriving DecidableEq

namespace Config

def part? (read? : Json → Option α) (default : α) : Option Json → Option α
  | none => some default
  | some j => read? j

def ofJson? (j : Json) : Option Config := do
  let base : Config := {}
  match ← j.leadingFields? ["combinator", "consistency", "join_kind"] with
  | [combinator, consistency, joinKind] =>
      return ⟨← part? Combinator.ofJson? base.combinator combinator,
        ← part? Consistency.ofJson? base.consistency consistency,
        ← part? JoinKind.ofJson? base.joinKind joinKind⟩
  | _ => none

end Config

end EntityQuery
