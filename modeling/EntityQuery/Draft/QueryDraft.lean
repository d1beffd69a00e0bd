import EntityQuery.Draft.Config
import EntityQuery.Draft.JoinDraft

/-!
# Queries under construction

A query draft gathers the parts of a plan.  Rendering takes a snapshot and changes nothing.
-/

namespace EntityQuery

structure QueryDraft where
  entity : String
  columns : ColumnSet := .all
  filter : FilterDraft := .empty
  joins : List PendingJoin := []
  sort : List SortKey := []
  paging : Option Paging := none
  consistency : Consistency := .noLock
  joinKind : JoinKind := .inner
deriving BEq

namespace QueryDraft

instance : Filtered QueryDraft := ⟨fun q => q.filter, fun q filter => { q with filter }⟩

instance : Projected QueryDraft := ⟨fun q => q.columns, fun q columns => { q with columns }⟩

def withConfig (entity : String) (config : Config) : QueryDraft where
  entity := entity
  filter := .empty config.combinator
  consistency := config.consistency
  joinKind := config.joinKind

def new (entity : String) : QueryDraft := withConfig entity {}

def withOptions (entity : String) (combinator : Combinator) (consistency : Consistency) :
    QueryDraft :=
  withConfig entity { combinator, consistency }

/-- Query another entity.  Joins that are linked already stay as they are. -/
def forEntity (q : QueryDraft) (entity : String) : QueryDraft := { q with entity }

def withConsistency (q : QueryDraft) (consistency : Consistency) : QueryDraft :=
  { q with consistency }

def orderBy (q : QueryDraft) (key : SortKey) : QueryDraft := { q with sort := q.sort ++ [key] }

def page (q : QueryDraft) (paging : Paging) : QueryDraft := { q with paging := some paging }

def onlyFirst (q : QueryDraft) : QueryDraft := q.page .single

def link (q : QueryDraft) (join : PendingJoin) : QueryDraft :=
  { q with joins := q.joins ++ [join] }

/-- A join from the entity that is queried now, of the kind that the query prefers. -/
def seed (q : QueryDraft) (localAttribute remoteEntity remoteAttribute : String) : JoinDraft :=
  { source := some (.fixed ⟨q.entity, localAttribute⟩),
    target := some ⟨remoteEntity, remoteAttribute⟩, kind := q.joinKind }

instance : Linkable QueryDraft := ⟨link, seed⟩

def render (q : QueryDraft) : Except BuildError Plan := do
  let joins ← PendingJoin.renderAllUnder none q.joins
  return {
    entity := q.entity
    columns := q.columns.render
    filter := q.filter.render
    joins := joins
    sort := q.sort
    paging := q.paging
    consistency := q.consistency
  }

def renderEvent (plan : Plan) : Event :=
  .planRendered plan.entity plan.filter.conditionCount plan.joinCount plan.sort.length

def renderTraced [Monad m] [MonadTrace m] (q : QueryDraft) : m (Except BuildError Plan) := do
  match q.render with
  | .ok plan =>
      trace (renderEvent plan)
      return .ok plan
  | .error e => return .error e

end QueryDraft

end EntityQuery
