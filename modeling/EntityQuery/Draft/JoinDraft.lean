import EntityQuery.Draft.ColumnSet
import EntityQuery.Draft.FilterDraft

/-!
# Joins under construction

A join draft gathers the two ends of a join, its columns, its filter and the joins nested in it.
The local end either names its entity or inherits it: it is then the remote entity of the
enclosing join, as that stands when the join is rendered.  A join is rendered before the joins
nested in it, so of several incomplete joins the outermost and first is reported.
-/

namespace EntityQuery

structure Endpoint where
  entity : String
  attr : String
deriving DecidableEq

inductive LocalEnd
  | fixed (endpoint : Endpoint)
  /-- An attribute of the entity that the enclosing join adds. -/
  | inherited (attr : String)
deriving DecidableEq

/-- What a join draft holds beside its nested joins. -/
structure JoinHead where
  source : Option LocalEnd := none
  target : Option Endpoint := none
  aliasName : Option String := none
  kind : JoinKind := .inner
  columns : ColumnSet := .all
  filter : FilterDraft := .empty
deriving BEq

inductive PendingJoin
  /-- A join that was rendered elsewhere and is taken as it is. -/
  | rendered (join : Join)
  /-- A join that is rendered together with the draft. -/
  | draft (head : JoinHead) (joins : List PendingJoin)

structure JoinDraft extends JoinHead where
  joins : List PendingJoin := []

namespace LocalEnd

def attr : LocalEnd → String
  | fixed endpoint => endpoint.attr
  | inherited attr => attr

/-- The entity of the local end, given the entity that the enclosing join adds. -/
def entity? (parent : Option String) : LocalEnd → Option String
  | fixed endpoint => some endpoint.entity
  | inherited _ => parent

end LocalEnd

structure JoinEnds where
  localEntity : String
  localAttribute : String
  target : Endpoint

namespace JoinHead

/-- Both ends of a join under an enclosing join, or which of them is missing. -/
def ends (head : JoinHead) (parent : Option String) : Except BuildError JoinEnds :=
  match head.source, head.source.bind (LocalEnd.entity? parent), head.target with
  | some source, some localEntity, some target => .ok ⟨localEntity, source.attr, target⟩
  | source, localEntity, target =>
      .error (.incompleteJoin ((source.map LocalEnd.attr).getD "")
        ((target.map Endpoint.entity).getD "")
        (if localEntity.isNone then .source else .target))

def node (head : JoinHead) (ends : JoinEnds) (nested : List Join) : Join where
  localEntity := ends.localEntity
  localAttribute := ends.localAttribute
  remoteEntity := ends.target.entity
  remoteAttribute := ends.target.attr
  aliasName := head.aliasName
  kind := head.kind
  columns := head.columns.render
  filter := head.filter.render
  nested := nested

end JoinHead

namespace PendingJoin

mutual

def same : PendingJoin → PendingJoin → Bool
  | rendered a, rendered b => a == b
  | draft head joins, draft head' joins' => head == head' && sameAll joins joins'
  | _, _ => false

def sameAll : List PendingJoin → List PendingJoin → Bool
  | [], [] => true
  | p :: ps, q :: qs => same p q && sameAll ps qs
  | _, _ => false

end

instance : BEq PendingJoin := ⟨same⟩

mutual

/-- The join as it is now, below the entity that the enclosing join adds. -/
def renderUnder (parent : Option String) : PendingJoin → Except BuildError Join
  | rendered join => .ok join
  | draft head joins => do
      let ends ← head.ends parent
      let nested ← renderAllUnder (some ends.target.entity) joins
      return head.node ends nested

def renderAllUnder (parent : Option String) : List PendingJoin → Except BuildError (List Join)
  | [] => .ok []
  | p :: ps => do
      let join ← renderUnder parent p
      let joins ← renderAllUnder parent ps
      return join :: joins

end

def render (p : PendingJoin) : Except BuildError Join := p.renderUnder none

end PendingJoin

namespace JoinDraft

instance : BEq JoinDraft := ⟨fun a b => a.toJoinHead == b.toJoinHead && a.joins == b.joins⟩

instance : Filtered JoinDraft := ⟨fun j => j.filter, fun j filter => { j with filter }⟩

instance : Projected JoinDraft := ⟨fun j => j.columns, fun j columns => { j with columns }⟩

def empty : JoinDraft := {}

def pending (j : JoinDraft) : PendingJoin := .draft j.toJoinHead j.joins

def fromEntity (j : JoinDraft) (entity attr : String) : JoinDraft :=
  { j with source := some (.fixed ⟨entity, attr⟩) }

def toEntity (j : JoinDraft) (entity attr : String) : JoinDraft :=
  { j with target := some ⟨entity, attr⟩ }

def withAlias (j : JoinDraft) (aliasName : String) : JoinDraft :=
  { j with aliasName := some aliasName }

def withKind (j : JoinDraft) (kind : JoinKind) : JoinDraft := { j with kind }

def leftOuter (j : JoinDraft) : JoinDraft := j.withKind .leftOuter

def remoteEntity? (j : JoinDraft) : Option String := j.target.map Endpoint.entity

def link (j : JoinDraft) (join : PendingJoin) : JoinDraft := { j with joins := j.joins ++ [join] }

/-- A join from the entity that this join adds, whatever that will be, of the same kind. -/
def seed (j : JoinDraft) (localAttribute remoteEntity remoteAttribute : String) : JoinDraft :=
  { source := some (.inherited localAttribute), target := some ⟨remoteEntity, remoteAttribute⟩,
    kind := j.kind }

def render (j : JoinDraft) : Except BuildError Join := j.pending.render

end JoinDraft

class Linkable (α : Type) where
  link : α → PendingJoin → α
  seed : α → String → String → String → JoinDraft

instance : Linkable JoinDraft := ⟨JoinDraft.link, JoinDraft.seed⟩

namespace Linkable

/-- Ask a join for columns; without names its columns stay as they are. -/
def withColumnsTraced [Monad m] [MonadTrace m] (join : JoinDraft) (columns : List String) :
    m JoinDraft :=
  if columns = [] then pure join else Projected.addColumnsTraced join columns

/-- Link a join that starts here.  It is configured first and asked for columns then. -/
def linkTraced [Linkable α] [Monad m] [MonadTrace m] (draft : α)
    (localAttribute remoteEntity remoteAttribute : String) (columns : List String)
    (configure : JoinDraft → m JoinDraft) : m α := do
  let join ← configure (seed draft localAttribute remoteEntity remoteAttribute)
  let join ← withColumnsTraced join columns
  return link draft join.pending

def linkWith [Linkable α] (draft : α) (localAttribute remoteEntity remoteAttribute : String)
    (columns : List String) (configure : JoinDraft → JoinDraft) : α :=
  Id.run (linkTraced draft localAttribute remoteEntity remoteAttribute columns
    fun join => pure (configure join))

def tryLinkWith [Linkable α] (draft : α) (localAttribute remoteEntity remoteAttribute : String)
    (columns : List String) (configure : JoinDraft → Except BuildError JoinDraft) :
    Except BuildError α :=
  linkTraced draft localAttribute remoteEntity remoteAttribute columns configure

def linkTo [Linkable α] (draft : α) (localAttribute remoteEntity remoteAttribute : String) : α :=
  linkWith draft localAttribute remoteEntity remoteAttribute [] id

def linkNew [Linkable α] (draft : α) (build : JoinDraft → Except BuildError JoinDraft) :
    Except BuildError α := do
  return link draft (← build .empty).pending

end Linkable

end EntityQuery
