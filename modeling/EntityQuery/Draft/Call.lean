import EntityQuery.Draft.FilterCall
import EntityQuery.Draft.QueryDraft

/-!
# Calls on joins and queries

The calls that build joins and queries, as data.  A call answers the changed draft or fails, and
then the draft is kept as it was.  A list of calls stops at the first that fails or skips those
that fail; a call that is attempted never fails.  Here too a panic ends the whole program, and there
is a run without.
-/

namespace EntityQuery

/-- The result of a call, or the draft as it was before a call that failed. -/
def keepOnError (draft : α) : Except ε α → α
  | .ok changed => changed
  | .error _ => draft

inductive JoinCall
  | filter (call : FilterCall)
  | columns (call : ColumnCall)
  | fromEntity (entity attr : String)
  | toEntity (entity attr : String)
  | withAlias (aliasName : String)
  | withKind (kind : JoinKind)
  | link (join : PendingJoin)
  /-- Link a new join that calls build, none of which may fail. -/
  | linkNew (calls : List JoinCall)
  | linkTo (localAttribute remoteEntity remoteAttribute : String)
  /-- Link a join that calls configure, of which those that fail are skipped. -/
  | linkWith (localAttribute remoteEntity remoteAttribute : String) (columns : List String)
      (calls : List JoinCall)
  /-- Link a join that calls configure, none of which may fail. -/
  | tryLinkWith (localAttribute remoteEntity remoteAttribute : String) (columns : List String)
      (calls : List JoinCall)
  /-- A call whose failure is ignored. -/
  | attempt (call : JoinCall)

namespace JoinCall

mutual

/-- The draft after a call, which may panic. -/
def applyOrPanic : JoinCall → JoinDraft → Building JoinDraft
  | filter call, j => Filtered.onFilterOrPanic j call.runOrPanic
  | columns call, j => liftExcept (call.apply j)
  | fromEntity entity attr, j => return j.fromEntity entity attr
  | toEntity entity attr, j => return j.toEntity entity attr
  | withAlias aliasName, j => return j.withAlias aliasName
  | withKind kind, j => return j.withKind kind
  | link join, j => return j.link join
  | linkNew calls, j => return j.link (← applyAllOrPanic calls .empty).pending
  | linkTo localAttribute remoteEntity remoteAttribute, j =>
      return Linkable.linkTo j localAttribute remoteEntity remoteAttribute
  | linkWith localAttribute remoteEntity remoteAttribute batch calls, j =>
      ExceptT.lift (Linkable.linkTraced j localAttribute remoteEntity remoteAttribute batch
        fun join => applyEachOrPanic calls join)
  | tryLinkWith localAttribute remoteEntity remoteAttribute batch calls, j =>
      Linkable.linkTraced j localAttribute remoteEntity remoteAttribute batch
        fun join => applyAllOrPanic calls join
  | attempt call, j => return keepOnError j (← ExceptT.lift (applyOrPanic call j).run)

def applyAllOrPanic : List JoinCall → JoinDraft → Building JoinDraft
  | [], j => return j
  | call :: calls, j => do applyAllOrPanic calls (← applyOrPanic call j)

def applyEachOrPanic : List JoinCall → JoinDraft → Except Panic JoinDraft
  | [], j => return j
  | call :: calls, j => do applyEachOrPanic calls (keepOnError j (← (applyOrPanic call j).run))

end

mutual

def apply : JoinCall → JoinDraft → Except BuildError JoinDraft
  | filter call, j => Filtered.onFilter j call.run
  | columns call, j => call.apply j
  | fromEntity entity attr, j => .ok (j.fromEntity entity attr)
  | toEntity entity attr, j => .ok (j.toEntity entity attr)
  | withAlias aliasName, j => .ok (j.withAlias aliasName)
  | withKind kind, j => .ok (j.withKind kind)
  | link join, j => .ok (j.link join)
  | linkNew calls, j => Linkable.linkNew j fun join => applyAll calls join
  | linkTo localAttribute remoteEntity remoteAttribute, j =>
      .ok (Linkable.linkTo j localAttribute remoteEntity remoteAttribute)
  | linkWith localAttribute remoteEntity remoteAttribute batch calls, j =>
      .ok (Linkable.linkWith j localAttribute remoteEntity remoteAttribute batch fun join =>
        applyEach calls join)
  | tryLinkWith localAttribute remoteEntity remoteAttribute batch calls, j =>
      Linkable.tryLinkWith j localAttribute remoteEntity remoteAttribute batch fun join =>
        applyAll calls join
  | attempt call, j => .ok (keepOnError j (apply call j))

/-- The draft after some calls, which stop at the first that fails. -/
def applyAll : List JoinCall → JoinDraft → Except BuildError JoinDraft
  | [], j => .ok j
  | call :: calls, j =>
      match apply call j with
      | .ok j => applyAll calls j
      | .error e => .error e

/-- The draft after those of some calls that do not fail. -/
def applyEach : List JoinCall → JoinDraft → JoinDraft
  | [], j => j
  | call :: calls, j => applyEach calls (keepOnError j (apply call j))

end

end JoinCall

inductive QueryCall
  | filter (call : FilterCall)
  | columns (call : ColumnCall)
  | forEntity (entity : String)
  | withConsistency (consistency : Consistency)
  | orderBy (key : SortKey)
  | page (paging : Paging)
  | link (join : PendingJoin)
  | linkNew (calls : List JoinCall)
  | linkTo (localAttribute remoteEntity remoteAttribute : String)
  | linkWith (localAttribute remoteEntity remoteAttribute : String) (columns : List String)
      (calls : List JoinCall)
  | tryLinkWith (localAttribute remoteEntity remoteAttribute : String) (columns : List String)
      (calls : List JoinCall)

namespace QueryCall

def applyOrPanic : QueryCall → QueryDraft → Building QueryDraft
  | filter call, q => Filtered.onFilterOrPanic q call.runOrPanic
  | columns call, q => liftExcept (call.apply q)
  | forEntity entity, q => return q.forEntity entity
  | withConsistency consistency, q => return q.withConsistency consistency
  | orderBy key, q => return q.orderBy key
  | page paging, q => return q.page paging
  | link join, q => return q.link join
  | linkNew calls, q => return q.link (← JoinCall.applyAllOrPanic calls .empty).pending
  | linkTo localAttribute remoteEntity remoteAttribute, q =>
      return Linkable.linkTo q localAttribute remoteEntity remoteAttribute
  | linkWith localAttribute remoteEntity remoteAttribute batch calls, q =>
      ExceptT.lift (Linkable.linkTraced q localAttribute remoteEntity remoteAttribute batch
        fun join => JoinCall.applyEachOrPanic calls join)
  | tryLinkWith localAttribute remoteEntity remoteAttribute batch calls, q =>
      Linkable.linkTraced q localAttribute remoteEntity remoteAttribute batch
        fun join => JoinCall.applyAllOrPanic calls join

def applyAllOrPanic (calls : List QueryCall) (q : QueryDraft) : Building QueryDraft :=
  calls.foldlM (fun q call => call.applyOrPanic q) q

def applyEachOrPanic (calls : List QueryCall) (q : QueryDraft) : Except Panic QueryDraft :=
  calls.foldlM (fun q call => return keepOnError q (← (call.applyOrPanic q).run)) q

def apply : QueryCall → QueryDraft → Except BuildError QueryDraft
  | filter call, q => Filtered.onFilter q call.run
  | columns call, q => call.apply q
  | forEntity entity, q => .ok (q.forEntity entity)
  | withConsistency consistency, q => .ok (q.withConsistency consistency)
  | orderBy key, q => .ok (q.orderBy key)
  | page paging, q => .ok (q.page paging)
  | link join, q => .ok (q.link join)
  | linkNew calls, q => Linkable.linkNew q fun join => JoinCall.applyAll calls join
  | linkTo localAttribute remoteEntity remoteAttribute, q =>
      .ok (Linkable.linkTo q localAttribute remoteEntity remoteAttribute)
  | linkWith localAttribute remoteEntity remoteAttribute batch calls, q =>
      .ok (Linkable.linkWith q localAttribute remoteEntity remoteAttribute batch fun join =>
        JoinCall.applyEach calls join)
  | tryLinkWith localAttribute remoteEntity remoteAttribute batch calls, q =>
      Linkable.tryLinkWith q localAttribute remoteEntity remoteAttribute batch fun join =>
        JoinCall.applyAll calls join

def applyAll (calls : List QueryCall) (q : QueryDraft) : Except BuildError QueryDraft :=
  calls.foldlM (fun q call => call.apply q) q

def applyEach (calls : List QueryCall) (q : QueryDraft) : QueryDraft :=
  calls.foldl (fun q call => keepOnError q (call.apply q)) q

end QueryCall

end EntityQuery
