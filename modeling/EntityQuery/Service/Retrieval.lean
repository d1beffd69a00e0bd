import EntityQuery.Draft.QueryDraft
import EntityQuery.Record

/-!
# Running queries

A service runs a plan and answers rows.  It is any function into a monad, which holds the state of
the service.
-/

namespace EntityQuery

inductive ServiceError
  | build (error : BuildError)
  | record (error : ReadError)
  | execution (text : String)
  | metadata (text : String)
deriving DecidableEq

def ServiceError.message : ServiceError → String
  | build error => "build error: " ++ error.message
  | record error => "record error: " ++ error.message
  | execution text => "execution error: " ++ text
  | metadata text => "metadata error: " ++ text

/-- A service that runs plans. -/
abbrev Executor (m : Type → Type) := Plan → m (Except ServiceError (List Record))

namespace QueryDraft

def retrieve [Monad m] [MonadTrace m] (q : QueryDraft) (execute : Executor m) :
    m (Except ServiceError (List Record)) := do
  match ← q.renderTraced with
  | .error e => return .error (.build e)
  | .ok plan =>
      trace (.executing plan.entity plan.joinCount)
      match ← execute plan with
      | .ok rows =>
          trace (.returned plan.entity rows.length)
          return .ok rows
      | .error e =>
          trace (.failed plan.entity e.message)
          return .error e

/-- Render a query for one row, run it, and answer the first row if there is one. -/
def retrieveFirst [Monad m] [MonadTrace m] (q : QueryDraft) (execute : Executor m) :
    m (Except ServiceError (Option Record)) := do
  return (← q.onlyFirst.retrieve execute).map List.head?

end QueryDraft

end EntityQuery
