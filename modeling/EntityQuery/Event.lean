import EntityQuery.Json

/-!
# Events

What the library reports while it works.  An operation that reports runs in any monad with a
`MonadTrace` instance; without interest in the reports that is `Id` or `Except`, which drop them.
-/

namespace EntityQuery

inductive Level
  | trace
  | debug
  | warn
deriving DecidableEq

inductive Event
  | duplicateColumn (column : String)
  | planRendered (entity : String) (conditions joins sortKeys : Nat)
  | executing (entity : String) (joins : Nat)
  | returned (entity : String) (rows : Nat)
  | failed (entity error : String)
deriving DecidableEq

def Level.name : Level → String
  | trace => "TRACE"
  | debug => "DEBUG"
  | warn => "WARN"

namespace Event

def level : Event → Level
  | duplicateColumn .. => .trace
  | planRendered .. => .trace
  | executing .. => .debug
  | returned .. => .debug
  | failed .. => .warn

def message : Event → String
  | duplicateColumn .. => "skipping duplicate column"
  | planRendered .. => "rendered query plan"
  | executing .. => "executing query"
  | returned .. => "query returned"
  | failed .. => "query failed"

def fields : Event → List (String × Json)
  | duplicateColumn column => [("column", .string column)]
  | planRendered entity conditions joins sortKeys =>
      [("entity", .string entity), ("conditions", .int conditions), ("joins", .int joins),
        ("sort_keys", .int sortKeys)]
  | executing entity joins => [("entity", .string entity), ("joins", .int joins)]
  | returned entity rows => [("entity", .string entity), ("rows", .int rows)]
  | failed entity error => [("entity", .string entity), ("error", .string error)]

def toJson (e : Event) : Json :=
  .object [("level", .string e.level.name),
    ("fields", .object (("message", .string e.message) :: e.fields))]

end Event

/-- Monads in which events can be reported. -/
class MonadTrace (m : Type → Type) where
  trace : Event → m Unit

export MonadTrace (trace)

/-- Computations that collect their events in order. -/
abbrev Traced := StateM (List Event)

instance : MonadTrace Id := ⟨fun _ => ()⟩
instance : MonadTrace (Except ε) := ⟨fun _ => .ok ()⟩
instance : MonadTrace Traced := ⟨fun e => modify (· ++ [e])⟩
instance [Monad m] [MonadTrace m] : MonadTrace (StateT σ m) := ⟨fun e => liftM (trace e : m Unit)⟩
instance [Monad m] [MonadTrace m] : MonadTrace (ExceptT ε m) :=
  ⟨fun e => liftM (trace e : m Unit)⟩

end EntityQuery
