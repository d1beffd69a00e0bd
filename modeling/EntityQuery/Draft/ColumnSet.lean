import EntityQuery.Draft.BuildError
import EntityQuery.Event
import EntityQuery.Plan.Join

/-!
# Column sets

The columns that a draft asks for: all of them, or names that are distinct and in the order in
which they came first.  A set is changed in place.  Adding skips a name that is there and reports
it; adding strictly collects the batch beside the set, which stays as it was if a name is there or
comes again.
-/

namespace EntityQuery

/-- Distinct names in the order in which they came. -/
structure Names where
  toList : List String
  nodup : toList.Nodup
deriving DecidableEq

/-- The first names of a batch, none of which is there or came before. -/
structure Pending (there : Names) where
  toList : List String
  nodup : (there.toList ++ toList).Nodup

def Pending.empty (there : Names) : Pending there := ⟨[], by simpa using there.nodup⟩

namespace Names

def empty : Names := ⟨[], List.nodup_nil⟩

def insert? (names : Names) (name : String) : Option Names :=
  if h : name ∈ names.toList then none
  else some ⟨names.toList ++ [name], by
    have nodup := names.nodup
    grind⟩

/-- Append the names that are not there yet, with a report for each that is. -/
def extendTraced [Monad m] [MonadTrace m] : Names → List String → m Names
  | names, [] => return names
  | names, name :: batch =>
      match names.insert? name with
      | some names => extendTraced names batch
      | none => do
          trace (.duplicateColumn name)
          extendTraced names batch

def extend (names : Names) (batch : List String) : Names := Id.run (names.extendTraced batch)

/-- Go through a batch, or give the first name that is there or came before in the batch. -/
def collect (there : Names) : Pending there → List String → Except String (Pending there)
  | pending, [] => .ok pending
  | pending, name :: batch =>
      if h : name ∈ there.toList ∨ name ∈ pending.toList then .error name
      else collect there ⟨pending.toList ++ [name], by
        have nodup := pending.nodup
        grind⟩ batch

def append (names : Names) (pending : Pending names) : Names :=
  ⟨names.toList ++ pending.toList, pending.nodup⟩

end Names

/-- The columns that a draft asks for.  In all-columns mode there are no names. -/
structure ColumnSet where
  isAll : Bool
  names : Names
  names_eq_empty : isAll = true → names = .empty
deriving DecidableEq

namespace ColumnSet

def reset (toAll : Bool) : ColumnSet := ⟨toAll, .empty, fun _ => rfl⟩

def all : ColumnSet := reset true

def none : ColumnSet := reset false

def only (names : Names) : ColumnSet := ⟨false, names, by simp⟩

def contains (columns : ColumnSet) (name : String) : Bool := name ∈ columns.names.toList

/-- Leave all-columns mode and append the names that are not there yet, with reports. -/
def addTraced [Monad m] [MonadTrace m] (columns : ColumnSet) (batch : List String) :
    m ColumnSet :=
  return only (← columns.names.extendTraced batch)

def add (columns : ColumnSet) (batch : List String) : ColumnSet := Id.run (columns.addTraced batch)

/-- Leave all-columns mode and append a batch, unless a name of it is there or comes again. -/
def addStrict (columns : ColumnSet) (batch : List String) : ColumnSet × Option BuildError :=
  match columns.names.collect (.empty columns.names) batch with
  | .ok pending => (only (columns.names.append pending), .none)
  | .error column => (columns, some (.duplicateColumn column))

def render (columns : ColumnSet) : Projection :=
  if columns.isAll then .all else .only columns.names.toList

end ColumnSet

class Projected (α : Type) where
  columns : α → ColumnSet
  withColumns : α → ColumnSet → α

namespace Projected

/-- The draft with its columns changed in place, unless that fails. -/
def onColumns [Projected α] (draft : α) (change : ColumnSet → ColumnSet × Option BuildError) :
    Except BuildError α :=
  match change (columns draft) with
  | (changed, none) => .ok (withColumns draft changed)
  | (_, some e) => .error e

def addColumns [Projected α] (draft : α) (batch : List String) : α :=
  withColumns draft ((columns draft).add batch)

def addColumnsTraced [Projected α] [Monad m] [MonadTrace m] (draft : α) (batch : List String) :
    m α := do
  return withColumns draft (← (columns draft).addTraced batch)

end Projected

instance : Projected ColumnSet := ⟨id, fun _ columns => columns⟩

inductive ColumnCall
  | add (batch : List String)
  | addStrict (batch : List String)
  | reset (toAll : Bool)
deriving DecidableEq

namespace ColumnCall

/-- Run a call in place: the set as it is afterwards, and the error if the call failed. -/
def runTraced [Monad m] [MonadTrace m] : ColumnCall → ColumnSet → m (ColumnSet × Option BuildError)
  | add batch, columns => return (← columns.addTraced batch, none)
  | addStrict batch, columns => return columns.addStrict batch
  | reset toAll, _ => return (.reset toAll, none)

def run (call : ColumnCall) (columns : ColumnSet) : ColumnSet × Option BuildError :=
  Id.run (call.runTraced columns)

def apply [Projected α] (draft : α) (call : ColumnCall) : Except BuildError α :=
  Projected.onColumns draft call.run

end ColumnCall

end EntityQuery
