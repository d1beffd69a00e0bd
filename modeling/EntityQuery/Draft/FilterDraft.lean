import EntityQuery.Draft.Criterion

/-!
# Filters under construction

A filter draft collects criteria and groups in the order of the calls, and is changed in place: a
call answers the draft as it is afterwards, and the error if it failed.  A group is built apart and
only joins the draft when building it succeeds, so that a failing call leaves the draft as it was.
-/

namespace EntityQuery

structure FilterDraft where
  combinator : Combinator
  criteria : List Criterion
  groups : List FilterDraft

namespace FilterDraft

def empty (combinator : Combinator := .and) : FilterDraft := ⟨combinator, [], []⟩

mutual

def same : FilterDraft → FilterDraft → Bool
  | ⟨combinator, criteria, groups⟩, ⟨combinator', criteria', groups'⟩ =>
      combinator = combinator' && criteria == criteria' && sameAll groups groups'

def sameAll : List FilterDraft → List FilterDraft → Bool
  | [], [] => true
  | f :: fs, g :: gs => same f g && sameAll fs gs
  | _, _ => false

end

instance : BEq FilterDraft := ⟨same⟩

def push (f : FilterDraft) (criterion : Criterion) : FilterDraft :=
  { f with criteria := f.criteria ++ [criterion] }

def pushChecked (f : FilterDraft) : Except BuildError Criterion → FilterDraft × Option BuildError
  | .ok criterion => (f.push criterion, none)
  | .error e => (f, some e)

def addCondition (f : FilterDraft) (attr : String) (operator : Operator) (value : Option Value) :
    FilterDraft × Option BuildError :=
  f.pushChecked (Criterion.single attr operator value)

def addListCondition (f : FilterDraft) (attr : String) (operator : Operator)
    (values : List Value) : FilterDraft × Option BuildError :=
  f.pushChecked (Criterion.list attr operator values)

/-- Append a group that `configure` builds in place.  When it fails, there is no group. -/
def addGroup (f : FilterDraft) (combinator : Combinator)
    (configure : FilterDraft → FilterDraft × Option BuildError) :
    FilterDraft × Option BuildError :=
  match configure (empty combinator) with
  | (group, none) => ({ f with groups := f.groups ++ [group] }, none)
  | (_, some e) => (f, some e)

/-- The number of criteria outside of groups. -/
def size (f : FilterDraft) : Nat := f.criteria.length

def isEmpty (f : FilterDraft) : Bool := f.criteria.isEmpty && f.groups.isEmpty

mutual

def render : FilterDraft → Filter
  | ⟨combinator, criteria, groups⟩ =>
      ⟨combinator, criteria.map Criterion.toCondition, renderAll groups⟩

def renderAll : List FilterDraft → List Filter
  | [] => []
  | f :: fs => f.render :: renderAll fs

end

end FilterDraft

class Filtered (α : Type) where
  filter : α → FilterDraft
  withFilter : α → FilterDraft → α

namespace Filtered

/-- The draft with its filter changed in place, unless that fails. -/
def onFilter [Filtered α] (draft : α)
    (change : FilterDraft → FilterDraft × Option BuildError) : Except BuildError α :=
  match change (filter draft) with
  | (f, none) => .ok (withFilter draft f)
  | (_, some e) => .error e

def onFilterOrPanic [Filtered α] (draft : α)
    (change : FilterDraft → Except Panic (FilterDraft × Option BuildError)) : Building α := do
  match ← change (filter draft) with
  | (f, none) => return withFilter draft f
  | (_, some e) => throw e

def pushFilter [Filtered α] (draft : α) (criterion : Criterion) : α :=
  withFilter draft ((filter draft).push criterion)

end Filtered

instance : Filtered FilterDraft := ⟨id, fun _ f => f⟩

end EntityQuery
