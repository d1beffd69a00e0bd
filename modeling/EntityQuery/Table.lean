/-!
# Tables

A table maps names to values and remembers the order in which the names came.  Writing to a name
that is there replaces its value in place; a new name goes to the end.  `==` on tables does not
look at the order.
-/

namespace EntityQuery

/-- Values by name, in the order of the first write to each name. -/
structure Table (α : Type) where
  entries : List (String × α)
  nodup : (entries.map Prod.fst).Nodup
deriving DecidableEq

namespace Table

/-- Replace the value of a name, or append the name. -/
def put (name : String) (value : α) : List (String × α) → List (String × α)
  | [] => [(name, value)]
  | (other, old) :: entries =>
      if other = name then (name, value) :: entries else (other, old) :: put name value entries

theorem mem_keys_put (name other : String) (value : α) (entries : List (String × α)) :
    other ∈ (put name value entries).map Prod.fst ↔
      other = name ∨ other ∈ entries.map Prod.fst := by
  induction entries with
  | nil => simp [put]
  | cons entry entries ih =>
    by_cases h : entry.1 = name
    · simp [put, h]
    · simp only [put, h, if_false, List.map_cons, List.mem_cons, ih]
      grind

theorem nodup_put (name : String) (value : α) (entries : List (String × α))
    (nodup : (entries.map Prod.fst).Nodup) : ((put name value entries).map Prod.fst).Nodup := by
  induction entries with
  | nil => simp [put]
  | cons entry entries ih =>
    have hcons := List.nodup_cons.1 nodup
    by_cases h : entry.1 = name
    · simpa [put, h] using nodup
    · simp only [put, h, if_false, List.map_cons]
      refine List.nodup_cons.2 ⟨?_, ih hcons.2⟩
      rw [mem_keys_put]
      grind

def empty : Table α := ⟨[], List.nodup_nil⟩

def insert (table : Table α) (name : String) (value : α) : Table α :=
  ⟨put name value table.entries, nodup_put name value table.entries table.nodup⟩

def get? (table : Table α) (name : String) : Option α := table.entries.lookup name

def contains (table : Table α) (name : String) : Bool := (table.get? name).isSome

def keys (table : Table α) : List String := table.entries.map Prod.fst

/-- A table of some entries, where a later entry replaces an earlier one of the same name. -/
def ofList (entries : List (String × α)) : Table α :=
  entries.foldl (fun table entry => table.insert entry.1 entry.2) empty

/-- Whether two tables have the same names with equal values. -/
def same [BEq α] (a b : Table α) : Bool :=
  a.entries.length = b.entries.length &&
    a.entries.all fun (name, value) =>
      match b.get? name with
      | some other => value == other
      | none => false

instance [BEq α] : BEq (Table α) := ⟨same⟩

end Table

end EntityQuery
