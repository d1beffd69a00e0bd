import EntityQuery.Proofs.Json.Fields
import EntityQuery.Proofs.Table

/-!
# The order of members

The members of an object have names, and their order means nothing.  Data is rearranged by putting
the members of its objects into another order, at any depth; it is left alone otherwise, and no
object may name a member twice.

A reader that ignores the order finds the same in rearranged data.  The readers of single values do,
and those of fields, lists and cases do if the readers of their parts do.
-/

namespace EntityQuery.Json

/-- The same data up to the order in which the members of objects are listed. -/
inductive Rearranged : Json → Json → Prop
  | null : Rearranged null null
  | bool (b : Bool) : Rearranged (bool b) (bool b)
  | int (n : Int) : Rearranged (int n) (int n)
  | float (x : FiniteBinary64) : Rearranged (float x) (float x)
  | string (s : String) : Rearranged (string s) (string s)
  | array {items items' : List Json} (hlength : items.length = items'.length)
      (h : ∀ {item item'}, (item, item') ∈ items.zip items' → Rearranged item item') :
      Rearranged (array items) (array items')
  | object {members members' : List (String × Json)} (hnodup : (members.map Prod.fst).Nodup)
      (hnames : (members.map Prod.fst).Perm (members'.map Prod.fst))
      (h : ∀ {name value value'}, (name, value) ∈ members → (name, value') ∈ members' →
        Rearranged value value') :
      Rearranged (object members) (object members')

namespace Rearranged

variable {data data' : Json} {items items' : List Json} {members members' : List (String × Json)}

theorem array_iff :
    Rearranged (.array items) (.array items') ↔ List.Forall₂ Rearranged items items' := by
  rw [List.forall₂_iff_zip]
  constructor
  · intro h
    cases h with
    | array hlength h => exact ⟨hlength, h⟩
  · rintro ⟨hlength, h⟩
    exact .array hlength h

theorem symm (h : Rearranged data data') : Rearranged data' data := by
  induction h with
  | null => exact .null
  | bool b => exact .bool b
  | int n => exact .int n
  | float x => exact .float x
  | string s => exact .string s
  | array hlength _ ih =>
      have hitems := List.forall₂_iff_zip.2 ⟨hlength, ih⟩
      exact array_iff.2 (List.Forall₂.flip hitems)
  | object hnodup hnames _ ih =>
      exact .object (hnames.nodup_iff.1 hnodup) hnames.symm fun h h' => ih h' h

/-- A name has the same member wherever it is listed. -/
theorem rel_lookup (h : Rearranged (.object members) (.object members')) (name : String) :
    Option.Rel Rearranged (members.lookup name) (members'.lookup name) := by
  cases h with
  | object hnodup hnames h =>
      let table : Table Json := ⟨members, hnodup⟩
      let table' : Table Json := ⟨members', hnames.nodup_iff.1 hnodup⟩
      change Option.Rel Rearranged (table.get? name) (table'.get? name)
      have hkeys : name ∈ table.keys ↔ name ∈ table'.keys := hnames.mem_iff
      cases hvalue : table.get? name with
      | none =>
          rw [Table.get?_eq_none_iff.2 (mt hkeys.2 (Table.get?_eq_none_iff.1 hvalue))]
          exact .none
      | some value =>
          obtain ⟨value', hvalue'⟩ :=
            Table.mem_keys_iff.1 (hkeys.1 (Table.mem_keys_iff.2 ⟨value, hvalue⟩))
          rw [hvalue']
          exact .some (h (Table.get?_eq_some_iff.1 hvalue) (Table.get?_eq_some_iff.1 hvalue'))

theorem exists_member (h : Rearranged (.object members) (.object members')) {name : String}
    {value : Json} (hmember : (name, value) ∈ members) :
    ∃ value', (name, value') ∈ members' ∧ Rearranged value value' := by
  cases h with
  | object _ hnames h =>
      have hname := hnames.mem_iff.1 (List.mem_map_of_mem hmember)
      obtain ⟨⟨_, value'⟩, hmember', rfl⟩ := List.mem_map.1 hname
      exact ⟨value', hmember', h hmember hmember'⟩

theorem array_self (h : ∀ item ∈ items, Rearranged item item) :
    Rearranged (.array items) (.array items) :=
  array_iff.2 (List.forall₂_same.2 h)

/-- An object that names no member twice is its own rearrangement if its members are. -/
theorem object_self (hnodup : (members.map Prod.fst).Nodup)
    (h : ∀ entry ∈ members, Rearranged entry.2 entry.2) :
    Rearranged (.object members) (.object members) := by
  refine .object hnodup (.refl _) fun {name value value'} hvalue hvalue' => ?_
  have hlookup := (Table.lookup_eq_some_iff hnodup).2 hvalue
  have hlookup' := (Table.lookup_eq_some_iff hnodup).2 hvalue'
  obtain rfl := Option.some.inj (hlookup.symm.trans hlookup')
  exact h _ hvalue

theorem object_perm (h : Rearranged (.object members) (.object members))
    (hperm : members.Perm members') : Rearranged (.object members) (.object members') := by
  cases h with
  | object hnodup _ h =>
      exact .object hnodup (hperm.map Prod.fst) fun hvalue hvalue' =>
        h hvalue (hperm.mem_iff.2 hvalue')

theorem ofTagged_self {tag content : String} (h : content ≠ tag) (name : String)
    {value : Json} (hvalue : Rearranged value value) :
    Rearranged (ofTagged tag content name value) (ofTagged tag content name value) := by
  refine object_self (by simpa using h.symm) ?_
  simpa using ⟨.string name, hvalue⟩

theorem ofOption_string_self (s : Option String) :
    Rearranged (ofOption .string s) (ofOption .string s) := by
  cases s with
  | none => exact .null
  | some s => exact .string s

theorem heightOfMembers_le {bound : Nat}
    (h : ∀ entry ∈ members, entry.2.height ≤ bound) : heightOfMembers members ≤ bound := by
  induction members with
  | nil => exact Nat.zero_le _
  | cons entry members ih =>
      obtain ⟨hentry, hmembers⟩ := List.forall_mem_cons.1 h
      rw [heightOfMembers]
      exact Nat.max_le.2 ⟨hentry, ih hmembers⟩

theorem heightOfItems_eq (h : List.Forall₂ (fun item item' => item.height = item'.height) items
    items') : heightOfItems items = heightOfItems items' := by
  induction h with
  | nil => rfl
  | cons hitem _ ih => rw [heightOfItems, heightOfItems, hitem, ih]

/-- Members are as high as others that have their names and their heights. -/
theorem heightOfMembers_le_of_names
    (hnames : ∀ name ∈ members.map Prod.fst, name ∈ members'.map Prod.fst)
    (h : ∀ {name value value'}, (name, value) ∈ members → (name, value') ∈ members' →
      value.height = value'.height) : heightOfMembers members ≤ heightOfMembers members' := by
  refine heightOfMembers_le fun entry hentry => ?_
  obtain ⟨name, value⟩ := entry
  obtain ⟨⟨_, value'⟩, hvalue', rfl⟩ := List.mem_map.1 (hnames name (List.mem_map_of_mem hentry))
  calc
    value.height = value'.height := h hentry hvalue'
    _ ≤ heightOfMembers members' := height_le_of_mem_members hvalue'

theorem height_eq (h : Rearranged data data') : data.height = data'.height := by
  induction h with
  | array hlength _ ih =>
      rw [height, height, heightOfItems_eq (List.forall₂_iff_zip.2 ⟨hlength, ih⟩)]
  | object _ hnames _ ih =>
      have hle := heightOfMembers_le_of_names (fun _ => hnames.mem_iff.1) ih
      have hge := heightOfMembers_le_of_names (fun _ => hnames.mem_iff.2)
        fun h h' => (ih h' h).symm
      rw [height, height, Nat.le_antisymm hle hge]
  | _ => rfl

end Rearranged

/-! ## Readers -/

/-- A reader that finds the same in rearranged data. -/
def IgnoresOrder {α : Type} (read : Json → α) : Prop :=
  ∀ ⦃data data' : Json⦄, Rearranged data data' → read data = read data'

section Readers

variable {α : Type} {read? : Json → Option α} {names : List String} {data data' : Json}

theorem ignoresOrder_bool? : IgnoresOrder bool? := fun _ _ h => by cases h <;> rfl

theorem ignoresOrder_string? : IgnoresOrder string? := fun _ _ h => by cases h <;> rfl

theorem ignoresOrder_intBetween? (lower upper : Int) : IgnoresOrder (intBetween? lower upper) :=
  fun _ _ h => by cases h <;> rfl

theorem ignoresOrder_finite? : IgnoresOrder finite? := fun _ _ h => by cases h <;> rfl

theorem IgnoresOrder.map {β : Type} (h : IgnoresOrder read?) (f : α → β) :
    IgnoresOrder fun data => (read? data).map f := fun _ _ hdata => congrArg _ (h hdata)

theorem IgnoresOrder.bind {β : Type} (h : IgnoresOrder read?) (f : α → Option β) :
    IgnoresOrder fun data => (read? data).bind f := fun _ _ hdata => congrArg (·.bind f) (h hdata)

theorem mapM_eq_of_forall₂ (h : IgnoresOrder read?) {items items' : List Json}
    (hitems : List.Forall₂ Rearranged items items') : items.mapM read? = items'.mapM read? := by
  induction hitems with
  | nil => rfl
  | cons hitem _ ih => rw [List.mapM_cons, List.mapM_cons, h hitem, ih]

theorem IgnoresOrder.listOf? (h : IgnoresOrder read?) : IgnoresOrder (listOf? read?) := by
  rintro data data' hdata
  cases hdata with
  | array hlength hitems =>
      exact mapM_eq_of_forall₂ h (List.forall₂_iff_zip.2 ⟨hlength, hitems⟩)
  | _ => rfl

theorem IgnoresOrder.optional? (h : IgnoresOrder read?) {value value' : Option Json}
    (hvalue : Option.Rel Rearranged value value') :
    optional? read? value = optional? read? value' := by
  cases hvalue with
  | none => rfl
  | some hvalue =>
      have hread := h hvalue
      cases hvalue <;> first | rfl | exact congrArg (Option.map some) hread

theorem ignoresOrder_caseName? : IgnoresOrder caseName? := by
  rintro data data' hdata
  cases hdata with
  | @object members members' _ hnames h =>
      have hlength : members.length = members'.length := by simpa using hnames.length_eq
      match members, members', hlength with
      | [], [], _ => rfl
      | [(name, value)], [(name', value')], _ =>
          obtain rfl : name' = name := by simpa using hnames.symm
          have hvalue := h List.mem_cons_self List.mem_cons_self
          cases hvalue <;> rfl
      | _ :: _ :: _, _ :: _ :: _, _ => simp [caseName?]
  | _ => rfl

theorem ignoresOrder_caseOf? (cases : List α) (name : α → String) :
    IgnoresOrder (caseOf? cases name) :=
  ignoresOrder_caseName?.bind _

theorem rel_lookup_zip {fields fields' : List (Option Json)}
    (h : List.Forall₂ (Option.Rel Rearranged) fields fields') (name : String) :
    Option.Rel Rearranged ((names.zip fields).lookup name).join
      ((names.zip fields').lookup name).join := by
  induction h generalizing names with
  | nil =>
      rw [List.zip_nil_right]
      exact .none
  | cons hfield _ ih =>
      cases names with
      | nil => exact .none
      | cons first names =>
          rw [List.zip_cons_cons, List.zip_cons_cons, List.lookup_cons, List.lookup_cons]
          cases name == first with
          | true => exact hfield
          | false => exact ih

theorem rel_fields? (h : Rearranged data data') : Option.Rel
    (List.Forall₂ (Option.Rel Rearranged)) (data.fields? names) (data'.fields? names) := by
  cases h with
  | @object members members' hnodup hnames h =>
      have hmembers : Rearranged (object members) (object members') := .object hnodup hnames h
      refine .some (List.forall₂_map_left_iff.2 (List.forall₂_map_right_iff.2 ?_))
      exact List.forall₂_same.2 fun name _ => hmembers.rel_lookup name
  | @array items items' hlength h =>
      rw [fields?, fields?, hlength]
      split
      · refine .some (List.forall₂_map_left_iff.2 (List.forall₂_map_right_iff.2 ?_))
        exact (List.forall₂_iff_zip.2 ⟨hlength, h⟩).imp fun _ _ => .some
      · exact .none
  | _ => exact .none

theorem Rearranged.rel_field? (h : Rearranged data data') (names : List String) (name : String) :
    Option.Rel Rearranged (data.field? names name) (data'.field? names name) :=
  optionRel_bind (rel_fields? h) fun _ _ hfields => rel_lookup_zip hfields name

theorem Rearranged.exists_field? {name : String} {value : Json} (h : Rearranged data data')
    (hfield : data.field? names name = some value) :
    ∃ value', data'.field? names name = some value' ∧ Rearranged value value' := by
  have hrel := h.rel_field? names name
  rw [hfield] at hrel
  generalize data'.field? names name = found at hrel
  cases hrel with
  | some hvalue => exact ⟨_, rfl, hvalue⟩

theorem IgnoresOrder.bind_field? (h : IgnoresOrder read?) (hdata : Rearranged data data')
    (name : String) :
    (data.field? names name).bind read? = (data'.field? names name).bind read? := by
  have hfield := hdata.rel_field? names name
  generalize data.field? names name = x, data'.field? names name = y at hfield
  cases hfield with
  | none => rfl
  | some hvalue => exact h hvalue

/-- The same case, with contents that are rearranged. -/
inductive SameCase : String × Option Json → String × Option Json → Prop
  | mk (name : String) {content content' : Option Json}
      (h : Option.Rel Rearranged content content') : SameCase (name, content) (name, content')

/-- An array of two items is a tag and its content; no other array is tagged. -/
theorem Rearranged.rel_tagged?_array {items items' : List Json}
    (h : List.Forall₂ Rearranged items items') (tag content : String) :
    Option.Rel SameCase ((Json.array items).tagged? tag content)
      ((Json.array items').tagged? tag content) := by
  cases h with
  | nil => exact .none
  | @cons name name' _ _ hname hrest =>
      cases hrest with
      | nil => exact .none
      | cons hvalue hmore =>
          cases hmore with
          | nil =>
              rw [tagged?, tagged?, ignoresOrder_string? hname]
              cases name'.string? with
              | none => exact .none
              | some name => exact .some (.mk name (.some hvalue))
          | cons _ _ => exact .none

theorem Rearranged.rel_tagged? (h : Rearranged data data') (tag content : String) :
    Option.Rel SameCase (data.tagged? tag content) (data'.tagged? tag content) := by
  cases h with
  | @object members members' hnodup hnames h =>
      have hmembers : Rearranged (.object members) (.object members') := .object hnodup hnames h
      have htag := hmembers.rel_lookup tag
      rw [tagged?, tagged?]
      generalize members.lookup tag = x, members'.lookup tag = y at htag
      cases htag with
      | none => exact .none
      | @some value value' hvalue =>
          rw [Option.bind_eq_bind, Option.bind_eq_bind, Option.bind_some, Option.bind_some,
            ignoresOrder_caseName? hvalue]
          cases value'.caseName? with
          | none => exact .none
          | some name => exact .some (.mk name (hmembers.rel_lookup content))
  | @array items items' hlength h =>
      exact rel_tagged?_array (List.forall₂_iff_zip.2 ⟨hlength, h⟩) tag content
  | _ => exact .none

theorem Rearranged.bind_tagged?_eq {read? : String × Option Json → Option α}
    (hread : ∀ {found found'}, SameCase found found' → read? found = read? found')
    (h : Rearranged data data') (tag content : String) :
    (data.tagged? tag content).bind read? = (data'.tagged? tag content).bind read? := by
  have htagged := h.rel_tagged? tag content
  generalize data.tagged? tag content = x, data'.tagged? tag content = y at htagged
  cases htagged with
  | none => rfl
  | some hcase => exact hread hcase

end Readers

end EntityQuery.Json
