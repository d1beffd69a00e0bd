import Mathlib.Data.List.Forall2
import EntityQuery.Json

/-!
# Fields of structures

A structure is stored as an object or as an array of its fields in order, and its reader is handed
the fields in one list.  Of the reader of a structure it is enough to know what it makes of each
field by name, however the structure is spelled.  So every reader is put as a conjunction over its
fields, from which reading can be followed in either direction.
-/

namespace EntityQuery

theorem mapM_eq_some_iff {α β : Type} {f : α → Option β} {as : List α} {bs : List β} :
    as.mapM f = some bs ↔ List.Forall₂ (fun a b => f a = some b) as bs := by
  induction as generalizing bs with
  | nil => cases bs <;> simp
  | cons a as ih =>
      rw [List.mapM_cons, List.forall₂_cons_left_iff]
      simp only [Option.bind_eq_bind, Option.bind_eq_some_iff, ← ih]
      constructor
      · rintro ⟨b, hb, bs, hbs, h⟩
        cases h
        exact ⟨b, bs, hb, hbs, rfl⟩
      · rintro ⟨b, bs, hb, hbs, rfl⟩
        exact ⟨b, hb, bs, hbs, rfl⟩

namespace Json

variable {names : List String} {name : String} {data value : Json} {fields : List (Option Json)}

/-- The data of a field of a structure, unless it is left out. -/
def field? (names : List String) (name : String) (data : Json) : Option Json :=
  (data.fields? names).bind fun fields => ((names.zip fields).lookup name).join

theorem length_of_fields? (h : data.fields? names = some fields) :
    fields.length = names.length := by
  cases data with
  | array items =>
      rw [fields?] at h
      split at h <;> cases h
      rwa [List.length_map]
  | object members =>
      cases h
      rw [List.length_map]
  | _ => cases h

theorem map_lookup_zip {α : Type} {as : List α} (hnames : names.Nodup)
    (hlength : as.length = names.length) :
    names.map (fun name => (names.zip as).lookup name) = as.map some := by
  induction names generalizing as with
  | nil => rw [List.length_eq_zero_iff.1 hlength]; rfl
  | cons name names ih =>
      cases as with
      | nil => cases hlength
      | cons a as =>
          obtain ⟨hname, hrest⟩ := List.nodup_cons.1 hnames
          have hlater : names.map (fun other => ((name, a) :: names.zip as).lookup other) =
              names.map (fun other => (names.zip as).lookup other) := by
            refine List.map_congr_left fun other hother => ?_
            have hne : other ≠ name := fun h => hname (h ▸ hother)
            rw [List.lookup_cons, beq_eq_false_iff_ne.2 hne]
          rw [List.zip_cons_cons, List.map_cons, hlater, ih hrest (Nat.succ.inj hlength)]
          simp

/-- The fields of a structure are those of its names. -/
theorem fields?_eq_map (hnames : names.Nodup) (h : data.fields? names = some fields) :
    fields = names.map fun name => data.field? names name := by
  have hlookup := map_lookup_zip hnames (length_of_fields? h)
  have hfield : (fun name => data.field? names name) =
      fun name => ((names.zip fields).lookup name).join := by
    funext name
    rw [field?, h, Option.bind_some]
  calc
    fields = (fields.map some).map Option.join := by
      rw [List.map_map]
      exact (List.map_id fields).symm
    _ = names.map fun name => data.field? names name := by
      rw [← hlookup, List.map_map, hfield]
      rfl

theorem field?_eq {field : Option Json} (hfields : data.fields? names = some fields)
    (hname : (names.zip fields).lookup name = some field) : data.field? names name = field := by
  rw [field?, hfields, Option.bind_some, hname]
  rfl

theorem bind_field?_eq {α : Type} {read? : Json → Option α} {a : α}
    (hfields : data.fields? names = some fields)
    (hname : (names.zip fields).lookup name = some (some value)) (h : read? value = some a) :
    (data.field? names name).bind read? = some a := by
  rw [field?_eq hfields hname]
  exact h

/-- Data that has one of the fields is read as a structure. -/
theorem fields?_of_field? (hnames : names.Nodup) (h : data.field? names name = some value) :
    data.fields? names = some (names.map fun name => data.field? names name) := by
  obtain ⟨fields, hfields, -⟩ := Option.bind_eq_some_iff.1 h
  rw [hfields, ← fields?_eq_map hnames hfields]

/-! ## What is written -/

theorem tagged?_ofTagged {tag content : String} (h : content ≠ tag) (name : String) (value : Json) :
    (ofTagged tag content name value).tagged? tag content = some (name, some value) := by
  have hlookup : List.lookup content [(tag, string name), (content, value)] = some value := by
    simp [List.lookup_cons, beq_eq_false_iff_ne.2 h]
  simp [ofTagged, tagged?, hlookup, caseName?]

theorem mapM_map_of_inverse {α β : Type} {write : α → β} {read? : β → Option α} {as : List α}
    (h : ∀ a ∈ as, read? (write a) = some a) : (as.map write).mapM read? = some as := by
  induction as with
  | nil => rfl
  | cons a as ih =>
      obtain ⟨ha, has⟩ := List.forall_mem_cons.1 h
      rw [List.map_cons, List.mapM_cons, ha, ih has]
      rfl

theorem optional?_string (s : Option String) :
    optional? string? (some (ofOption string s)) = some s := by
  cases s <;> rfl

theorem listOf?_array {α : Type} (read? : Json → Option α) (items : List Json) :
    (array items).listOf? read? = items.mapM read? := rfl

/-! ## Heights -/

theorem height_le_of_mem_items {item : Json} {items : List Json} (h : item ∈ items) :
    item.height ≤ heightOfItems items := by
  induction items with
  | nil => exact absurd h List.not_mem_nil
  | cons first items ih =>
      rw [heightOfItems]
      rcases List.mem_cons.1 h with rfl | h
      · exact Nat.le_max_left _ _
      · exact Nat.le_trans (ih h) (Nat.le_max_right _ _)

theorem height_le_of_mem_members {name : String} {value : Json} {members : List (String × Json)}
    (h : (name, value) ∈ members) : value.height ≤ heightOfMembers members := by
  induction members with
  | nil => exact absurd h List.not_mem_nil
  | cons first members ih =>
      obtain ⟨name', value'⟩ := first
      rw [heightOfMembers]
      rcases List.mem_cons.1 h with h | h
      · cases h
        exact Nat.le_max_left _ _
      · exact Nat.le_trans (ih h) (Nat.le_max_right _ _)

/-- An item in a member of an object leaves room for the object. -/
theorem height_lt_of_mem (name : String) {item : Json} {items : List Json}
    {members : List (String × Json)} (hmember : (name, array items) ∈ members) (h : item ∈ items) :
    item.height < (object members).height := by
  have hitems := height_le_of_mem_items h
  have harray := height_le_of_mem_members hmember
  have hobject : (object members).height = heightOfMembers members + 1 := by rw [height]
  rw [height] at harray
  omega

end Json

end EntityQuery
