import Mathlib.Data.List.Induction
import Mathlib.Data.List.Perm.Subperm
import EntityQuery.Proofs.Equality
import EntityQuery.Table

/-!
# Laws of tables

A table is known by what it answers to a name and by the order of its names.  Writing a name changes
the answer to that name alone, and the order only if the name is new.  So after any number of writes
a table lists the names in the order in which they first occurred, and answers each with the value
that was written to it last.

`==` on tables asks for the same number of names and looks the names of one table up in the other.
As no name occurs twice this comes to the same as equal answers to every name.
-/

namespace EntityQuery.Table

variable {α : Type} {table a b c : Table α} {name other : String} {value : α}

/-! ## Names and values -/

theorem get?_eq_none_iff : table.get? name = none ↔ name ∉ table.keys := by
  rw [get?, List.lookup_eq_none_iff, keys, List.mem_map]
  constructor
  · rintro h ⟨entry, hentry, rfl⟩
    simpa using h entry hentry
  · intro h entry hentry
    have hne : entry.1 ≠ name := fun heq => h ⟨entry, hentry, heq⟩
    simpa using hne.symm

/-- The entry of a name is the only one that it has. -/
theorem get?_eq_some_iff : table.get? name = some value ↔ (name, value) ∈ table.entries := by
  obtain ⟨entries, nodup⟩ := table
  change entries.lookup name = some value ↔ (name, value) ∈ entries
  induction entries with
  | nil => simp
  | cons entry entries ih =>
      obtain ⟨first, old⟩ := entry
      obtain ⟨hnew, hrest⟩ := List.nodup_cons.1 nodup
      by_cases h : name = first
      · subst h
        have hlater : (name, value) ∉ entries := fun hmem =>
          hnew (List.mem_map.2 ⟨_, hmem, rfl⟩)
        simp [hlater, eq_comm]
      · simp [List.lookup_cons, beq_eq_false_iff_ne.2 h, ih hrest, h]

theorem lookup_eq_some_iff {entries : List (String × α)} (hnodup : (entries.map Prod.fst).Nodup) :
    entries.lookup name = some value ↔ (name, value) ∈ entries :=
  @get?_eq_some_iff α ⟨entries, hnodup⟩ name value

theorem lookup_map {β : Type} (f : α → β) (entries : List (String × α)) (name : String) :
    (entries.map fun entry => (entry.1, f entry.2)).lookup name =
      (entries.lookup name).map f := by
  induction entries with
  | nil => rfl
  | cons entry entries ih =>
      obtain ⟨first, a⟩ := entry
      rw [List.map_cons, List.lookup_cons, List.lookup_cons]
      cases name == first with
      | true => rfl
      | false => exact ih

theorem mem_keys_iff : name ∈ table.keys ↔ ∃ value, table.get? name = some value := by
  rw [← Option.ne_none_iff_exists', ne_eq, get?_eq_none_iff, not_not]

/-! ## Writing -/

theorem get?_insert (table : Table α) (name other : String) (value : α) :
    (table.insert name value).get? other = if other = name then some value else table.get? other := by
  obtain ⟨entries, nodup⟩ := table
  change (put name value entries).lookup other = if other = name then _ else entries.lookup other
  clear nodup
  induction entries with
  | nil => by_cases h : other = name <;> simp [put, h]
  | cons entry entries ih =>
      obtain ⟨first, old⟩ := entry
      by_cases hfirst : first = name
      · subst hfirst
        by_cases h : other = first
        · simp [put, h]
        · simp [put, h, List.lookup_cons, beq_eq_false_iff_ne.2 h]
      · by_cases h : other = first
        · subst h
          simp [put, hfirst]
        · simpa [put, hfirst, List.lookup_cons, beq_eq_false_iff_ne.2 h] using ih

theorem keys_insert (table : Table α) (name : String) (value : α) :
    (table.insert name value).keys =
      if name ∈ table.keys then table.keys else table.keys ++ [name] := by
  obtain ⟨entries, nodup⟩ := table
  change (put name value entries).map Prod.fst =
    if name ∈ entries.map Prod.fst then entries.map Prod.fst else entries.map Prod.fst ++ [name]
  clear nodup
  induction entries with
  | nil => simp [put]
  | cons entry entries ih =>
      by_cases h : entry.1 = name
      · simp [put, h]
      · rw [put, if_neg h, List.map_cons, ih, List.map_cons]
        by_cases hmem : name ∈ entries.map Prod.fst <;> simp [hmem, Ne.symm h]

def insertAll (table : Table α) (entries : List (String × α)) : Table α :=
  entries.foldl (fun table entry => table.insert entry.1 entry.2) table

/-- The value that comes last to a name. -/
def lastValue? (entries : List (String × α)) (name : String) : Option α :=
  ((entries.filter fun entry => entry.1 = name).map Prod.snd).getLast?

theorem insertAll_append (table : Table α) (entries later : List (String × α)) :
    table.insertAll (entries ++ later) = (table.insertAll entries).insertAll later :=
  List.foldl_append

theorem get?_insertAll (table : Table α) (entries : List (String × α)) (name : String) :
    (table.insertAll entries).get? name = (lastValue? entries name).or (table.get? name) := by
  induction entries using List.reverseRecOn with
  | nil => rfl
  | append_singleton entries entry ih =>
      have hstep : (table.insertAll (entries ++ [entry])).get? name =
          ((table.insertAll entries).insert entry.1 entry.2).get? name := by
        rw [insertAll_append]
        rfl
      rw [hstep, get?_insert, ih]
      by_cases h : entry.1 = name
      · simp [lastValue?, h]
      · simp [lastValue?, h, Ne.symm h]

theorem lastValue?_eq_lookup {entries : List (String × α)}
    (hnodup : (entries.map Prod.fst).Nodup) :
    lastValue? entries name = entries.lookup name := by
  induction entries with
  | nil => rfl
  | cons entry entries ih =>
      obtain ⟨first, value⟩ := entry
      obtain ⟨hnew, hrest⟩ := List.nodup_cons.1 hnodup
      by_cases h : name = first
      · subst h
        have hnone : (entries.filter fun entry => entry.1 = name) = [] :=
          List.filter_eq_nil_iff.2 fun entry hentry heq =>
            hnew (List.mem_map.2 ⟨entry, hentry, of_decide_eq_true heq⟩)
        simp [lastValue?, hnone]
      · have hlater := ih hrest
        rw [lastValue?] at hlater ⊢
        simp [List.lookup_cons, beq_eq_false_iff_ne.2 h, Ne.symm h, hlater]

/-- A table of entries that name nothing twice. -/
theorem get?_ofList {entries : List (String × α)} (hnodup : (entries.map Prod.fst).Nodup)
    (name : String) :
    (ofList entries).get? name = entries.lookup name := by
  have hget := get?_insertAll empty entries name
  rw [lastValue?_eq_lookup hnodup] at hget
  exact hget.trans (Option.or_none)

theorem keys_insertAll_empty (entries : List (String × α)) :
    (insertAll empty entries).keys = (entries.map Prod.fst).eraseDups := by
  induction entries using List.reverseRecOn with
  | nil => rfl
  | append_singleton entries entry ih =>
      have hstep : (insertAll empty (entries ++ [entry])).keys =
          ((insertAll empty entries).insert entry.1 entry.2).keys := by
        rw [insertAll_append]
        rfl
      rw [hstep, keys_insert, ih, List.map_append, List.eraseDups_append]
      generalize entries.map Prod.fst = names
      by_cases h : entry.1 ∈ names <;> simp [List.removeAll, List.eraseDups_cons, h]

/-! ## Equality -/

variable [BEq α]

/-- Equal tables answer every name alike. -/
theorem equal_iff : Equal a b ↔ ∀ name, Option.Rel Equal (a.get? name) (b.get? name) := by
  have hsame : Equal a b ↔ a.entries.length = b.entries.length ∧
      ∀ entry ∈ a.entries, ∃ other, b.get? entry.1 = some other ∧ Equal entry.2 other := by
    change same a b = true ↔ _
    rw [same, Bool.and_eq_true, decide_eq_true_eq, List.all_eq_true]
    refine and_congr_right' (forall₂_congr fun entry _ => ?_)
    obtain ⟨name, value⟩ := entry
    cases h : b.get? name <;> simp [h]
  rw [hsame]
  constructor
  · rintro ⟨hlength, hentries⟩ name
    have hsubset : a.keys ⊆ b.keys := fun name hname => by
      obtain ⟨value, hvalue⟩ := mem_keys_iff.1 hname
      obtain ⟨other, hother, -⟩ := hentries _ (get?_eq_some_iff.1 hvalue)
      exact mem_keys_iff.2 ⟨other, hother⟩
    -- No name occurs twice, so that as many names cannot be others.
    have hperm : a.keys.Perm b.keys :=
      (a.nodup.subperm hsubset).perm_of_length_le (by simp [keys, hlength])
    cases hvalue : a.get? name with
    | none =>
        have hnone : b.get? name = none :=
          get?_eq_none_iff.2 fun hmem => get?_eq_none_iff.1 hvalue (hperm.mem_iff.2 hmem)
        rw [hnone]
        exact .none
    | some value =>
        obtain ⟨other, hother, hequal⟩ := hentries _ (get?_eq_some_iff.1 hvalue)
        rw [hother]
        exact .some hequal
  · intro hrel
    have hperm : a.keys.Perm b.keys := (List.perm_ext_iff_of_nodup a.nodup b.nodup).2 fun name => by
      change name ∈ a.keys ↔ name ∈ b.keys
      have hanswer := hrel name
      rw [mem_keys_iff, mem_keys_iff]
      generalize a.get? name = x, b.get? name = y at hanswer
      cases hanswer <;> simp
    refine ⟨by simpa [keys] using hperm.length_eq, fun entry hentry => ?_⟩
    have hanswer := hrel entry.1
    rw [get?_eq_some_iff.2 hentry] at hanswer
    generalize b.get? entry.1 = answer at hanswer
    cases hanswer with
    | some h => exact ⟨_, rfl, h⟩

instance [EquivBEq α] : EquivBEq (Table α) where
  rfl := equal_iff.2 fun _ => optionRel_refl _
  symm h := equal_iff.2 fun name => optionRel_symm (equal_iff.1 h name)
  trans h h' := equal_iff.2 fun name => optionRel_trans (equal_iff.1 h name) (equal_iff.1 h' name)

end EntityQuery.Table
