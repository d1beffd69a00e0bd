import EntityQuery.Proofs.Table
import EntityQuery.Record.Call

/-!
# Records as their writes

A record holds two tables, and every call writes to one of them: an attribute under its own name or
under the name of a joined attribute, or a display text.  So each table is the table of the writes
to it, in their order, whatever calls stand between them.

The name of a joined attribute is its alias, a point and its own name.  An alias without a point is
what stands before the first point of that name, so that such names are equal only if the aliases
and the attributes are.
-/

namespace EntityQuery

namespace Record

theorem toList_aliasedName (aliasName attr : String) :
    (aliasedName aliasName attr).toList = aliasName.toList ++ '.' :: attr.toList := by
  simp [aliasedName]

/-- An alias without a point is what stands before the first point. -/
theorem takeWhile_aliasedName {aliasName : String} (h : '.' ∉ aliasName.toList) (attr : String) :
    (aliasedName aliasName attr).toList.takeWhile (· ≠ '.') = aliasName.toList := by
  have hchars : ∀ c ∈ aliasName.toList, decide (c ≠ '.') = true := fun c hc =>
    decide_eq_true fun hpoint => h (hpoint ▸ hc)
  rw [toList_aliasedName, List.takeWhile_append_of_pos hchars]
  simp

theorem aliasedName_inj {aliasName aliasName' attr attr' : String}
    (h : '.' ∉ aliasName.toList) (h' : '.' ∉ aliasName'.toList) :
    aliasedName aliasName attr = aliasedName aliasName' attr' ↔
      aliasName = aliasName' ∧ attr = attr' := by
  constructor
  · intro heq
    have hbefore : aliasName = aliasName' := by
      rw [← String.toList_inj, ← takeWhile_aliasedName h attr, heq, takeWhile_aliasedName h']
    subst hbefore
    have hchars := congrArg String.toList heq
    rw [toList_aliasedName, toList_aliasedName] at hchars
    exact ⟨rfl, String.toList_inj.1 (List.cons.inj (List.append_cancel_left hchars)).2⟩
  · rintro ⟨rfl, rfl⟩
    rfl

end Record

namespace RecordCall

open Record (aliasedName)

variable {calls : List RecordCall}

/-! ## Writes -/

/-- The attribute that a call writes, with its value. -/
def attribute? : RecordCall → Option (String × AttributeValue)
  | withAttribute name value => some (name, value)
  | withAliased aliasName entity attr value =>
      some (aliasedName aliasName attr, .aliased entity attr value)
  | withFormatted .. => none

/-- The attribute whose display text a call writes, with the text. -/
def text? : RecordCall → Option (String × String)
  | withFormatted name text => some (name, text)
  | _ => none

def attributes (calls : List RecordCall) : List (String × AttributeValue) :=
  calls.filterMap attribute?

def texts (calls : List RecordCall) : List (String × String) := calls.filterMap text?

/-- Every call writes to one table and leaves the other as it is. -/
theorem applyEach_eq (calls : List RecordCall) (record : Record) : applyEach calls record =
    { record with
      attributes := record.attributes.insertAll (attributes calls)
      formatted := record.formatted.insertAll (texts calls) } := by
  induction calls generalizing record with
  | nil => rfl
  | cons call calls ih =>
      cases call with
      | withAttribute name value => exact ih _
      | withAliased aliasName entity attr value => exact ih _
      | withFormatted name text => exact ih _

theorem attributes_filter (calls : List RecordCall) :
    attributes (calls.filter (·.attribute?.isSome)) = attributes calls := by
  rw [attributes, attributes, List.filterMap_filter]
  refine List.filterMap_congr fun call _ => ?_
  cases call <;> rfl

theorem texts_filter (calls : List RecordCall) :
    texts (calls.filter (·.text?.isSome)) = texts calls := by
  rw [texts, texts, List.filterMap_filter]
  refine List.filterMap_congr fun call _ => ?_
  cases call <;> rfl

/-! ## Joined attributes -/

/-- What a call writes to a joined attribute, as far as that can be told from the alias and the
name of the attribute. -/
def column? (aliasName attr : String) : RecordCall → Option AttributeValue
  | withAttribute name value => if name = aliasedName aliasName attr then some value else none
  | withAliased aliasName' entity attr' value =>
      if aliasName' = aliasName ∧ attr' = attr then some (.aliased entity attr' value) else none
  | withFormatted .. => none

/-- A call whose alias, if it has one, is without a point. -/
def DotFree : RecordCall → Prop
  | withAliased aliasName .. => '.' ∉ aliasName.toList
  | _ => True

/-- Calls without points in their aliases write to the same joined attribute only if they name the
same one. -/
theorem lastValue?_aliasedName {aliasName : String} (h : '.' ∉ aliasName.toList)
    (hcalls : ∀ call ∈ calls, call.DotFree) (attr : String) :
    Table.lastValue? (attributes calls) (aliasedName aliasName attr) =
      (calls.filterMap (column? aliasName attr)).getLast? := by
  rw [Table.lastValue?, attributes, List.filter_filterMap, List.map_filterMap]
  congr 1
  -- Call by call: the name that is compared on the left is the alias and the attribute of the right.
  refine List.filterMap_congr fun call hcall => ?_
  cases call with
  | withAttribute name value =>
      by_cases hname : name = aliasedName aliasName attr <;> simp [attribute?, column?, hname]
  | withFormatted name text => rfl
  | withAliased aliasName' entity attr' value =>
      have hname : aliasedName aliasName' attr' = aliasedName aliasName attr ↔
          aliasName' = aliasName ∧ attr' = attr := Record.aliasedName_inj (hcalls _ hcall) h
      rw [column?, if_congr hname.symm rfl rfl]
      by_cases hsame : aliasedName aliasName' attr' = aliasedName aliasName attr <;>
        simp [attribute?, hsame]

/-- Of two writes to joined attributes whose aliases have no point, the second replaces the first
if both name the same attribute under the same alias, and otherwise leaves it as it is. -/
theorem attribute?_withAliased {aliasName aliasName' : String} (h : '.' ∉ aliasName.toList)
    (h' : '.' ∉ aliasName'.toList) (record : Record) (entity entity' attr attr' : String)
    (value value' : AttributeValue) :
    ((record.withAliased aliasName entity attr value).withAliased aliasName' entity' attr'
        value').attribute? (aliasedName aliasName attr) =
      some (if aliasName = aliasName' ∧ attr = attr' then .aliased entity' attr' value'
        else .aliased entity attr value) := by
  have hget : ((record.withAliased aliasName entity attr value).withAliased aliasName' entity' attr'
      value').attribute? (aliasedName aliasName attr) =
        ((record.attributes.insert (aliasedName aliasName attr)
          (.aliased entity attr value)).insert (aliasedName aliasName' attr')
            (.aliased entity' attr' value')).get? (aliasedName aliasName attr) := rfl
  rw [hget, Table.get?_insert, Table.get?_insert, if_pos rfl,
    if_congr (Record.aliasedName_inj h h') rfl rfl]
  split <;> rfl

/-! ## Records as their writes -/

/-- What a record shows of the calls that filled it. -/
structure Shows (calls : List RecordCall) (record : Record) : Prop where
  keys_nodup : record.attributes.keys.Nodup
  /-- The attributes stand in the order in which they were first written. -/
  keys : record.attributes.keys = ((attributes calls).map Prod.fst).eraseDups
  /-- An attribute has the value that was written to it last. -/
  attribute? (name : String) :
    record.attribute? name = Table.lastValue? (attributes calls) name
  formattedKeys : record.formatted.keys = ((texts calls).map Prod.fst).eraseDups
  formatted? (name : String) : record.formatted? name = Table.lastValue? (texts calls) name
  /-- Without the calls that write texts the attributes are the same. -/
  attributesAlone : record.attributes =
    (applyEach (calls.filter (·.attribute?.isSome)) record.cleared).attributes
  /-- Without the calls that write attributes the texts are the same. -/
  formattedAlone : record.formatted =
    (applyEach (calls.filter (·.text?.isSome)) record.cleared).formatted
  getAliased? (reading : Reading) (aliasName attr : String) :
    record.getAliased? reading aliasName attr =
      (Table.lastValue? (attributes calls) (aliasedName aliasName attr)).bind reading.read?
  /-- Without points in aliases, a joined attribute has the value that was written last under its
  alias and its name. -/
  getAliased?_of_dotFree (hcalls : ∀ call ∈ calls, call.DotFree) (aliasName : String)
    (h : '.' ∉ aliasName.toList) (reading : Reading) (attr : String) :
    record.getAliased? reading aliasName attr =
      (calls.filterMap (column? aliasName attr)).getLast?.bind reading.read?

theorem attribute?_applyEach_new (calls : List RecordCall) (logicalName : String) (id : Uuid)
    (name : String) : (applyEach calls (.new logicalName id)).attribute? name =
      Table.lastValue? (attributes calls) name := by
  rw [applyEach_eq, Record.attribute?, Table.get?_insertAll]
  exact Option.or_none

/-- A new record shows the calls that fill it, each in the table that it writes to.  Joined
attributes with different aliases do not write over each other as long as no alias has a point,
whatever their names. -/
theorem shows_applyEach (logicalName : String) (id : Uuid) (calls : List RecordCall) :
    Shows calls (applyEach calls (.new logicalName id)) ∧
      ∀ (record : Record) (aliasName aliasName' entity entity' attr attr' : String)
        (value value' : AttributeValue), '.' ∉ aliasName.toList → '.' ∉ aliasName'.toList →
        ((record.withAliased aliasName entity attr value).withAliased aliasName' entity' attr'
            value').attribute? (aliasedName aliasName attr) =
          some (if aliasName = aliasName' ∧ attr = attr' then .aliased entity' attr' value'
            else .aliased entity attr value) := by
  have hread (reading : Reading) (aliasName attr : String) :
      (applyEach calls (.new logicalName id)).getAliased? reading aliasName attr =
        (Table.lastValue? (attributes calls) (aliasedName aliasName attr)).bind reading.read? := by
    rw [Record.getAliased?, Record.get?, attribute?_applyEach_new]
  refine ⟨?_, fun record _ _ _ _ _ _ _ _ h h' => attribute?_withAliased h h' record _ _ _ _ _ _⟩
  exact {
    keys_nodup := (applyEach calls (.new logicalName id)).attributes.nodup
    keys := by
      rw [applyEach_eq]
      exact Table.keys_insertAll_empty _
    attribute? := attribute?_applyEach_new calls logicalName id
    formattedKeys := by
      rw [applyEach_eq]
      exact Table.keys_insertAll_empty _
    formatted? := fun name => by
      rw [applyEach_eq, Record.formatted?, Table.get?_insertAll]
      exact Option.or_none
    attributesAlone := by
      rw [applyEach_eq, applyEach_eq, attributes_filter]
      rfl
    formattedAlone := by
      rw [applyEach_eq, applyEach_eq, texts_filter]
      rfl
    getAliased? := hread
    getAliased?_of_dotFree := fun hcalls aliasName h reading attr => by
      rw [hread, lastValue?_aliasedName h hcalls] }

def visitCalls : List RecordCall :=
  [.withAliased "owner" "user" "address.city" (.scalar (.string "Bern")),
    .withAttribute "topic" (.scalar (.string "Audit")), .withFormatted "topic" "An audit",
    .withAliased "site" "account" "address.city" (.scalar (.string "Basel")),
    .withAliased "owner" "user" "address.city" (.scalar (.string "Chur"))]

theorem shows_applyEach_visitCalls : (∀ call ∈ visitCalls, call.DotFree) ∧
    '.' ∉ "owner".toList ∧
      (applyEach visitCalls (.new "visit" .nil)).getAliased? .string "owner" "address.city" =
        some "Chur" := by
  have hcalls : ∀ call ∈ visitCalls, call.DotFree := by
    simp [visitCalls, DotFree]
  have halias : '.' ∉ "owner".toList := by decide
  refine ⟨hcalls, halias, ?_⟩
  rw [(shows_applyEach "visit" .nil visitCalls).1.getAliased?_of_dotFree hcalls "owner" halias
    .string "address.city"]
  rfl

end RecordCall

end EntityQuery
