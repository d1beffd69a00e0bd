import EntityQuery.Proofs.Plan.Order
import EntityQuery.Proofs.Record.Equality

/-!
# Stored records

A record is stored as an object, and its attributes and display texts as objects in it, with a
member for each name.  These come back in any order, which records do not keep: what was stored and
rearranged is read back up to `==`.  As for plans, the one value that is lost is a floating point
number that is not finite, however deep the aliases around it, and with it the record is refused.
-/

namespace EntityQuery

open Json

/-! ## References -/

namespace EntityReference

def fieldNames : List String := ["logical_name", "id", "name"]

theorem ofJson?_eq_some_iff {data : Json} {target : EntityReference} :
    ofJson? data = some target ↔
      (data.field? fieldNames "logical_name").bind string? = some target.logicalName ∧
        (data.field? fieldNames "id").bind Uuid.ofJson? = some target.id ∧
        optional? string? (data.field? fieldNames "name") = some target.name := by
  constructor
  · intro h
    obtain ⟨fields, hfields, h⟩ := Option.bind_eq_some_iff.1 h
    split at h
    · simp only [Option.bind_eq_bind, Option.bind_eq_some_iff, Option.pure_def, Option.some.injEq]
        at h
      obtain ⟨_, hlogicalName, _, hid, _, hname, rfl⟩ := h
      exact ⟨bind_field?_eq hfields rfl hlogicalName, bind_field?_eq hfields rfl hid,
        (congrArg _ (field?_eq hfields rfl)).trans hname⟩
    · cases h
  · simp only [Option.bind_eq_some_iff]
    rintro ⟨⟨_, hlogicalName, readLogicalName⟩, ⟨_, hid, readId⟩, readName⟩
    have hfields := fields?_of_field? (by decide) hid
    simp only [fieldNames, List.map_cons, List.map_nil] at *
    simp [ofJson?, hfields, hlogicalName, hid, readLogicalName, readId, readName]

theorem ofJson?_toJson (target : EntityReference) : ofJson? target.toJson = some target := by
  have hid : target.toJson.field? fieldNames "id" = some target.id.toJson := rfl
  have hname : target.toJson.field? fieldNames "name" = some (.ofOption .string target.name) := rfl
  rw [ofJson?_eq_some_iff, hid, hname, Option.bind_some]
  exact ⟨rfl, target.id.ofJson?_toJson, optional?_string _⟩

theorem ignoresOrder_ofJson? : IgnoresOrder ofJson? := by
  intro data data' h
  have hname := ignoresOrder_string?.optional? (h.rel_field? fieldNames "name")
  ext target
  rw [ofJson?_eq_some_iff, ofJson?_eq_some_iff, ignoresOrder_string?.bind_field? h,
    Uuid.ignoresOrder_ofJson?.bind_field? h, hname]

theorem rearranged_toJson_self (target : EntityReference) :
    Rearranged target.toJson target.toJson := by
  have hnodup : fieldNames.Nodup := by decide
  refine Rearranged.object_self hnodup ?_
  simpa using ⟨.string _, .string _, Rearranged.ofOption_string_self _⟩

end EntityReference

/-! ## Attribute values -/

namespace AttributeValue

/-- A value that is no number, or a finite one, however deep the aliases around it. -/
def Finite : AttributeValue → Prop
  | scalar value => value.Finite
  | aliased _ _ value => value.Finite
  | _ => True

instance decidableFinite : (value : AttributeValue) → Decidable value.Finite
  | scalar value => inferInstanceAs (Decidable value.Finite)
  | aliased _ _ value => decidableFinite value
  | reference _ | optionSet _ | money _ => inferInstanceAs (Decidable True)

def aliasedNames : List String := ["entity", "attribute", "value"]

def aliased? (read? : Json → Option AttributeValue) (content : Json) : Option AttributeValue := do
  match ← content.fields? aliasedNames with
  | [some entity, some attr, some value] =>
      return aliased (← entity.string?) (← attr.string?) (← read? value)
  | _ => none

theorem aliased?_eq_some_iff {read? : Json → Option AttributeValue} {content : Json}
    {value : AttributeValue} : aliased? read? content = some value ↔
      ∃ entity attr inner, value = aliased entity attr inner ∧
        (content.field? aliasedNames "entity").bind string? = some entity ∧
        (content.field? aliasedNames "attribute").bind string? = some attr ∧
        (content.field? aliasedNames "value").bind read? = some inner := by
  constructor
  · intro h
    obtain ⟨fields, hfields, h⟩ := Option.bind_eq_some_iff.1 h
    split at h
    · simp only [Option.bind_eq_bind, Option.bind_eq_some_iff, Option.pure_def, Option.some.injEq]
        at h
      obtain ⟨entity, hentity, attr, hattr, inner, hinner, rfl⟩ := h
      exact ⟨entity, attr, inner, rfl, bind_field?_eq hfields rfl hentity,
        bind_field?_eq hfields rfl hattr, bind_field?_eq hfields rfl hinner⟩
    · cases h
  · simp only [Option.bind_eq_some_iff]
    rintro ⟨entity, attr, inner, rfl, ⟨_, hentity, readEntity⟩, ⟨_, hattr, readAttr⟩, _, hinner,
      readInner⟩
    have hfields := fields?_of_field? (by decide) hentity
    simp only [aliasedNames, List.map_cons, List.map_nil] at *
    simp [aliased?, aliasedNames, hfields, hentity, hattr, hinner, readEntity, readAttr, readInner]

def ofContent? (read? : Json → Option AttributeValue) (kind : String) (content : Json) :
    Option AttributeValue :=
  match kind with
  | "scalar" => (Value.ofJson? content).map scalar
  | "reference" => (EntityReference.ofJson? content).map reference
  | "option_set" => content.int32?.map optionSet
  | "money" => (Decimal.ofJson? content).map money
  | "aliased" => aliased? read? content
  | _ => none

theorem ofJsonWithin?_succ (depth : Nat) (data : Json) : ofJsonWithin? (depth + 1) data =
    (data.tagged? "kind" "value").bind fun found =>
      found.2.bind (ofContent? (ofJsonWithin? depth) found.1) := by
  rw [ofJsonWithin?]
  refine Option.bind_congr fun found _ => ?_
  obtain ⟨kind, content⟩ := found
  cases content with
  | none => simp
  | some content =>
      by_cases hscalar : kind = "scalar"
      · subst hscalar
        rfl
      by_cases hreference : kind = "reference"
      · subst hreference
        rfl
      by_cases hoptionSet : kind = "option_set"
      · subst hoptionSet
        rfl
      by_cases hmoney : kind = "money"
      · subst hmoney
        rfl
      by_cases haliased : kind = "aliased"
      · subst haliased
        rfl
      simp [ofContent?, hscalar, hreference, hoptionSet, hmoney, haliased]

theorem ignoresOrder_aliased? {read? : Json → Option AttributeValue} (h : IgnoresOrder read?) :
    IgnoresOrder (aliased? read?) := by
  intro content content' hcontent
  ext value
  simp only [aliased?_eq_some_iff, ignoresOrder_string?.bind_field? hcontent,
    h.bind_field? hcontent]

theorem ignoresOrder_ofContent? {read? : Json → Option AttributeValue} (h : IgnoresOrder read?)
    (kind : String) : IgnoresOrder (ofContent? read? kind) := by
  intro content content' hcontent
  unfold ofContent?
  split
  · exact Value.ignoresOrder_ofJson?.map _ hcontent
  · exact EntityReference.ignoresOrder_ofJson?.map _ hcontent
  · exact ((ignoresOrder_intBetween? _ _).map _).map _ hcontent
  · exact Decimal.ignoresOrder_ofJson?.map _ hcontent
  · exact ignoresOrder_aliased? h hcontent
  · rfl

theorem ignoresOrder_ofJsonWithin? (depth : Nat) : IgnoresOrder (ofJsonWithin? depth) := by
  induction depth with
  | zero => exact fun _ _ _ => rfl
  | succ depth ih =>
      intro data data' h
      rw [ofJsonWithin?_succ, ofJsonWithin?_succ]
      refine h.bind_tagged?_eq (fun hcase => ?_) "kind" "value"
      obtain ⟨kind, hcontent⟩ := hcase
      cases hcontent with
      | none => rfl
      | some hcontent => exact ignoresOrder_ofContent? ih kind hcontent

theorem ignoresOrder_ofJson? : IgnoresOrder ofJson? := fun _ _ h => by
  rw [ofJson?, ofJson?, h.height_eq, ignoresOrder_ofJsonWithin? _ h]

theorem ofJsonWithin?_ofTagged (depth : Nat) (kind : String) (content : Json) :
    ofJsonWithin? (depth + 1) (.ofTagged "kind" "value" kind content) =
      ofContent? (ofJsonWithin? depth) kind content := by
  rw [ofJsonWithin?_succ, tagged?_ofTagged (by decide)]
  rfl

theorem height_pos (value : AttributeValue) : 0 < value.toJson.height := by
  cases value <;> rw [toJson, ofTagged, Json.height] <;> exact Nat.succ_pos _

/-- The data of the value below an alias leaves room for the alias. -/
theorem height_lt_aliased (entity attr : String) (value : AttributeValue) :
    value.toJson.height < (aliased entity attr value).toJson.height := by
  obtain ⟨content, hcontent⟩ : ∃ content, content = Json.object [("entity", .string entity),
    ("attribute", .string attr), ("value", value.toJson)] := ⟨_, rfl⟩
  have hvalue : value.toJson.height < content.height := by
    have hmember : ("value", value.toJson) ∈ [("entity", Json.string entity),
      ("attribute", .string attr), ("value", value.toJson)] := by simp
    rw [hcontent, Json.height]
    exact Nat.lt_succ_of_le (height_le_of_mem_members hmember)
  have houter : content.height < (ofTagged "kind" "value" "aliased" content).height := by
    have hmember : ("value", content) ∈ [("kind", Json.string "aliased"), ("value", content)] := by
      simp
    rw [ofTagged, Json.height]
    exact Nat.lt_succ_of_le (height_le_of_mem_members hmember)
  rw [toJson, ← hcontent]
  exact Nat.lt_trans hvalue houter

/-- An attribute value is restored by a reader that goes at least as deep as its data. -/
theorem restores_within (value : AttributeValue) {depth : Nat}
    (h : value.toJson.height ≤ depth + 1) :
    Restores value value.Finite (ofJsonWithin? (depth + 1) value.toJson) := by
  induction value generalizing depth with
  | scalar v =>
      rw [toJson, ofJsonWithin?_ofTagged]
      exact v.restores.map fun _ hequal => equal_iff_matches.2 (.scalar hequal)
  | reference target =>
      have hread : ofContent? (ofJsonWithin? depth) "reference" target.toJson =
          (EntityReference.ofJson? target.toJson).map reference := rfl
      rw [toJson, ofJsonWithin?_ofTagged, hread, target.ofJson?_toJson]
      exact .kept trivial BEq.rfl
  | optionSet code =>
      have hread : ofContent? (ofJsonWithin? depth) "option_set" (.int code.toInt) =
          (Json.int code.toInt).int32?.map optionSet := rfl
      rw [toJson, ofJsonWithin?_ofTagged, hread, int32?_toInt]
      exact .kept trivial BEq.rfl
  | money amount =>
      have hread : ofContent? (ofJsonWithin? depth) "money" amount.toJson =
          (Decimal.ofJson? amount.toJson).map money := rfl
      rw [toJson, ofJsonWithin?_ofTagged, hread, Decimal.ofJson?_toJson]
      exact .kept trivial (equal_iff_matches.2 (.money amount.equal_unsignedZero))
  | aliased entity attr value ih =>
      have hread (read? : Json → Option AttributeValue) :
          ofContent? read? "aliased" (.object [("entity", .string entity),
            ("attribute", .string attr), ("value", value.toJson)]) =
          (read? value.toJson).map (aliased entity attr) := by
        rw [Option.map_eq_bind]
        rfl
      have hlower := height_lt_aliased entity attr value
      have hpos := value.height_pos
      -- There is a level left for the value, as it has some height.
      obtain ⟨below, rfl⟩ : ∃ below, depth = below + 1 := ⟨depth - 1, by omega⟩
      rw [toJson, ofJsonWithin?_ofTagged, hread]
      refine (ih (by omega)).map fun _ hequal => ?_
      exact equal_iff_matches.2 (.aliased entity attr (equal_iff_matches.1 hequal))

theorem restores (value : AttributeValue) :
    Restores value value.Finite (ofJson? value.toJson) := by
  obtain ⟨depth, hdepth⟩ : ∃ depth, value.toJson.height = depth + 1 :=
    ⟨value.toJson.height - 1, by have hpos := value.height_pos; omega⟩
  rw [ofJson?, hdepth]
  exact value.restores_within (Nat.le_of_eq hdepth)

theorem rearranged_toJson_self (value : AttributeValue) :
    Rearranged value.toJson value.toJson := by
  induction value with
  | scalar v => exact Rearranged.ofTagged_self (by decide) _ v.rearranged_toJson_self
  | reference target => exact Rearranged.ofTagged_self (by decide) _ target.rearranged_toJson_self
  | optionSet code => exact Rearranged.ofTagged_self (by decide) _ (.int _)
  | money amount => exact Rearranged.ofTagged_self (by decide) _ (.string _)
  | aliased entity attr value ih =>
      have hnodup : aliasedNames.Nodup := by decide
      refine Rearranged.ofTagged_self (by decide) _ (Rearranged.object_self hnodup ?_)
      simpa using ⟨.string _, .string _, ih⟩

end AttributeValue

/-! ## Tables -/

namespace Record

variable {α : Type} {read? : Json → Option α} {members : List (String × Json)} {table : Table α}
  {name : String} {value : Json}

theorem entries_of_tableOfJson? (h : tableOfJson? read? (.object members) = some table) :
    ∃ entries, table = .ofList entries ∧ List.Forall₂
      (fun (member : String × Json) (entry : String × α) =>
        member.1 = entry.1 ∧ read? member.2 = some entry.2) members entries := by
  obtain ⟨entries, hentries, h⟩ := Option.bind_eq_some_iff.1 h
  cases h
  refine ⟨entries, rfl, (mapM_eq_some_iff.1 hentries).imp fun member entry hread => ?_⟩
  obtain ⟨a, ha, rfl⟩ := Option.map_eq_some_iff.1 hread
  exact ⟨rfl, ha⟩

theorem exists_tableOfJson?_iff : (∃ table, tableOfJson? read? (.object members) = some table) ↔
    ∀ member ∈ members, ∃ a, read? member.2 = some a := by
  constructor
  · rintro ⟨table, htable⟩ member hmember
    obtain ⟨entries, -, hentries⟩ := entries_of_tableOfJson? htable
    obtain ⟨entry, -, -, hread⟩ := exists_left_of_forall₂ hentries.flip hmember
    exact ⟨_, hread⟩
  · intro h
    obtain ⟨entries, hentries⟩ : ∃ entries, (members.mapM fun member : String × Json =>
        (read? member.2).map (member.1, ·)) = some entries := by
      induction members with
      | nil => exact ⟨[], rfl⟩
      | cons member members ih =>
          obtain ⟨⟨a, ha⟩, hrest⟩ := List.forall_mem_cons.1 h
          obtain ⟨entries, hentries⟩ := ih hrest
          rw [List.mapM_cons, ha, hentries]
          exact ⟨_, rfl⟩
    exact ⟨_, Option.bind_eq_some_iff.2 ⟨entries, hentries, rfl⟩⟩

/-- A table answers a name with what the member of that name is read as. -/
theorem get?_of_tableOfJson? (hnodup : (members.map Prod.fst).Nodup)
    (h : tableOfJson? read? (.object members) = some table) (name : String) :
    table.get? name = (members.lookup name).bind read? := by
  obtain ⟨entries, rfl, hentries⟩ := entries_of_tableOfJson? h
  have hnames : members.map Prod.fst = entries.map Prod.fst := by
    rw [← List.forall₂_eq_eq_eq, List.forall₂_map_left_iff, List.forall₂_map_right_iff]
    exact hentries.imp fun _ _ => And.left
  rw [Table.get?_ofList (hnames ▸ hnodup)]
  clear h hnodup hnames
  induction hentries with
  | nil => rfl
  | @cons member entry _ _ hentry _ ih =>
      obtain ⟨first, value⟩ := member
      obtain ⟨rfl, hread⟩ := hentry
      rw [List.lookup_cons, List.lookup_cons]
      cases name == entry.1 with
      | true => exact hread.symm
      | false => exact ih

section Restoring

variable [BEq α] {write : α → Json} {fits : α → Prop}

/-- The data of a table, in any order, can be read as far as the values of the table fit. -/
theorem forall_readable_iff (hread : IgnoresOrder read?)
    (hvalue : ∀ a, Restores a (fits a) (read? (write a)))
    (hdata : Rearranged (.object (table.entries.map fun entry => (entry.1, write entry.2)))
      (.object members)) :
    (∀ member ∈ members, ∃ a, read? member.2 = some a) ↔ ∀ entry ∈ table.entries, fits entry.2 := by
  constructor
  · rintro hall ⟨name, a⟩ hentry
    obtain ⟨value, hmember, hsame⟩ := hdata.exists_member (List.mem_map_of_mem hentry)
    obtain ⟨b, hb⟩ := hall _ hmember
    exact (hvalue a).exists_iff.1 ⟨b, (hread hsame).trans hb⟩
  · rintro hall ⟨name, value⟩ hmember
    obtain ⟨_, hstored, hsame⟩ := hdata.symm.exists_member hmember
    obtain ⟨⟨_, a⟩, hentry, hwritten⟩ := List.mem_map.1 hstored
    cases hwritten
    obtain ⟨b, hb⟩ := (hvalue a).exists_iff.2 (hall _ hentry)
    exact ⟨b, (hread hsame).trans hb⟩

/-- The member of a name is read as what the table answers to it. -/
theorem rel_lookup_bind (hread : IgnoresOrder read?)
    (hvalue : ∀ a, Restores a (fits a) (read? (write a)))
    (hdata : Rearranged (.object (table.entries.map fun entry => (entry.1, write entry.2)))
      (.object members)) (hall : ∀ entry ∈ table.entries, fits entry.2) (name : String) :
    Option.Rel Equal (table.get? name) ((members.lookup name).bind read?) := by
  have hname : Option.Rel Rearranged ((table.get? name).map write) (members.lookup name) := by
    rw [Table.get?, ← Table.lookup_map]
    exact hdata.rel_lookup name
  generalize members.lookup name = found at hname ⊢
  cases hget : table.get? name with
  | none =>
      rw [hget] at hname
      cases hname
      exact .none
  | some a =>
      rw [hget] at hname
      cases hname with
      | some hsame =>
          rw [Option.bind_some, ← hread hsame]
          exact (hvalue a).rel (hall _ (Table.get?_eq_some_iff.1 hget))

/-- A table is restored from its data in any order if each of its values is, and refused if one of
them is. -/
theorem restores_table (hread : IgnoresOrder read?)
    (hvalue : ∀ a, Restores a (fits a) (read? (write a))) (table : Table α) {data : Json}
    (hdata : Rearranged (.object (table.entries.map fun entry => (entry.1, write entry.2))) data) :
    Restores table (∀ entry ∈ table.entries, fits entry.2) (tableOfJson? read? data) := by
  cases hdata with
  | @object _ members hnodup hnames h =>
      have hdata := Rearranged.object hnodup hnames h
      have hreadable := forall_readable_iff hread hvalue hdata
      cases hresult : tableOfJson? read? (.object members) with
      | none =>
          refine .refused fun hall => ?_
          obtain ⟨back, hback⟩ := exists_tableOfJson?_iff.2 (hreadable.2 hall)
          cases hresult.symm.trans hback
      | some back =>
          have hall := hreadable.1 (exists_tableOfJson?_iff.1 ⟨back, hresult⟩)
          refine .kept hall (Table.equal_iff.2 fun name => ?_)
          rw [get?_of_tableOfJson? (hnames.nodup_iff.1 hnodup) hresult]
          exact rel_lookup_bind hread hvalue hdata hall name

end Restoring

/-! ## Records -/

def fieldNames : List String := ["logical_name", "id", "attributes", "formatted_values"]

/-- A record without attributes that are not finite, however deep the aliases around them. -/
def Finite (record : Record) : Prop := ∀ entry ∈ record.attributes.entries, entry.2.Finite

instance (record : Record) : Decidable record.Finite :=
  inferInstanceAs (Decidable (∀ entry ∈ record.attributes.entries, entry.2.Finite))

theorem rearranged_table_self {write : α → Json} (table : Table α)
    (h : ∀ a, Rearranged (write a) (write a)) :
    Rearranged (.object (table.entries.map fun entry => (entry.1, write entry.2)))
      (.object (table.entries.map fun entry => (entry.1, write entry.2))) := by
  refine Rearranged.object_self ?_ (List.forall_mem_map.2 fun entry _ => h entry.2)
  rw [List.map_map]
  exact table.nodup

theorem rearranged_toJson_self (record : Record) : Rearranged record.toJson record.toJson := by
  have hnodup : fieldNames.Nodup := by decide
  have hattributes := rearranged_table_self record.attributes AttributeValue.rearranged_toJson_self
  have hformatted := rearranged_table_self record.formatted fun text => .string text
  refine Rearranged.object_self hnodup ?_
  simpa using ⟨.string _, .string _, hattributes, hformatted⟩

theorem restores (record : Record) {data : Json} (h : Rearranged record.toJson data) :
    Restores record record.Finite (ofJson? data) := by
  obtain ⟨logicalName, hlogicalName, sameName⟩ :=
    h.exists_field? (rfl : record.toJson.field? fieldNames "logical_name" = _)
  obtain ⟨id, hid, sameId⟩ := h.exists_field? (rfl : record.toJson.field? fieldNames "id" = _)
  obtain ⟨attributes, hattributes, sameAttributes⟩ :=
    h.exists_field? (rfl : record.toJson.field? fieldNames "attributes" = _)
  obtain ⟨formatted, hformatted, sameFormatted⟩ :=
    h.exists_field? (rfl : record.toJson.field? fieldNames "formatted_values" = _)
  have readName : logicalName.string? = some record.logicalName :=
    (ignoresOrder_string? sameName).symm
  have readId : Uuid.ofJson? id = some record.id :=
    (Uuid.ignoresOrder_ofJson? sameId).symm.trans record.id.ofJson?_toJson
  have hread : ofJson? data =
      (tableOfJson? AttributeValue.ofJson? attributes).bind fun attributes =>
        (tableOfJson? string? formatted).map fun formatted =>
          { record with attributes, formatted } := by
    have hfields := fields?_of_field? (by decide) hid
    simp only [fieldNames, List.map_cons, List.map_nil] at *
    simp [ofJson?, hfields, hlogicalName, hid, hattributes, hformatted, readName, readId,
      Option.map_eq_bind]
  have hattributes := restores_table AttributeValue.ignoresOrder_ofJson? AttributeValue.restores
    record.attributes sameAttributes
  have htext (text : String) : Restores text True (string? (.string text)) :=
    .kept trivial BEq.rfl
  have hformatted := restores_table ignoresOrder_string? htext record.formatted sameFormatted
  have hboth := hattributes.map₂
    (f := fun attributes formatted => { record with attributes, formatted }) hformatted
    fun _ _ hvalues htexts => equal_iff.2 ⟨rfl, rfl, hvalues, htexts⟩
  rw [hread]
  exact hboth.congr (and_iff_left fun _ _ => trivial)

/-- A record is read back from what it is stored as, up to `==`, if and only if the floating point
numbers in its attributes are finite, however deep the aliases around them.  If one of them is not,
what is stored cannot be read at all.  The order of members does not matter. -/
theorem restored_iff_attributes_finite (record : Record) :
    ((∃ back, ofJson? record.toJson = some back ∧ Equal record back) ↔ record.Finite) ∧
    (¬ record.Finite → ofJson? record.toJson = none) ∧
    ∀ data, Rearranged record.toJson data →
      ((∃ back, ofJson? data = some back ∧ Equal record back) ↔ record.Finite) ∧
        (¬ record.Finite → ofJson? data = none) := by
  have hself := record.restores record.rearranged_toJson_self
  exact ⟨hself.exists_equal_iff, hself.eq_none, fun data h =>
    ⟨(record.restores h).exists_equal_iff, (record.restores h).eq_none⟩⟩

def ratedRecord (rate : Binary64) : Record :=
  ((new "contact" .nil).withAliased "order.customer" "account" "rate"
    (.aliased "currency" "rate" (.scalar (.float64 rate)))).withFormatted "rate" "one"

/-- What is stored of such a record, the other way round. -/
def ratedData (rate : Binary64) : Json :=
  .object [("formatted_values", .object [("rate", .string "one")]),
    ("attributes", .object [("order.customer.rate", .ofTagged "kind" "value" "aliased"
      (.object [("entity", .string "account"), ("attribute", .string "rate"), ("value",
        .ofTagged "kind" "value" "aliased" (.object [("entity", .string "currency"),
          ("attribute", .string "rate"), ("value", .ofTagged "kind" "value" "scalar"
            (.ofTagged "type" "value" "float64" (.ofBinary64 rate)))]))]))]),
    ("id", Uuid.nil.toJson), ("logical_name", .string "contact")]

theorem restored_iff_attributes_finite_ratedRecord :
    (∃ back, ofJson? (ratedData (.ofInt 1)) = some back ∧
      Equal (ratedRecord (.ofInt 1)) back) ∧
    ofJson? (ratedData Plan.undefinedNumber) = none := by
  have hdata (rate : Binary64) : Rearranged (ratedRecord rate).toJson (ratedData rate) :=
    (ratedRecord rate).rearranged_toJson_self.object_perm (List.reverse_perm _).symm
  have hfinite : (ratedRecord (.ofInt 1)).Finite := by decide +kernel
  have hlost : ¬ (ratedRecord Plan.undefinedNumber).Finite := by decide +kernel
  exact ⟨((restored_iff_attributes_finite _).2.2 _ (hdata (.ofInt 1))).1.2 hfinite,
    ((restored_iff_attributes_finite _).2.2 _ (hdata Plan.undefinedNumber)).2 hlost⟩

end Record

end EntityQuery
