import EntityQuery.Proofs.Json.Order
import EntityQuery.Proofs.Plan.Fields
import EntityQuery.Proofs.Plan.Storage

/-!
# Plans are read in any order

The readers of plans, and of all that plans are made of, find the same in rearranged data.  A
structure is read field by field, and the depth to which the readers of trees go is the height of
the data, which does not depend on the order.

What is stored of a plan names no member twice in any of its objects, so that it may be rearranged.
-/

namespace EntityQuery

open Json

/-! ## Values -/

theorem Decimal.ignoresOrder_ofJson? : IgnoresOrder ofJson? := fun _ _ h => by cases h <;> rfl

theorem Timestamp.ignoresOrder_ofJson? : IgnoresOrder ofJson? := ignoresOrder_string?.bind _

theorem Uuid.ignoresOrder_ofJson? : IgnoresOrder ofJson? := ignoresOrder_string?.bind _

namespace Value

theorem ignoresOrder_ofContent? (type : String) : IgnoresOrder (ofContent? type) := by
  intro content content' h
  unfold ofContent?
  split
  · exact ignoresOrder_bool?.map _ h
  · exact ((ignoresOrder_intBetween? _ _).map _).map _ h
  · exact ((ignoresOrder_intBetween? _ _).map _).map _ h
  · exact ignoresOrder_finite?.map _ h
  · exact Decimal.ignoresOrder_ofJson?.map _ h
  · exact ignoresOrder_string?.map _ h
  · exact Timestamp.ignoresOrder_ofJson?.map _ h
  · exact Uuid.ignoresOrder_ofJson?.map _ h
  · rfl

theorem ignoresOrder_ofJson? : IgnoresOrder ofJson? := by
  intro data data' h
  refine h.bind_tagged?_eq (fun hcase => ?_) "type" "value"
  obtain ⟨type, hcontent⟩ := hcase
  cases hcontent with
  | none => rfl
  | some hcontent => exact ignoresOrder_ofContent? type hcontent

end Value

/-! ## Structures -/

theorem Operator.ignoresOrder_ofJson? : IgnoresOrder ofJson? := ignoresOrder_caseOf? _ _

theorem Combinator.ignoresOrder_ofJson? : IgnoresOrder ofJson? := ignoresOrder_caseOf? _ _

theorem JoinKind.ignoresOrder_ofJson? : IgnoresOrder ofJson? := ignoresOrder_caseOf? _ _

theorem Direction.ignoresOrder_ofJson? : IgnoresOrder ofJson? := ignoresOrder_caseOf? _ _

theorem Consistency.ignoresOrder_ofJson? : IgnoresOrder ofJson? := ignoresOrder_caseOf? _ _

theorem Condition.ignoresOrder_ofJson? : IgnoresOrder ofJson? := by
  intro data data' h
  ext c
  rw [ofJson?_eq_some_iff, ofJson?_eq_some_iff, ignoresOrder_string?.bind_field? h,
    Operator.ignoresOrder_ofJson?.bind_field? h, Value.ignoresOrder_ofJson?.listOf?.bind_field? h]

theorem Filter.ignoresOrder_ofJsonWithin? (depth : Nat) : IgnoresOrder (ofJsonWithin? depth) := by
  induction depth with
  | zero => exact fun _ _ _ => rfl
  | succ depth ih =>
      intro data data' h
      ext f
      rw [ofJsonWithin?_eq_some_iff, ofJsonWithin?_eq_some_iff,
        Combinator.ignoresOrder_ofJson?.bind_field? h,
        Condition.ignoresOrder_ofJson?.listOf?.bind_field? h, ih.listOf?.bind_field? h]

theorem Filter.ignoresOrder_ofJson? : IgnoresOrder ofJson? := fun _ _ h => by
  rw [ofJson?, ofJson?, h.height_eq, ignoresOrder_ofJsonWithin? _ h]

theorem Projection.ignoresOrder_ofJson? : IgnoresOrder ofJson? := by
  intro data data' h
  refine h.bind_tagged?_eq (fun hcase => ?_) "mode" "columns"
  obtain ⟨mode, hcolumns⟩ := hcase
  cases hcolumns with
  | none => rfl
  | @some columns columns' hcolumns =>
      have hnames := ignoresOrder_string?.listOf? hcolumns
      by_cases hmode : mode = "explicit_set"
      · subst hmode
        exact congrArg (·.bind fun names => some (only names)) hnames
      · cases hcolumns <;> simp [hmode]

theorem Join.ignoresOrder_ofJsonWithin? (depth : Nat) : IgnoresOrder (ofJsonWithin? depth) := by
  induction depth with
  | zero => exact fun _ _ _ => rfl
  | succ depth ih =>
      intro data data' h
      have halias := ignoresOrder_string?.optional? (h.rel_field? fieldNames "alias")
      ext j
      rw [ofJsonWithin?_eq_some_iff, ofJsonWithin?_eq_some_iff]
      simp only [ignoresOrder_string?.bind_field? h]
      rw [halias, JoinKind.ignoresOrder_ofJson?.bind_field? h,
        Projection.ignoresOrder_ofJson?.bind_field? h, Filter.ignoresOrder_ofJson?.bind_field? h,
        ih.listOf?.bind_field? h]

theorem Join.ignoresOrder_ofJson? : IgnoresOrder ofJson? := fun _ _ h => by
  rw [ofJson?, ofJson?, h.height_eq, ignoresOrder_ofJsonWithin? _ h]

theorem SortKey.ignoresOrder_ofJson? : IgnoresOrder ofJson? := by
  intro data data' h
  ext key
  rw [ofJson?_eq_some_iff, ofJson?_eq_some_iff, ignoresOrder_string?.bind_field? h,
    Direction.ignoresOrder_ofJson?.bind_field? h]

theorem Paging.ignoresOrder_ofJson? : IgnoresOrder ofJson? := by
  intro data data' h
  have hnumber : IgnoresOrder uint32? := (ignoresOrder_intBetween? _ _).map _
  have htoken := ignoresOrder_string?.optional? (h.rel_field? fieldNames "continuation_token")
  ext p
  rw [ofJson?_eq_some_iff, ofJson?_eq_some_iff, hnumber.bind_field? h, hnumber.bind_field? h,
    ignoresOrder_bool?.bind_field? h, htoken]

theorem Plan.ignoresOrder_ofJson? : IgnoresOrder ofJson? := by
  intro data data' h
  have hpaging := Paging.ignoresOrder_ofJson?.optional? (h.rel_field? fieldNames "paging")
  ext plan
  rw [ofJson?_eq_some_iff, ofJson?_eq_some_iff, ignoresOrder_string?.bind_field? h,
    Projection.ignoresOrder_ofJson?.bind_field? h, Filter.ignoresOrder_ofJson?.bind_field? h,
    Join.ignoresOrder_ofJson?.listOf?.bind_field? h,
    SortKey.ignoresOrder_ofJson?.listOf?.bind_field? h, hpaging,
    Consistency.ignoresOrder_ofJson?.bind_field? h]

/-! ## Stored data -/

theorem Value.rearranged_toJson_self (value : Value) : Rearranged value.toJson value.toJson := by
  refine Rearranged.ofTagged_self (by decide) _ ?_
  cases value with
  | bool b => exact .bool b
  | int32 n => exact .int _
  | int64 n => exact .int _
  | float64 x =>
      change Rearranged (.ofBinary64 x) (.ofBinary64 x)
      rw [ofBinary64]
      cases x.finite? with
      | none => exact .null
      | some y => exact .float y
  | decimal d => exact .string _
  | string s => exact .string s
  | dateTime t => exact .string _
  | reference id => exact .string _

theorem Condition.rearranged_toJson_self (c : Condition) : Rearranged c.toJson c.toJson := by
  have hnodup : fieldNames.Nodup := by decide
  have hvalues : Rearranged (.array (c.values.map (·.toJson))) (.array (c.values.map (·.toJson))) :=
    Rearranged.array_self (List.forall_mem_map.2 fun value _ => value.rearranged_toJson_self)
  refine Rearranged.object_self hnodup ?_
  simpa using ⟨.string _, .string _, hvalues⟩

theorem Filter.rearranged_toJson_self (f : Filter) : Rearranged f.toJson f.toJson := by
  induction f using Filter.induction with
  | step f ih =>
      have hnodup : fieldNames.Nodup := by decide
      have hconditions : Rearranged (.array (f.conditions.map (·.toJson)))
          (.array (f.conditions.map (·.toJson))) :=
        Rearranged.array_self (List.forall_mem_map.2 fun c _ => c.rearranged_toJson_self)
      have hsubfilters : Rearranged (.array (f.subfilters.map (·.toJson)))
          (.array (f.subfilters.map (·.toJson))) :=
        Rearranged.array_self (List.forall_mem_map.2 ih)
      rw [toJson_eq]
      refine Rearranged.object_self hnodup ?_
      simpa using ⟨.string _, hconditions, hsubfilters⟩

theorem Projection.rearranged_toJson_self (columns : Projection) :
    Rearranged columns.toJson columns.toJson := by
  cases columns with
  | all => exact Rearranged.object_self (by decide) (by simpa using Rearranged.string _)
  | only names =>
      refine Rearranged.ofTagged_self (by decide) _ (Rearranged.array_self ?_)
      exact List.forall_mem_map.2 fun name _ => .string name

theorem Join.rearranged_toJson_self (j : Join) : Rearranged j.toJson j.toJson := by
  induction j using Join.induction with
  | step j ih =>
      have hnodup : fieldNames.Nodup := by decide
      have hnested : Rearranged (.array (j.nested.map (·.toJson)))
          (.array (j.nested.map (·.toJson))) :=
        Rearranged.array_self (List.forall_mem_map.2 ih)
      rw [toJson_eq]
      refine Rearranged.object_self hnodup ?_
      simpa using ⟨.string _, .string _, .string _, .string _, Rearranged.ofOption_string_self _,
        .string _, j.columns.rearranged_toJson_self, j.filter.rearranged_toJson_self, hnested⟩

theorem SortKey.rearranged_toJson_self (key : SortKey) : Rearranged key.toJson key.toJson := by
  have hnodup : fieldNames.Nodup := by decide
  refine Rearranged.object_self hnodup ?_
  simpa using ⟨.string _, .string _⟩

theorem Paging.rearranged_toJson_self (p : Paging) : Rearranged p.toJson p.toJson := by
  have hnodup : fieldNames.Nodup := by decide
  refine Rearranged.object_self hnodup ?_
  simpa using ⟨.int _, .int _, .bool _, Rearranged.ofOption_string_self _⟩

theorem Plan.toJson_eq (plan : Plan) : plan.toJson =
    .object [("entity", .string plan.entity), ("columns", plan.columns.toJson),
      ("filter", plan.filter.toJson), ("joins", .array (plan.joins.map (·.toJson))),
      ("sort", .array (plan.sort.map SortKey.toJson)),
      ("paging", .ofOption Paging.toJson plan.paging),
      ("consistency", plan.consistency.toJson)] := by
  rw [toJson, Join.toJsonAll_eq_map]

theorem Plan.rearranged_toJson_self (plan : Plan) : Rearranged plan.toJson plan.toJson := by
  have hnodup : fieldNames.Nodup := by decide
  have hjoins : Rearranged (.array (plan.joins.map (·.toJson)))
      (.array (plan.joins.map (·.toJson))) :=
    Rearranged.array_self (List.forall_mem_map.2 fun j _ => j.rearranged_toJson_self)
  have hsort : Rearranged (.array (plan.sort.map SortKey.toJson))
      (.array (plan.sort.map SortKey.toJson)) :=
    Rearranged.array_self (List.forall_mem_map.2 fun key _ => key.rearranged_toJson_self)
  have hpaging : Rearranged (.ofOption Paging.toJson plan.paging)
      (.ofOption Paging.toJson plan.paging) := by
    cases plan.paging with
    | none => exact .null
    | some paging => exact paging.rearranged_toJson_self
  rw [toJson_eq]
  refine Rearranged.object_self hnodup ?_
  simpa using ⟨.string _, plan.columns.rearranged_toJson_self, plan.filter.rearranged_toJson_self,
    hjoins, hsort, hpaging, .string _⟩

end EntityQuery
