import EntityQuery.Draft.Call
import EntityQuery.Proofs.Json.Fields
import EntityQuery.Proofs.Plan.Equality
import EntityQuery.Proofs.Scalar.Decimal
import EntityQuery.Proofs.Scalar.Timestamp
import EntityQuery.Proofs.Scalar.Uuid

/-!
# Stored plans

A plan is stored as a JSON value and read back from it.  Each part of it is restored by itself, so
that a plan is as good as its values: names and numbers come back as they were, and texts of
decimals, points in time and identifiers denote what they were written for.  The one value that is
lost is a floating point number that is not finite.  It is stored as `null`, which no reader of
numbers takes, and with it the whole plan is refused.

What becomes of a part is said as one of two cases, restored or refused, and both cases are carried
up the trees together: a list is refused for one of its members and a tree for one of its branches.
-/

namespace EntityQuery

/-! ## Reading back -/

/-- What is read back of data: equal data where all of it fits, and nothing otherwise. -/
inductive Restores {α : Type} [BEq α] (a : α) (fits : Prop) : Option α → Prop
  | kept {b : α} (hfits : fits) (h : Equal a b) : Restores a fits (some b)
  | refused (hfits : ¬ fits) : Restores a fits none

namespace Restores

variable {α β : Type} [BEq α] {a : α} {p q : Prop} {result : Option α}

theorem congr (h : Restores a p result) (hpq : p ↔ q) : Restores a q result := by
  cases h with
  | kept hp hab => exact .kept (hpq.1 hp) hab
  | refused hp => exact .refused (mt hpq.2 hp)

theorem exists_iff (h : Restores a p result) : (∃ back, result = some back) ↔ p := by
  cases h with
  | kept hp _ => exact ⟨fun _ => hp, fun _ => ⟨_, rfl⟩⟩
  | refused hp => exact ⟨fun ⟨_, h⟩ => (nomatch h), fun h => absurd h hp⟩

theorem exists_equal_iff (h : Restores a p result) :
    (∃ back, result = some back ∧ Equal a back) ↔ p := by
  cases h with
  | kept hp hab => exact ⟨fun _ => hp, fun _ => ⟨_, rfl, hab⟩⟩
  | refused hp => exact ⟨fun ⟨_, h, _⟩ => (nomatch h), fun h => absurd h hp⟩

theorem eq_none (h : Restores a p result) (hp : ¬ p) : result = none := by
  cases h with
  | kept h _ => exact absurd h hp
  | refused _ => rfl

theorem rel (h : Restores a p result) (hp : p) : Option.Rel Equal (some a) result := by
  cases h with
  | kept _ hab => exact .some hab
  | refused hlost => exact absurd hp hlost

theorem map [BEq β] {f : α → β} (h : Restores a p result)
    (hf : ∀ b, Equal a b → Equal (f a) (f b)) : Restores (f a) p (result.map f) := by
  cases h with
  | kept hp hab => exact .kept hp (hf _ hab)
  | refused hp => exact .refused hp

/-- Two parts are restored together. -/
theorem map₂ {γ : Type} [BEq β] [BEq γ] {f : α → β → γ} {b : β} {result' : Option β}
    (h : Restores a p result) (h' : Restores b q result')
    (hf : ∀ a' b', Equal a a' → Equal b b' → Equal (f a b) (f a' b')) :
    Restores (f a b) (p ∧ q) (result.bind fun a' => result'.map fun b' => f a' b') := by
  cases h with
  | refused hp => exact .refused fun h => hp h.1
  | kept hp hab =>
      cases h' with
      | refused hq => exact .refused fun h => hq h.2
      | kept hq hab' => exact .kept ⟨hp, hq⟩ (hf _ _ hab hab')

/-- A list is restored if all of its members are, and refused if one is. -/
theorem mapM {fits : α → Prop} {write : α → β} {read? : β → Option α} {as : List α}
    (h : ∀ a ∈ as, Restores a (fits a) (read? (write a))) :
    Restores as (∀ a ∈ as, fits a) ((as.map write).mapM read?) := by
  induction as with
  | nil => exact .kept (fun _ h => absurd h List.not_mem_nil) rfl
  | cons a as ih =>
      obtain ⟨ha, has⟩ := List.forall_mem_cons.1 h
      have hlater := ih has
      rw [List.map_cons, List.mapM_cons]
      refine congr ?_ List.forall_mem_cons.symm
      generalize read? (write a) = head at ha
      generalize (as.map write).mapM read? = tail at hlater
      cases ha with
      | refused hfits => exact .refused fun h => hfits h.1
      | kept hfits hab =>
          cases hlater with
          | refused hrest => exact .refused fun h => hrest h.2
          | kept hrest hequal =>
              refine .kept ⟨hfits, hrest⟩ (equal_list_iff.2 ?_)
              exact .cons hab (equal_list_iff.1 hequal)

end Restores

/-! ## Values -/

/-- A value that is not an infinite number, nor a pattern that is no number. -/
def Value.Finite : Value → Prop
  | float64 x => x.isFinite = true
  | _ => True

instance : (value : Value) → Decidable value.Finite
  | .float64 _ => inferInstanceAs (Decidable (_ = true))
  | .bool _ | .int32 _ | .int64 _ | .decimal _ | .string _ | .dateTime _ | .reference _ =>
      inferInstanceAs (Decidable True)

theorem Json.int32?_toInt (n : Int32) : (int n.toInt).int32? = some n := by
  have hlower := n.le_toInt
  have hupper := n.toInt_lt
  simp only [int32?, intBetween?]
  rw [if_pos (by omega), Option.map_some, Int32.ofInt_toInt]

theorem Json.int64?_toInt (n : Int64) : (int n.toInt).int64? = some n := by
  have hlower := n.le_toInt
  have hupper := n.toInt_lt
  simp only [int64?, intBetween?]
  rw [if_pos (by omega), Option.map_some, Int64.ofInt_toInt]

theorem Json.uint32?_toNat (n : UInt32) : (int n.toNat).uint32? = some n := by
  have hupper := n.toNat_lt
  simp only [uint32?, intBetween?]
  rw [if_pos (by omega), Option.map_some, Int.toNat_natCast, UInt32.ofNat_toNat]

theorem Decimal.ofJson?_toJson (d : Decimal) : ofJson? d.toJson = some d.unsignedZero := by
  rw [toJson, ofJson?, String.toList_ofList, d.read?_text]

theorem Timestamp.ofJson?_toJson (t : Timestamp) : ofJson? t.toJson = some t := by
  rw [toJson, ofJson?]
  simp only [Json.string?, Option.bind_eq_bind, Option.bind_some, String.toList_ofList,
    t.read?_text]

theorem Uuid.ofJson?_toJson (id : Uuid) : ofJson? id.toJson = some id := by
  rw [toJson, ofJson?]
  simp only [Json.string?, Option.bind_eq_bind, Option.bind_some, String.toList_ofList,
    id.read?_text]

/-- A value is restored by its type and the text or the number that stands for it; only a floating
point number may have none. -/
theorem Value.restores (value : Value) : Restores value value.Finite (ofJson? value.toJson) := by
  have hread : ofJson? value.toJson = ofContent? value.typeName (value.contentJson .number) := by
    rw [ofJson?, toJson, Json.tagged?_ofTagged (by decide)]
    rfl
  rw [hread]
  cases value with
  | bool b => exact .kept trivial (equal_refl _)
  | int32 n =>
      change Restores _ _ ((Json.int n.toInt).int32?.map int32)
      rw [Json.int32?_toInt]
      exact .kept trivial (equal_refl _)
  | int64 n =>
      change Restores _ _ ((Json.int n.toInt).int64?.map int64)
      rw [Json.int64?_toInt]
      exact .kept trivial (equal_refl _)
  | float64 x =>
      change Restores _ (x.isFinite = true)
        ((Json.ofOption Json.float x.finite?).finite?.map (float64 ·.toBinary64))
      by_cases hfinite : x.isFinite = true
      · rw [Binary64.finite?, dif_pos hfinite]
        exact .kept hfinite (equal_refl _)
      · rw [Binary64.finite?, dif_neg hfinite]
        exact .refused hfinite
  | decimal d =>
      change Restores _ _ ((Decimal.ofJson? d.toJson).map decimal)
      rw [Decimal.ofJson?_toJson]
      exact .kept trivial d.equal_unsignedZero
  | string s => exact .kept trivial (equal_refl _)
  | dateTime t =>
      change Restores _ _ ((Timestamp.ofJson? t.toJson).map dateTime)
      rw [Timestamp.ofJson?_toJson]
      exact .kept trivial (equal_refl _)
  | reference id =>
      change Restores _ _ ((Uuid.ofJson? id.toJson).map reference)
      rw [Uuid.ofJson?_toJson]
      exact .kept trivial (equal_refl _)

/-! ## Filters -/

theorem Combinator.ofJson?_toJson (c : Combinator) : ofJson? c.toJson = some c := by
  cases c <;> decide

def Condition.Finite (c : Condition) : Prop := ∀ value ∈ c.values, value.Finite

instance (c : Condition) : Decidable c.Finite :=
  inferInstanceAs (Decidable (∀ value ∈ c.values, value.Finite))

theorem Condition.restores (c : Condition) : Restores c c.Finite (ofJson? c.toJson) := by
  have hfields : c.toJson.fields? ["attribute", "operator", "values"] =
      some [some (.string c.attr), some c.operator.toJson,
        some (.array (c.values.map (·.toJson)))] := rfl
  have hread : ofJson? c.toJson = ((c.values.map (·.toJson)).mapM Value.ofJson?).map
      fun values => ({ c with values } : Condition) := by
    rw [ofJson?, hfields]
    simp only [Option.bind_eq_bind, Option.bind_some, Json.string?, Operator.ofJson?_toJson,
      Json.listOf?_array, Option.map_eq_bind]
    rfl
  have hvalues := Restores.mapM fun value (_ : value ∈ c.values) => value.restores
  rw [hread]
  exact hvalues.map (f := fun values => ({ c with values } : Condition)) fun values h =>
    equal_iff.2 ⟨rfl, rfl, equal_list_iff.1 h⟩

namespace Filter

def Finite (f : Filter) : Prop := ∀ c ∈ f.listing, c.Finite

instance (f : Filter) : Decidable f.Finite :=
  inferInstanceAs (Decidable (∀ c ∈ f.listing, c.Finite))

theorem finite_iff {f : Filter} :
    f.Finite ↔ (∀ c ∈ f.conditions, c.Finite) ∧ ∀ child ∈ f.subfilters, child.Finite := by
  constructor
  · intro h
    exact ⟨fun c hc => h c (mem_listing.2 (.inl hc)),
      fun child hchild c hc => h c (mem_listing.2 (.inr ⟨child, hchild, hc⟩))⟩
  · rintro ⟨hown, hnested⟩ c hc
    rcases mem_listing.1 hc with hc | ⟨child, hchild, hc⟩
    · exact hown c hc
    · exact hnested child hchild c hc

theorem toJsonAll_eq_map (floats : FloatStyle) (fs : List Filter) :
    toJsonAll floats fs = fs.map (toJson floats) := by
  induction fs with
  | nil => rfl
  | cons f fs ih => rw [toJsonAll, ih, List.map_cons]

theorem toJson_eq (f : Filter) : f.toJson =
    .object [("combinator", f.combinator.toJson),
      ("conditions", .array (f.conditions.map (·.toJson))),
      ("subfilters", .array (f.subfilters.map (·.toJson)))] := by
  cases f
  rw [toJson, toJsonAll_eq_map]

theorem height_lt_of_mem_subfilters {f child : Filter} (h : child ∈ f.subfilters) :
    child.toJson.height < f.toJson.height := by
  rw [toJson_eq f]
  refine Json.height_lt_of_mem "subfilters" ?_ (List.mem_map_of_mem h)
  exact List.mem_cons_of_mem _ (List.mem_cons_of_mem _ List.mem_cons_self)

/-- A filter is restored by a reader that goes at least as deep as its text. -/
theorem restores_within (f : Filter) {depth : Nat} (h : f.toJson.height ≤ depth) :
    Restores f f.Finite (ofJsonWithin? depth f.toJson) := by
  -- The text of a group is lower than that of the filter around it, so the depth suffices for both.
  induction f using Filter.induction generalizing depth with
  | step f ih =>
      have hdeep : ∀ child ∈ f.subfilters, child.toJson.height < depth :=
        fun child hchild => Nat.lt_of_lt_of_le (height_lt_of_mem_subfilters hchild) h
      cases depth with
      | zero =>
          rw [toJson_eq, Json.height] at h
          cases h
      | succ depth =>
          have hconditions := Restores.mapM fun c (_ : c ∈ f.conditions) => c.restores
          have hsubfilters := Restores.mapM fun child hchild =>
            ih child hchild (Nat.le_of_lt_succ (hdeep child hchild))
          have hfields : f.toJson.fields? ["combinator", "conditions", "subfilters"] =
              some [some f.combinator.toJson, some (.array (f.conditions.map (·.toJson))),
                some (.array (f.subfilters.map (·.toJson)))] := by
            rw [toJson_eq]
            rfl
          have hread : ofJsonWithin? (depth + 1) f.toJson =
              ((f.conditions.map (·.toJson)).mapM Condition.ofJson?).bind fun conditions =>
                ((f.subfilters.map (·.toJson)).mapM (ofJsonWithin? depth)).map fun subfilters =>
                  { f with conditions, subfilters } := by
            rw [ofJsonWithin?, hfields]
            simp only [Option.bind_eq_bind, Option.bind_some, Combinator.ofJson?_toJson,
              Json.listOf?_array, Option.map_eq_bind]
            rfl
          rw [hread]
          refine Restores.congr ?_ finite_iff.symm
          cases f
          exact hconditions.map₂ hsubfilters fun conditions subfilters hc hs =>
            equal_iff.2 ⟨rfl, equal_list_iff.1 hc, equal_list_iff.1 hs⟩

theorem restores (f : Filter) : Restores f f.Finite (ofJson? f.toJson) :=
  f.restores_within (Nat.le_refl _)

end Filter

/-! ## Joins -/

theorem Projection.ofJson?_toJson (columns : Projection) :
    ofJson? columns.toJson = some columns := by
  cases columns with
  | all => rfl
  | only names =>
      have hnames : (names.map Json.string).mapM Json.string? = some names :=
        Json.mapM_map_of_inverse fun _ _ => rfl
      rw [toJson, ofJson?, Json.tagged?_ofTagged (by decide)]
      simp only [Option.bind_eq_bind, Option.bind_some, Json.listOf?_array, hnames]
      rfl

theorem JoinKind.ofJson?_toJson (kind : JoinKind) : ofJson? kind.toJson = some kind := by
  cases kind <;> decide

namespace Join

def Finite (j : Join) : Prop := ∀ inner ∈ j.listing, inner.filter.Finite

instance (j : Join) : Decidable j.Finite :=
  inferInstanceAs (Decidable (∀ inner ∈ j.listing, inner.filter.Finite))

theorem finite_iff {j : Join} : j.Finite ↔ j.filter.Finite ∧ ∀ child ∈ j.nested, child.Finite := by
  rw [Finite, listing_eq, List.forall_mem_cons]
  refine and_congr_right' ⟨fun h child hchild inner hinner => ?_, fun h inner hinner => ?_⟩
  · exact h inner (mem_listingAll.2 ⟨child, hchild, hinner⟩)
  · obtain ⟨child, hchild, hinner⟩ := mem_listingAll.1 hinner
    exact h child hchild inner hinner

theorem toJsonAll_eq_map (floats : FloatStyle) (js : List Join) :
    toJsonAll floats js = js.map (toJson floats) := by
  induction js with
  | nil => rfl
  | cons j js ih => rw [toJsonAll, ih, List.map_cons]

theorem toJson_eq (j : Join) : j.toJson =
    .object [("local_entity", .string j.localEntity), ("local_attribute", .string j.localAttribute),
      ("remote_entity", .string j.remoteEntity), ("remote_attribute", .string j.remoteAttribute),
      ("alias", .ofOption .string j.aliasName), ("kind", j.kind.toJson),
      ("columns", j.columns.toJson), ("filter", j.filter.toJson),
      ("nested_joins", .array (j.nested.map (·.toJson)))] := by
  cases j
  rw [toJson, toJsonAll_eq_map]

theorem height_lt_of_mem_nested {j child : Join} (h : child ∈ j.nested) :
    child.toJson.height < j.toJson.height := by
  rw [toJson_eq j]
  refine Json.height_lt_of_mem "nested_joins" ?_ (List.mem_map_of_mem h)
  simp

theorem restores_within (j : Join) {depth : Nat} (h : j.toJson.height ≤ depth) :
    Restores j j.Finite (ofJsonWithin? depth j.toJson) := by
  induction j using Join.induction generalizing depth with
  | step j ih =>
      have hdeep : ∀ child ∈ j.nested, child.toJson.height < depth :=
        fun child hchild => Nat.lt_of_lt_of_le (height_lt_of_mem_nested hchild) h
      cases depth with
      | zero =>
          rw [toJson_eq, Json.height] at h
          cases h
      | succ depth =>
          have hnested := Restores.mapM fun child hchild =>
            ih child hchild (Nat.le_of_lt_succ (hdeep child hchild))
          have hfields : j.toJson.fields? fieldNames =
              some [some (.string j.localEntity), some (.string j.localAttribute),
                some (.string j.remoteEntity), some (.string j.remoteAttribute),
                some (.ofOption .string j.aliasName), some j.kind.toJson, some j.columns.toJson,
                some j.filter.toJson, some (.array (j.nested.map (·.toJson)))] := by
            rw [toJson_eq]
            rfl
          have hread : ofJsonWithin? (depth + 1) j.toJson =
              (Filter.ofJson? j.filter.toJson).bind fun filter =>
                ((j.nested.map (·.toJson)).mapM (ofJsonWithin? depth)).map fun nested =>
                  { j with filter, nested } := by
            rw [ofJsonWithin?, hfields]
            simp only [Option.bind_eq_bind, Option.bind_some, Json.string?, Json.optional?_string,
              JoinKind.ofJson?_toJson, Projection.ofJson?_toJson, Json.listOf?_array,
              Option.map_eq_bind]
            rfl
          rw [hread]
          refine Restores.congr ?_ finite_iff.symm
          cases j
          exact (Filter.restores _).map₂ hnested fun filter nested hfilter hnested =>
            equal_iff.2 ⟨filter, nested, rfl, hfilter, equal_list_iff.1 hnested⟩

theorem restores (j : Join) : Restores j j.Finite (ofJson? j.toJson) :=
  j.restores_within (Nat.le_refl _)

end Join

/-! ## Plans -/

theorem Direction.ofJson?_toJson (d : Direction) : ofJson? d.toJson = some d := by
  cases d <;> decide

theorem Consistency.ofJson?_toJson (c : Consistency) : ofJson? c.toJson = some c := by
  cases c <;> decide

theorem SortKey.ofJson?_toJson (key : SortKey) : ofJson? key.toJson = some key := by
  have hfields : key.toJson.fields? ["attribute", "direction"] =
      some [some (.string key.attr), some key.direction.toJson] := rfl
  rw [ofJson?, hfields]
  simp only [Option.bind_eq_bind, Option.bind_some, Json.string?, Direction.ofJson?_toJson]
  rfl

theorem Paging.ofJson?_toJson (p : Paging) : ofJson? p.toJson = some p := by
  have hfields : p.toJson.fields?
      ["page_size", "page_number", "request_total_count", "continuation_token"] =
      some [some (.int p.pageSize.toNat), some (.int p.pageNumber.toNat),
        some (.bool p.requestTotalCount), some (.ofOption .string p.continuationToken)] := rfl
  rw [ofJson?, hfields]
  simp only [Option.bind_eq_bind, Option.bind_some, Json.uint32?_toNat, Json.bool?,
    Json.optional?_string]
  rfl

namespace Plan

def Finite (plan : Plan) : Prop :=
  plan.filter.Finite ∧ ∀ j ∈ Join.listingAll plan.joins, j.filter.Finite

instance (plan : Plan) : Decidable plan.Finite :=
  inferInstanceAs
    (Decidable (plan.filter.Finite ∧ ∀ j ∈ Join.listingAll plan.joins, j.filter.Finite))

theorem restores (plan : Plan) : Restores plan plan.Finite (ofJson? plan.toJson) := by
  have hjoins := Restores.mapM fun j (_ : j ∈ plan.joins) => j.restores
  have hsort : (plan.sort.map SortKey.toJson).mapM SortKey.ofJson? = some plan.sort :=
    Json.mapM_map_of_inverse fun key _ => key.ofJson?_toJson
  have hpaging : Json.optional? Paging.ofJson? (some (.ofOption Paging.toJson plan.paging)) =
      some plan.paging := by
    cases plan.paging with
    | none => rfl
    | some paging => exact congrArg (Option.map some) paging.ofJson?_toJson
  have hfields : plan.toJson.fields?
      ["entity", "columns", "filter", "joins", "sort", "paging", "consistency"] =
      some [some (.string plan.entity), some plan.columns.toJson, some plan.filter.toJson,
        some (.array (plan.joins.map (·.toJson))), some (.array (plan.sort.map SortKey.toJson)),
        some (.ofOption Paging.toJson plan.paging), some plan.consistency.toJson] := by
    rw [toJson, Join.toJsonAll_eq_map]
    rfl
  have hread : ofJson? plan.toJson = (Filter.ofJson? plan.filter.toJson).bind fun filter =>
      ((plan.joins.map (·.toJson)).mapM Join.ofJson?).map fun joins =>
        { plan with filter, joins } := by
    rw [ofJson?, hfields]
    simp only [Option.bind_eq_bind, Option.bind_some, Json.string?, Projection.ofJson?_toJson,
      Json.listOf?_array, hsort, hpaging, Consistency.ofJson?_toJson, Option.map_eq_bind]
    rfl
  have hfinite : plan.Finite ↔ plan.filter.Finite ∧ ∀ j ∈ plan.joins, j.Finite := by
    refine and_congr_right' ⟨fun h j hj inner hinner => ?_, fun h inner hinner => ?_⟩
    · exact h inner (Join.mem_listingAll.2 ⟨j, hj, hinner⟩)
    · obtain ⟨j, hj, hinner⟩ := Join.mem_listingAll.1 hinner
      exact h j hj inner hinner
  rw [hread]
  refine Restores.congr ?_ hfinite.symm
  exact plan.filter.restores.map₂ (f := fun filter joins => { plan with filter, joins }) hjoins
    fun filter joins hfilter hjoins =>
      equal_iff.2 ⟨filter, joins, rfl, hfilter, equal_list_iff.1 hjoins⟩

/-- A plan is read back from what it is stored as, up to `==`, if and only if the floating point
numbers in its conditions are finite, in its filter and in all of its joins.  If one of them is not,
what is stored cannot be read at all. -/
theorem restored_iff_finite (plan : Plan) :
    ((∃ back, ofJson? plan.toJson = some back ∧ Equal plan back) ↔ plan.Finite) ∧
      (¬ plan.Finite → ofJson? plan.toJson = none) := by
  have hrestores := plan.restores
  generalize ofJson? plan.toJson = result at hrestores
  cases hrestores with
  | kept hfinite h =>
      exact ⟨⟨fun _ => hfinite, fun _ => ⟨_, rfl, h⟩⟩, fun hlost => absurd hfinite hlost⟩
  | refused hlost =>
      refine ⟨⟨?_, fun hfinite => absurd hfinite hlost⟩, fun _ => rfl⟩
      rintro ⟨back, hback, -⟩
      cases hback

def undefinedNumber : Binary64 := ⟨0x7ff8000000000000⟩

def undefinedCalls : List QueryCall :=
  [.filter (.named (.equals "score" (.float64 undefinedNumber)))]

theorem lost_undefinedCalls : ∃ plan,
    (QueryCall.applyEach undefinedCalls (.new "account")).render = .ok plan ∧
      ¬ ∃ back, ofJson? plan.toJson = some back ∧ Equal plan back := by
  refine ⟨_, rfl, ?_⟩
  rintro ⟨back, hback, -⟩
  have hnone := hback.symm.trans (rfl : _ = none)
  cases hnone

end Plan

end EntityQuery
