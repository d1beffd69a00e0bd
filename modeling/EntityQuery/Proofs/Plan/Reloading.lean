import EntityQuery.Proofs.Plan.Decoding
import EntityQuery.Proofs.Plan.Order

/-!
# Reloading

A plan that was loaded holds nothing that cannot be stored: the numbers in it were read from data,
where all numbers are finite.  What is stored of it is data in one of the many forms that are read
as that plan, so that it is loaded as the same plan again, and stored as the same data.

All parts of a plan come back as they were, down to the digits of decimals, save for one: the text
of a negative zero is read as a zero without sign.  So the decimals of a plan are asked to come back
as they were.  Without that the plan changes once, in signs that `==` does not see, and never again.
-/

namespace EntityQuery

open Json

/-! ## Loaded values -/

theorem Value.finite_of_ofJson? {data : Json} {value : Value} (h : ofJson? data = some value) :
    value.Finite := by
  obtain ⟨⟨type, content⟩, -, h⟩ := Option.bind_eq_some_iff.1 h
  cases content with
  | none => cases h
  | some content =>
      cases value with
      | float64 x =>
          change ofContent? type content = some (float64 x) at h
          unfold ofContent? at h
          split at h <;> simp only [Option.map_eq_some_iff, reduceCtorEq, and_false, exists_false,
            float64.injEq] at h
          obtain ⟨y, -, rfl⟩ := h
          exact y.finite
      | _ => trivial

theorem Condition.finite_of_ofJson? {data : Json} {c : Condition} (h : ofJson? data = some c) :
    c.Finite := by
  intro value hvalue
  obtain ⟨-, -, hvalues⟩ := ofJson?_eq_some_iff.1 h
  obtain ⟨_, -, hread⟩ :=
    exists_left_of_forall₂ (mapM_eq_some_iff.1 (mapM_fieldItems hvalues)) hvalue
  exact Value.finite_of_ofJson? hread

theorem Join.finite_iff_conditions {j : Join} : j.Finite ↔ ∀ c ∈ j.conditions, c.Finite := by
  simp only [Finite, Filter.Finite, conditions, List.forall_mem_flatMap]

theorem Plan.finite_iff_conditions {plan : Plan} :
    plan.Finite ↔ ∀ c ∈ plan.conditions, c.Finite := by
  simp only [Finite, Filter.Finite, conditions, Join.conditions, Join.listingAll_eq_flatMap,
    List.forall_mem_append, List.forall_mem_flatMap]

/-! ## Stored values -/

/-- The same value, where a decimal zero has no sign. -/
def Value.unsignedZero : Value → Value
  | decimal d => decimal d.unsignedZero
  | value => value

theorem Value.ofJson?_toJson_of_ne {value : Value} (h : value.Finite)
    (hdecimal : ∀ d, value ≠ decimal d) : ofJson? value.toJson = some value := by
  have hrestores := value.restores
  generalize ofJson? value.toJson = result at hrestores
  cases hrestores with
  | refused hlost => exact absurd h hlost
  | kept _ hequal =>
      obtain rfl | ⟨d, _, hd, -⟩ := equal_iff.1 hequal
      · rfl
      · exact absurd hd (hdecimal d)

theorem Value.ofJson?_toJson {value : Value} (h : value.Finite) :
    ofJson? value.toJson = some value.unsignedZero := by
  cases value with
  | decimal d =>
      have hread : ofJson? (decimal d).toJson = (Decimal.ofJson? d.toJson).map decimal := rfl
      rw [hread, Decimal.ofJson?_toJson]
      rfl
  | _ => exact ofJson?_toJson_of_ne h nofun

namespace Condition

/-- The decimals of a condition come back from their texts as they were. -/
def ReadsBack (c : Condition) : Prop :=
  ∀ d, .decimal d ∈ c.values → Decimal.ofJson? d.toJson = some d

/-- The same condition, where no decimal zero has a sign. -/
def unsignedZeros (c : Condition) : Condition :=
  { c with values := c.values.map Value.unsignedZero }

variable {c : Condition}

theorem ofJson?_toJson (h : c.Finite) : ofJson? c.toJson = some c.unsignedZeros := by
  refine ofJson?_eq_some_iff.2 ⟨rfl, c.operator.ofJson?_toJson, mapM_eq_some_iff.2 ?_⟩
  rw [unsignedZeros, List.forall₂_map_left_iff, List.forall₂_map_right_iff]
  exact List.forall₂_same.2 fun value hvalue => Value.ofJson?_toJson (h value hvalue)

/-- Decimals come back unless one is a negative zero. -/
theorem readsBack_iff : c.ReadsBack ↔ ∀ value ∈ c.values, value.unsignedZero = value := by
  constructor
  · intro h value hvalue
    cases value with
    | decimal d =>
        have hread := d.ofJson?_toJson.symm.trans (h d hvalue)
        exact congrArg Value.decimal (Option.some.inj hread)
    | _ => rfl
  · intro h d hd
    rw [Decimal.ofJson?_toJson, Value.decimal.inj (h _ hd)]

instance (c : Condition) : Decidable c.ReadsBack := decidable_of_iff _ readsBack_iff.symm

theorem ofJson?_toJson_of_readsBack (h : c.Finite) (hdecimals : c.ReadsBack) :
    ofJson? c.toJson = some c := by
  have hvalues : c.values.map Value.unsignedZero = c.values :=
    (List.map_congr_left (readsBack_iff.1 hdecimals)).trans (List.map_id _)
  rw [ofJson?_toJson h, unsignedZeros, hvalues]

theorem readsBack_unsignedZeros (c : Condition) : c.unsignedZeros.ReadsBack := by
  refine readsBack_iff.2 (List.forall_mem_map.2 fun value _ => ?_)
  cases value with
  | decimal d => exact congrArg Value.decimal d.unsignedZero_unsignedZero
  | _ => rfl

end Condition

/-! ## Stored trees -/

namespace Filter

/-- A reader that goes as deep as the data of a filter has a level for it, and goes as deep as that
of the filters nested in it below. -/
theorem exists_below {f : Filter} {depth : Nat} (h : f.toJson.height ≤ depth) :
    ∃ below, depth = below + 1 ∧ ∀ child ∈ f.subfilters, child.toJson.height ≤ below := by
  cases depth with
  | zero =>
      rw [toJson_eq, Json.height] at h
      cases h
  | succ below =>
      refine ⟨below, rfl, fun child hchild => ?_⟩
      exact Nat.le_of_lt_succ (Nat.lt_of_lt_of_le (height_lt_of_mem_subfilters hchild) h)

theorem ofJsonWithin?_toJson (f : Filter) {depth : Nat} (hdepth : f.toJson.height ≤ depth)
    (h : ∀ c ∈ f.listing, Condition.ofJson? c.toJson = some c) :
    ofJsonWithin? depth f.toJson = some f := by
  induction f using Filter.induction generalizing depth with
  | step f ih =>
      obtain ⟨below, rfl, hbelow⟩ := exists_below hdepth
      have hconditions : (f.conditions.map (·.toJson)).mapM Condition.ofJson? =
          some f.conditions :=
        mapM_map_of_inverse fun c hc => h c (mem_listing.2 (.inl hc))
      have hsubfilters : (f.subfilters.map (·.toJson)).mapM (ofJsonWithin? below) =
          some f.subfilters :=
        mapM_map_of_inverse fun child hchild => ih child hchild (hbelow child hchild) fun c hc =>
          h c (mem_listing.2 (.inr ⟨child, hchild, hc⟩))
      rw [ofJsonWithin?_eq_some_iff, toJson_eq]
      exact ⟨f.combinator.ofJson?_toJson, hconditions, hsubfilters⟩

theorem ofJson?_toJson {f : Filter} (h : ∀ c ∈ f.listing, Condition.ofJson? c.toJson = some c) :
    ofJson? f.toJson = some f :=
  f.ofJsonWithin?_toJson (Nat.le_refl _) h

/-- The data of the conditions of a stored filter is what is stored of them. -/
theorem conditionsIn_toJson (f : Filter) {depth : Nat} (hdepth : f.toJson.height ≤ depth) :
    conditionsIn depth f.toJson = f.listing.map (·.toJson) := by
  induction f using Filter.induction generalizing depth with
  | step f ih =>
      obtain ⟨below, rfl, hbelow⟩ := exists_below hdepth
      have hconditions : f.toJson.fieldItems fieldNames "conditions" =
          f.conditions.map (·.toJson) := by
        rw [toJson_eq]
        rfl
      have hsubfilters : f.toJson.fieldItems fieldNames "subfilters" =
          f.subfilters.map (·.toJson) := by
        rw [toJson_eq]
        rfl
      rw [conditionsIn, hconditions, hsubfilters, listing_eq, List.map_append, List.flatMap_map,
        List.map_flatMap]
      exact congrArg _ (List.flatMap_congr fun child hchild =>
        ih child hchild (hbelow child hchild))

end Filter

namespace Join

theorem exists_below {j : Join} {depth : Nat} (h : j.toJson.height ≤ depth) :
    ∃ below, depth = below + 1 ∧ ∀ child ∈ j.nested, child.toJson.height ≤ below := by
  cases depth with
  | zero =>
      rw [toJson_eq, Json.height] at h
      cases h
  | succ below =>
      refine ⟨below, rfl, fun child hchild => ?_⟩
      exact Nat.le_of_lt_succ (Nat.lt_of_lt_of_le (height_lt_of_mem_nested hchild) h)

theorem ofJsonWithin?_toJson (j : Join) {depth : Nat} (hdepth : j.toJson.height ≤ depth)
    (h : ∀ c ∈ j.conditions, Condition.ofJson? c.toJson = some c) :
    ofJsonWithin? depth j.toJson = some j := by
  induction j using Join.induction generalizing depth with
  | step j ih =>
      obtain ⟨below, rfl, hbelow⟩ := exists_below hdepth
      obtain ⟨hown, hinner⟩ := forall_mem_conditions.1 h
      have hnested : (j.nested.map (·.toJson)).mapM (ofJsonWithin? below) = some j.nested :=
        mapM_map_of_inverse fun child hchild =>
          ih child hchild (hbelow child hchild) (hinner child hchild)
      rw [ofJsonWithin?_eq_some_iff, toJson_eq]
      exact ⟨rfl, rfl, rfl, rfl, optional?_string _, j.kind.ofJson?_toJson,
        j.columns.ofJson?_toJson, Filter.ofJson?_toJson hown, hnested⟩

theorem ofJson?_toJson {j : Join} (h : ∀ c ∈ j.conditions, Condition.ofJson? c.toJson = some c) :
    ofJson? j.toJson = some j :=
  j.ofJsonWithin?_toJson (Nat.le_refl _) h

theorem joinsIn_toJson (j : Join) {depth : Nat} (hdepth : j.toJson.height ≤ depth) :
    joinsIn depth j.toJson = j.listing.map (·.toJson) := by
  induction j using Join.induction generalizing depth with
  | step j ih =>
      obtain ⟨below, rfl, hbelow⟩ := exists_below hdepth
      have hnested : j.toJson.fieldItems fieldNames "nested_joins" =
          j.nested.map (·.toJson) := by
        rw [toJson_eq]
        rfl
      rw [joinsIn, hnested, listing_eq, listingAll_eq_flatMap, List.map_cons, List.flatMap_map,
        List.map_flatMap]
      exact congrArg _ (List.flatMap_congr fun child hchild =>
        ih child hchild (hbelow child hchild))

theorem conditionsIn_toJson (j : Join) : conditionsIn j.toJson = j.conditions.map (·.toJson) := by
  rw [conditionsIn, conditions, joinsIn_toJson j (Nat.le_refl _), List.flatMap_map,
    List.map_flatMap]
  refine List.flatMap_congr fun inner _ => ?_
  have hfilter : inner.toJson.field? fieldNames "filter" = some inner.filter.toJson := by
    rw [toJson_eq]
    rfl
  rw [hfilter, Option.toList_some, List.flatMap_singleton,
    Filter.conditionsIn_toJson _ (Nat.le_refl _)]

end Join

namespace Plan

theorem ofJson?_toJson {plan : Plan}
    (h : ∀ c ∈ plan.conditions, Condition.ofJson? c.toJson = some c) :
    ofJson? plan.toJson = some plan := by
  obtain ⟨hfilter, hbelow⟩ := List.forall_mem_append.1 h
  have hjoins : (plan.joins.map (·.toJson)).mapM Join.ofJson? = some plan.joins :=
    mapM_map_of_inverse fun j hj => Join.ofJson?_toJson (List.forall_mem_flatMap.1 hbelow j hj)
  have hsort : (plan.sort.map SortKey.toJson).mapM SortKey.ofJson? = some plan.sort :=
    mapM_map_of_inverse fun key _ => key.ofJson?_toJson
  have hpaging : optional? Paging.ofJson? (some (.ofOption Paging.toJson plan.paging)) =
      some plan.paging := by
    cases plan.paging with
    | none => rfl
    | some paging => exact congrArg (Option.map some) paging.ofJson?_toJson
  rw [ofJson?_eq_some_iff, toJson_eq]
  exact ⟨rfl, plan.columns.ofJson?_toJson, Filter.ofJson?_toJson hfilter, hjoins, hsort, hpaging,
    plan.consistency.ofJson?_toJson⟩

theorem conditionsIn_toJson (plan : Plan) :
    conditionsIn plan.toJson = plan.conditions.map (·.toJson) := by
  have hfilter : plan.toJson.field? fieldNames "filter" = some plan.filter.toJson := by
    rw [toJson_eq]
    rfl
  have hjoins : plan.toJson.fieldItems fieldNames "joins" = plan.joins.map (·.toJson) := by
    rw [toJson_eq]
    rfl
  rw [conditionsIn, conditions, hfilter, hjoins, Option.toList_some, List.flatMap_singleton,
    Filter.conditionsIn_toJson _ (Nat.le_refl _), List.map_append, List.flatMap_map,
    List.map_flatMap]
  exact congrArg _ (List.flatMap_congr fun j _ => j.conditionsIn_toJson)

end Plan

/-! ## Reloading -/

section Reloading

variable {α : Type} (write : α → Json) (read? : Json → Option α)

/-- One is loaded from what is stored of the other, in whatever order the members come back, after
it was stored and loaded some number of times. -/
inductive Reloads : α → α → Prop
  | done (a : α) : Reloads a a
  | again {a b c : α} {data : Json} (hdata : Rearranged (write a) data)
      (hread : read? data = some b) (h : Reloads b c) : Reloads a c

/-- What is stored is loaded as the same, any number of times. -/
structure Settled (a : α) : Prop where
  /-- What is stored names no member twice, so that it is among its own rearrangements. -/
  distinct : Rearranged (write a) (write a)
  loads : ∀ data, Rearranged (write a) data → read? data = some a
  rewrites : (read? (write a)).map write = some (write a)
  reloads : ∀ b, Reloads write read? a b → b = a

variable {write read?} {a : α}

theorem settled_of_reload (hread : IgnoresOrder read?) (hself : Rearranged (write a) (write a))
    (h : read? (write a) = some a) : Settled write read? a where
  distinct := hself
  loads _ hdata := (hread hdata).symm.trans h
  rewrites := by rw [h, Option.map_some]
  reloads b hb := by
    induction hb with
    | done a => rfl
    | again hdata hload _ ih =>
        obtain rfl := Option.some.inj (h.symm.trans ((hread hdata).trans hload))
        exact ih hself h

end Reloading

/-- Stored and loaded by way of its conditions: all else comes back as it was. -/
structure ByConditions {α : Type} [BEq α] (write : α → Json) (read? : Json → Option α)
    (conditions : α → List Condition) (conditionsIn : Json → List Json) : Prop where
  ignoresOrder : IgnoresOrder read?
  distinct (a : α) : Rearranged (write a) (write a)
  forall₂ {data : Json} {a : α} (h : read? data = some a) :
    List.Forall₂ (fun inner c => Condition.ofJson? inner = some c) (conditionsIn data)
      (conditions a)
  stored (a : α) : conditionsIn (write a) = (conditions a).map (·.toJson)
  reads {a : α} (h : ∀ c ∈ conditions a, Condition.ofJson? c.toJson = some c) :
    read? (write a) = some a
  restores (a : α) : Restores a (∀ c ∈ conditions a, c.Finite) (read? (write a))

theorem Join.byConditions :
    ByConditions (fun j : Join => j.toJson) ofJson? conditions conditionsIn where
  ignoresOrder := ignoresOrder_ofJson?
  distinct := rearranged_toJson_self
  forall₂ := forall₂_conditions
  stored := conditionsIn_toJson
  reads := ofJson?_toJson
  restores j := j.restores.congr finite_iff_conditions

theorem Plan.byConditions :
    ByConditions (fun plan : Plan => plan.toJson) ofJson? conditions conditionsIn where
  ignoresOrder := ignoresOrder_ofJson?
  distinct := rearranged_toJson_self
  forall₂ := forall₂_conditions
  stored := conditionsIn_toJson
  reads := ofJson?_toJson
  restores plan := plan.restores.congr finite_iff_conditions

namespace ByConditions

variable {α : Type} [BEq α] {write : α → Json} {read? : Json → Option α}
  {conditions : α → List Condition} {conditionsIn : Json → List Json} {data : Json} {a back : α}

theorem finite (h : ByConditions write read? conditions conditionsIn)
    (hload : read? data = some a) : ∀ c ∈ conditions a, c.Finite := by
  intro c hc
  obtain ⟨_, -, hread⟩ := exists_left_of_forall₂ (h.forall₂ hload) hc
  exact Condition.finite_of_ofJson? hread

theorem settled (h : ByConditions write read? conditions conditionsIn) (hload : read? data = some a)
    (hdecimals : ∀ c ∈ conditions a, c.ReadsBack) : Settled write read? a := by
  refine settled_of_reload h.ignoresOrder (h.distinct a) (h.reads fun c hc => ?_)
  exact c.ofJson?_toJson_of_readsBack (h.finite hload c hc) (hdecimals c hc)

/-- Decimals that were loaded from what was stored of others come back. -/
theorem readsBack (h : ByConditions write read? conditions conditionsIn)
    (hload : read? data = some a) (hback : read? (write a) = some back) :
    ∀ c ∈ conditions back, c.ReadsBack := by
  intro c hc
  have hparts := h.forall₂ hback
  rw [h.stored a] at hparts
  obtain ⟨_, hinner, hread⟩ := exists_left_of_forall₂ hparts hc
  obtain ⟨stored, hstored, rfl⟩ := List.mem_map.1 hinner
  rw [Condition.ofJson?_toJson (h.finite hload stored hstored)] at hread
  obtain rfl := Option.some.inj hread
  exact stored.readsBack_unsignedZeros

theorem exists_settled (h : ByConditions write read? conditions conditionsIn)
    (hload : read? data = some a) :
    ∃ back, read? (write a) = some back ∧ Equal a back ∧ Settled write read? back := by
  have hrestores := h.restores a
  generalize hback : read? (write a) = result at hrestores
  cases hrestores with
  | refused hlost => exact absurd (h.finite hload) hlost
  | kept _ hequal => exact ⟨_, rfl, hequal, h.settled hback (h.readsBack hload hback)⟩

end ByConditions

namespace Plan

/-- Whatever was loaded as a plan, or as a join, is loaded as the same from what is stored of it,
any number of times, if its decimals come back from their texts.  In any case it is loaded again, up
to `==`, and is the same from then on. -/
theorem settled_of_loaded :
    (∀ data plan, ofJson? data = some plan →
      ((∀ c ∈ plan.conditions, c.ReadsBack) →
        Settled (fun plan : Plan => plan.toJson) ofJson? plan) ∧
      ∃ back, ofJson? plan.toJson = some back ∧ Equal plan back ∧
        Settled (fun plan : Plan => plan.toJson) ofJson? back) ∧
    ∀ data j, Join.ofJson? data = some j →
      ((∀ c ∈ j.conditions, c.ReadsBack) →
        Settled (fun j : Join => j.toJson) Join.ofJson? j) ∧
      ∃ back, Join.ofJson? j.toJson = some back ∧ Equal j back ∧
        Settled (fun j : Join => j.toJson) Join.ofJson? back :=
  ⟨fun _ _ h => ⟨byConditions.settled h, byConditions.exists_settled h⟩,
    fun _ _ h => ⟨Join.byConditions.settled h, Join.byConditions.exists_settled h⟩⟩

/-- A join on a price with two decimal places and a rate that is given as an integer, spelled as an
array where the alias is left open, and with a member that is not known. -/
def pricedJoinData : Json :=
  .array [.string "order", .string "customerid", .string "customer", .string "id", .null,
    .string "inner", .object [("mode", .string "all_columns"), ("columns", .null)],
    .object [("version", .int 2), ("subfilters", .array []), ("conditions",
      .array [.object [("values", .array [.object [("value", .string "1.00"),
        ("type", .string "decimal")], .array [.string "float64", .int 2]]),
        ("operator", .string "in"), ("attribute", .string "price")]]),
      ("combinator", .string "and")],
    .array []]

def pricedData : Json :=
  .object [("consistency", .string "default"), ("sort", .array []),
    ("joins", .array [pricedJoinData]), ("filter", .array [.string "or", .array [], .array []]),
    ("columns", .array [.string "explicit_set", .array [.string "name"]]),
    ("entity", .string "order")]

theorem settled_of_loaded_pricedData :
    (∃ plan, ofJson? pricedData = some plan ∧
      Settled (fun plan : Plan => plan.toJson) ofJson? plan) ∧
    ∃ j, Join.ofJson? pricedJoinData = some j ∧
      Settled (fun j : Join => j.toJson) Join.ofJson? j := by
  have hplan : (ofJson? pricedData).any fun plan => ∀ c ∈ plan.conditions, c.ReadsBack := by
    decide +kernel
  have hjoin : (Join.ofJson? pricedJoinData).any fun j => ∀ c ∈ j.conditions, c.ReadsBack := by
    decide +kernel
  obtain ⟨hsome, hdecimals⟩ := (Option.any_eq_true_iff_get _ _).1 hplan
  obtain ⟨hsome', hdecimals'⟩ := (Option.any_eq_true_iff_get _ _).1 hjoin
  have hload := (Option.some_get hsome).symm
  have hload' := (Option.some_get hsome').symm
  exact ⟨⟨_, hload, (settled_of_loaded.1 _ _ hload).1 (of_decide_eq_true hdecimals)⟩,
    ⟨_, hload', (settled_of_loaded.2 _ _ hload').1 (of_decide_eq_true hdecimals')⟩⟩

end Plan

end EntityQuery
