import Mathlib.Data.List.Nodup
import EntityQuery.Proofs.Plan.Fields
import EntityQuery.Proofs.Plan.Storage

/-!
# What decoded plans hold

Data is decoded part by part, and the parts can be found in the data beforehand: the data of each
condition and each projection, at whatever depth of filters and joins, however it is spelled and
whatever else stands beside it.  A decoded plan holds what these decode to, one for one and in the
same order.

The readers look at the shape of the data and at nothing else.  So a decoded plan has as many values
in each condition as the operator takes, and no name twice in a projection, exactly if the data has.
-/

namespace EntityQuery

/-- The items of a field of a structure that is an array. -/
def Json.fieldItems (names : List String) (name : String) (data : Json) : List Json :=
  ((data.field? names name).bind items?).getD []

theorem Json.mapM_fieldItems {α : Type} {names : List String} {name : String} {data : Json}
    {read? : Json → Option α} {as : List α}
    (h : (data.field? names name).bind (listOf? read?) = some as) :
    (data.fieldItems names name).mapM read? = some as := by
  obtain ⟨value, hfield, h⟩ := Option.bind_eq_some_iff.1 h
  obtain ⟨items, hitems, h⟩ := Option.bind_eq_some_iff.1 h
  rw [fieldItems, hfield, Option.bind_some, hitems]
  exact h

/-! ## Filters -/

namespace Filter

/-- The data of the conditions of a filter, those of nested filters after its own. -/
def conditionsIn : Nat → Json → List Json
  | 0, _ => []
  | depth + 1, data => data.fieldItems fieldNames "conditions" ++
      (data.fieldItems fieldNames "subfilters").flatMap (conditionsIn depth)

theorem listing_eq (f : Filter) : f.listing = f.conditions ++ f.subfilters.flatMap listing := by
  have hall : ∀ fs : List Filter, listingAll fs = fs.flatMap listing := by
    intro fs
    induction fs with
    | nil => rfl
    | cons f fs ih => rw [listingAll, ih, List.flatMap_cons]
  cases f
  rw [listing, hall]

theorem forall₂_conditionsIn {depth : Nat} {data : Json} {f : Filter}
    (h : ofJsonWithin? depth data = some f) :
    List.Forall₂ (fun inner c => Condition.ofJson? inner = some c) (conditionsIn depth data)
      f.listing := by
  induction depth generalizing data f with
  | zero => cases h
  | succ depth ih =>
      obtain ⟨-, hconditions, hsubfilters⟩ := ofJsonWithin?_eq_some_iff.1 h
      have hown := mapM_eq_some_iff.1 (Json.mapM_fieldItems hconditions)
      have hnested := mapM_eq_some_iff.1 (Json.mapM_fieldItems hsubfilters)
      rw [conditionsIn, listing_eq]
      exact List.rel_append hown (List.rel_flatMap hnested fun _ _ hchild => ih hchild)

end Filter

/-! ## Joins -/

namespace Join

/-- The data of a join and of the joins nested in it, each before those nested in it. -/
def joinsIn : Nat → Json → List Json
  | 0, _ => []
  | depth + 1, data => data :: (data.fieldItems fieldNames "nested_joins").flatMap (joinsIn depth)

theorem forall₂_joinsIn {depth : Nat} {data : Json} {j : Join}
    (h : ofJsonWithin? depth data = some j) :
    List.Forall₂ (fun (inner : Json) (node : Join) =>
      (inner.field? fieldNames "columns").bind Projection.ofJson? = some node.columns ∧
        (inner.field? fieldNames "filter").bind Filter.ofJson? = some node.filter)
      (joinsIn depth data) j.listing := by
  induction depth generalizing data j with
  | zero => cases h
  | succ depth ih =>
      obtain ⟨-, -, -, -, -, -, hcolumns, hfilter, hnested⟩ := ofJsonWithin?_eq_some_iff.1 h
      have hbelow := mapM_eq_some_iff.1 (Json.mapM_fieldItems hnested)
      rw [joinsIn, listing_eq, listingAll_eq_flatMap]
      exact .cons ⟨hcolumns, hfilter⟩ (List.rel_flatMap hbelow fun _ _ hchild => ih hchild)

def conditions (j : Join) : List Condition := j.listing.flatMap fun inner => inner.filter.listing

theorem forall_mem_conditions {P : Condition → Prop} {j : Join} : (∀ c ∈ j.conditions, P c) ↔
    (∀ c ∈ j.filter.listing, P c) ∧ ∀ child ∈ j.nested, ∀ c ∈ child.conditions, P c := by
  rw [conditions, listing_eq, listingAll_eq_flatMap, List.flatMap_cons, List.flatMap_assoc,
    List.forall_mem_append]
  exact and_congr_right' List.forall_mem_flatMap

def projections (j : Join) : List Projection := j.listing.map columns

def conditionsIn (data : Json) : List Json :=
  (joinsIn data.height data).flatMap fun inner =>
    (inner.field? fieldNames "filter").toList.flatMap fun filter =>
      Filter.conditionsIn filter.height filter

def projectionsIn (data : Json) : List Json :=
  (joinsIn data.height data).flatMap fun inner => (inner.field? fieldNames "columns").toList

end Join

theorem forall₂_toList_of_bind {α β : Type} {read? : α → Option β} {data : Option α} {b : β}
    (h : data.bind read? = some b) :
    List.Forall₂ (fun a b => read? a = some b) data.toList [b] := by
  obtain ⟨a, rfl, hread⟩ := Option.bind_eq_some_iff.1 h
  exact .cons hread .nil

theorem Filter.forall₂_conditionsIn_of_bind {data : Option Json} {f : Filter}
    (h : data.bind ofJson? = some f) :
    List.Forall₂ (fun inner c => Condition.ofJson? inner = some c)
      (data.toList.flatMap fun filter => conditionsIn filter.height filter) f.listing := by
  obtain ⟨filter, rfl, hfilter⟩ := Option.bind_eq_some_iff.1 h
  simpa using forall₂_conditionsIn hfilter

namespace Join

variable {data : Json} {j : Join}

theorem forall₂_conditions (h : ofJson? data = some j) :
    List.Forall₂ (fun inner c => Condition.ofJson? inner = some c) (conditionsIn data)
      j.conditions :=
  List.rel_flatMap (forall₂_joinsIn h) fun _ _ hinner =>
    Filter.forall₂_conditionsIn_of_bind hinner.2

theorem forall₂_projections (h : ofJson? data = some j) :
    List.Forall₂ (fun inner columns => Projection.ofJson? inner = some columns)
      (projectionsIn data) j.projections := by
  rw [projections, List.map_eq_flatMap]
  exact List.rel_flatMap (forall₂_joinsIn h) fun _ _ hinner => forall₂_toList_of_bind hinner.1

end Join

/-! ## Plans -/

namespace Plan

variable {data : Json} {plan : Plan}

def conditions (plan : Plan) : List Condition :=
  plan.filter.listing ++ plan.joins.flatMap Join.conditions

def projections (plan : Plan) : List Projection :=
  plan.columns :: plan.joins.flatMap Join.projections

def conditionsIn (data : Json) : List Json :=
  ((data.field? fieldNames "filter").toList.flatMap fun filter =>
      Filter.conditionsIn filter.height filter) ++
    (data.fieldItems fieldNames "joins").flatMap Join.conditionsIn

def projectionsIn (data : Json) : List Json :=
  (data.field? fieldNames "columns").toList ++
    (data.fieldItems fieldNames "joins").flatMap Join.projectionsIn

theorem forall₂_conditions (h : ofJson? data = some plan) :
    List.Forall₂ (fun inner c => Condition.ofJson? inner = some c) (conditionsIn data)
      plan.conditions := by
  obtain ⟨-, -, hfilter, hjoins, -⟩ := ofJson?_eq_some_iff.1 h
  have hbelow := mapM_eq_some_iff.1 (Json.mapM_fieldItems hjoins)
  refine List.rel_append (Filter.forall₂_conditionsIn_of_bind hfilter) ?_
  exact List.rel_flatMap hbelow fun _ _ => Join.forall₂_conditions

theorem forall₂_projections (h : ofJson? data = some plan) :
    List.Forall₂ (fun inner columns => Projection.ofJson? inner = some columns)
      (projectionsIn data) plan.projections := by
  obtain ⟨-, hcolumns, -, hjoins, -⟩ := ofJson?_eq_some_iff.1 h
  have hbelow := mapM_eq_some_iff.1 (Json.mapM_fieldItems hjoins)
  change List.Forall₂ _ _ ([plan.columns] ++ plan.joins.flatMap Join.projections)
  refine List.rel_append (forall₂_toList_of_bind hcolumns) ?_
  exact List.rel_flatMap hbelow fun _ _ => Join.forall₂_projections

end Plan

/-! ## Laws of the data -/

theorem forall_mem_iff_of_forall₂ {α β : Type} {R : α → β → Prop} {P : α → Prop} {Q : β → Prop}
    {as : List α} {bs : List β} (h : List.Forall₂ R as bs) (hPQ : ∀ a b, R a b → (P a ↔ Q b)) :
    (∀ a ∈ as, P a) ↔ ∀ b ∈ bs, Q b := by
  induction h with
  | nil => simp
  | cons hab _ ih => rw [List.forall_mem_cons, List.forall_mem_cons, hPQ _ _ hab, ih]

/-- The data of a condition lists as many values as the operator takes that it names. -/
def Condition.AcceptedIn (data : Json) : Prop :=
  ∃ operator, (data.field? fieldNames "operator").bind Operator.ofJson? = some operator ∧
    operator.arity.accepts (data.fieldItems fieldNames "values").length = true

theorem Condition.acceptedIn_iff {data : Json} {c : Condition} (h : ofJson? data = some c) :
    AcceptedIn data ↔ c.Accepted := by
  obtain ⟨-, hoperator, hvalues⟩ := ofJson?_eq_some_iff.1 h
  have hlength := (mapM_eq_some_iff.1 (Json.mapM_fieldItems hvalues)).length_eq
  rw [AcceptedIn, hoperator, hlength, Accepted]
  simp

/-- The data of a projection lists no name twice, if it lists names. -/
def Projection.DistinctIn (data : Json) : Prop :=
  ∀ names, data.tagged? "mode" "columns" = some ("explicit_set", some (.array names)) →
    (names.map Json.string?).Nodup

theorem Projection.distinctIn_iff {data : Json} {columns : Projection}
    (h : ofJson? data = some columns) : DistinctIn data ↔ columns.Distinct := by
  obtain ⟨tagged, htagged, h⟩ := Option.bind_eq_some_iff.1 h
  unfold DistinctIn
  rw [htagged]
  split at h
  · cases h
    simp [Distinct]
  · cases h
    simp [Distinct]
  · rename_i content
    simp only [Option.bind_eq_bind, Option.bind_eq_some_iff, Option.pure_def, Option.some.injEq]
      at h
    obtain ⟨names, hnames, rfl⟩ := h
    obtain ⟨items, hitems, hnames⟩ := Option.bind_eq_some_iff.1 hnames
    have hcontent : content = .array items := by
      cases content <;> cases hitems
      rfl
    have hstrings : items.map Json.string? = names.map some := by
      rw [← List.forall₂_eq_eq_eq, List.forall₂_map_left_iff, List.forall₂_map_right_iff]
      exact mapM_eq_some_iff.1 hnames
    rw [hcontent]
    simp [Distinct, hstrings, List.nodup_map_iff (Option.some_injective String)]
  · cases h

/-- Each of some conditions has as many values as its operator takes, and none of some projections
names an attribute twice. -/
structure Lawful (conditions : List Condition) (projections : List Projection) : Prop where
  accepted : ∀ c ∈ conditions, c.Accepted
  distinct : ∀ columns ∈ projections, columns.Distinct

/-- The same, said of the data of conditions and projections. -/
structure LawfulIn (conditions projections : List Json) : Prop where
  accepted : ∀ c ∈ conditions, Condition.AcceptedIn c
  distinct : ∀ columns ∈ projections, Projection.DistinctIn columns

theorem lawful_iff {conditions : List Condition} {projections : List Projection}
    {conditionsIn projectionsIn : List Json}
    (hconditions : List.Forall₂ (fun data c => Condition.ofJson? data = some c) conditionsIn
      conditions)
    (hprojections : List.Forall₂ (fun data columns => Projection.ofJson? data = some columns)
      projectionsIn projections) :
    Lawful conditions projections ↔ LawfulIn conditionsIn projectionsIn := by
  have haccepted := forall_mem_iff_of_forall₂ hconditions fun _ _ => Condition.acceptedIn_iff
  have hdistinct := forall_mem_iff_of_forall₂ hprojections fun _ _ => Projection.distinctIn_iff
  exact ⟨fun h => ⟨haccepted.2 h.accepted, hdistinct.2 h.distinct⟩,
    fun h => ⟨haccepted.1 h.accepted, hdistinct.1 h.distinct⟩⟩

namespace Plan

/-- A decoded plan, or join, is lawful if and only if its data is: decoding takes numbers of values
and lists of names as they come. -/
theorem decoded_lawful_iff (data : Json) :
    (∀ plan, ofJson? data = some plan →
      (Lawful plan.conditions plan.projections ↔
        LawfulIn (conditionsIn data) (projectionsIn data))) ∧
    ∀ j, Join.ofJson? data = some j →
      (Lawful j.conditions j.projections ↔
        LawfulIn (Join.conditionsIn data) (Join.projectionsIn data)) := by
  constructor
  · intro plan h
    exact lawful_iff (forall₂_conditions h) (forall₂_projections h)
  · intro j h
    exact lawful_iff (Join.forall₂_conditions h) (Join.forall₂_projections h)

/-- A plan stored with an item for each field, and a join with its members in another order and one
that is not known. -/
def looseData : Json :=
  .array [.string "order", .object [("mode", .string "all_columns")],
    .object [("subfilters", .array []), ("conditions", .array []), ("combinator", .string "and")],
    .array [.object [("version", .int 2), ("nested_joins", .array []),
      ("filter", .array [.string "or", .array [.object [("values", .array []),
        ("operator", .string "null"), ("attribute", .string "name")]], .array []]),
      ("columns", .array [.string "explicit_set", .array [.string "id", .string "name"]]),
      ("kind", .string "inner"), ("remote_attribute", .string "id"),
      ("remote_entity", .string "customer"), ("local_attribute", .string "customerid"),
      ("local_entity", .string "order")]],
    .array [], .null, .string "default"]

theorem decoded_lawful_iff_looseData : ∃ plan, ofJson? looseData = some plan ∧
    Lawful plan.conditions plan.projections ∧
      (Lawful plan.conditions plan.projections ↔
        LawfulIn (conditionsIn looseData) (projectionsIn looseData)) := by
  refine ⟨_, rfl, ⟨?_, ?_⟩, (decoded_lawful_iff looseData).1 _ rfl⟩
  · decide
  · decide

def unlawfulData : Json :=
  .object [("entity", .string "account"),
    ("columns", .ofTagged "mode" "columns" "explicit_set"
      (.array [.string "name", .string "name"])),
    ("filter", .object [("combinator", .string "and"),
      ("conditions", .array [.object [("attribute", .string "name"),
        ("operator", .string "equal"), ("values", .array [])]]),
      ("subfilters", .array [])]),
    ("joins", .array []), ("sort", .array []), ("paging", .null),
    ("consistency", .string "no-lock")]

theorem accepted_unlawfulData : ∃ plan, ofJson? unlawfulData = some plan ∧
    (¬ ∀ c ∈ plan.conditions, c.Accepted) ∧ ¬ ∀ columns ∈ plan.projections, columns.Distinct := by
  refine ⟨_, rfl, ?_, ?_⟩
  · decide
  · decide

end Plan

end EntityQuery
