import EntityQuery.Plan

/-!
# Well-formed plans

A plan is a tree of filters and a forest of joins.  Both are listed depth first, and what makes a
plan well formed is said of the members of the listings: each condition has as many values as its
operator takes, no projection names an attribute twice, and the filter of a join is a conjunction.
-/

namespace EntityQuery

/-! ## Listings -/

namespace Filter

/-- What follows for a filter from the filters nested in it holds of every filter. -/
@[elab_as_elim]
theorem induction {P : Filter → Prop} (f : Filter)
    (step : ∀ f : Filter, (∀ child ∈ f.subfilters, P child) → P f) : P f :=
  match f with
  | ⟨combinator, conditions, subfilters⟩ =>
      step ⟨combinator, conditions, subfilters⟩ fun child _ => induction child step

mutual

/-- The conditions of a filter, those of nested filters after its own. -/
def listing : Filter → List Condition
  | ⟨_, conditions, subfilters⟩ => conditions ++ listingAll subfilters

def listingAll : List Filter → List Condition
  | [] => []
  | f :: fs => f.listing ++ listingAll fs

end

theorem mem_listingAll {c : Condition} {fs : List Filter} :
    c ∈ listingAll fs ↔ ∃ f ∈ fs, c ∈ f.listing := by
  induction fs with
  | nil => simp [listingAll]
  | cons f fs ih => simp [listingAll, ih]

theorem mem_listing {c : Condition} {f : Filter} :
    c ∈ f.listing ↔ c ∈ f.conditions ∨ ∃ child ∈ f.subfilters, c ∈ child.listing := by
  cases f
  rw [listing, List.mem_append, mem_listingAll]

end Filter

namespace Join

/-- What follows for a join from the joins nested in it holds of every join. -/
@[elab_as_elim]
theorem induction {P : Join → Prop} (j : Join)
    (step : ∀ j : Join, (∀ child ∈ j.nested, P child) → P j) : P j :=
  match j with
  | ⟨localEntity, localAttribute, remoteEntity, remoteAttribute, aliasName, kind, columns, filter,
        nested⟩ =>
      step ⟨localEntity, localAttribute, remoteEntity, remoteAttribute, aliasName, kind, columns,
        filter, nested⟩ fun child _ => induction child step

mutual

/-- A join and the joins nested in it, each before those nested in it. -/
def listing : Join → List Join
  | ⟨localEntity, localAttribute, remoteEntity, remoteAttribute, aliasName, kind, columns, filter,
        nested⟩ =>
      ⟨localEntity, localAttribute, remoteEntity, remoteAttribute, aliasName, kind, columns, filter,
        nested⟩ :: listingAll nested

def listingAll : List Join → List Join
  | [] => []
  | j :: js => j.listing ++ listingAll js

end

theorem listing_eq (j : Join) : j.listing = j :: listingAll j.nested := by
  cases j
  rw [listing]

theorem listingAll_singleton (j : Join) : listingAll [j] = j.listing := by
  rw [listingAll, listingAll, List.append_nil]

theorem listingAll_eq_flatMap (js : List Join) : listingAll js = js.flatMap listing := by
  induction js with
  | nil => rfl
  | cons j js ih => rw [listingAll, ih, List.flatMap_cons]

theorem mem_listingAll {inner : Join} {joins : List Join} :
    inner ∈ listingAll joins ↔ ∃ j ∈ joins, inner ∈ j.listing := by
  induction joins with
  | nil => simp [listingAll]
  | cons j joins ih => simp [listingAll, ih]

end Join

/-! ## Well-formedness -/

/-- A condition has as many values as its operator takes. -/
def Condition.Accepted (c : Condition) : Prop := c.operator.arity.accepts c.values.length = true

instance (c : Condition) : Decidable c.Accepted := inferInstanceAs (Decidable (_ = true))

/-- No attribute is asked for twice. -/
def Projection.Distinct : Projection → Prop
  | all => True
  | only names => names.Nodup

instance : (columns : Projection) → Decidable columns.Distinct
  | .all => inferInstanceAs (Decidable True)
  | .only names => inferInstanceAs (Decidable names.Nodup)

/-- A join is well formed, whatever is nested in it. -/
structure Join.Sound (j : Join) : Prop where
  accepted : ∀ c ∈ j.filter.listing, c.Accepted
  distinct : j.columns.Distinct
  conjunctive : j.filter.combinator = .and

/-- A plan is well formed, and so are all joins in it. -/
structure Plan.WellFormed (plan : Plan) : Prop where
  accepted : ∀ c ∈ plan.filter.listing, c.Accepted
  distinct : plan.columns.Distinct
  joins : ∀ j ∈ Join.listingAll plan.joins, j.Sound

end EntityQuery
