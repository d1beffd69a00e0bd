import Mathlib.Algebra.Ring.Nat
import Mathlib.Data.Option.Basic
import EntityQuery.Proofs.Equality.Parts
import EntityQuery.Proofs.Plan.WellFormed

/-!
# Equality of plans

`==` on plans is not identity, for it takes decimals of one amount for one value.  Two plans that it
takes for one have the same shape: they differ in values alone, and there by `==`.  So it is opened
once for each kind of tree, into equality of everything else and a relation between the lists of
members; then all that counts or finds members agrees on equal plans.
-/

namespace EntityQuery

/-! ## Filters -/

theorem Condition.equal_iff {c d : Condition} : Equal c d ↔
    c.attr = d.attr ∧ c.operator = d.operator ∧ List.Forall₂ Equal c.values d.values := by
  have hparts : (c == d) =
      (c.attr == d.attr && (c.operator == d.operator && c.values == d.values)) := rfl
  rw [Equal, hparts, Bool.and_eq_true, Bool.and_eq_true, beq_iff_eq, beq_iff_eq]
  exact and_congr_right' (and_congr_right' equal_list_iff)

instance : EquivBEq Condition :=
  equivBEq_of_parts (fun c => (c.attr, c.operator, c.values)) fun _ _ => Iff.rfl

namespace Filter

variable {f g : Filter} {fs gs : List Filter}

theorem sameAll_iff : sameAll fs gs = true ↔ List.Forall₂ Equal fs gs := by
  induction fs generalizing gs with
  | nil => cases gs <;> simp [sameAll]
  | cons f fs ih =>
      cases gs with
      | nil => simp [sameAll]
      | cons g gs =>
          rw [sameAll, Bool.and_eq_true, List.forall₂_cons, ih]
          rfl

theorem equal_iff : Equal f g ↔ f.combinator = g.combinator ∧
    List.Forall₂ Equal f.conditions g.conditions ∧
      List.Forall₂ Equal f.subfilters g.subfilters := by
  obtain ⟨combinator, conditions, subfilters⟩ := f
  obtain ⟨combinator', conditions', subfilters'⟩ := g
  change same _ _ = true ↔ _
  rw [same, Bool.and_eq_true, Bool.and_eq_true, decide_eq_true_eq, sameAll_iff, and_assoc]
  exact and_congr_right' (and_congr_left' equal_list_iff)

theorem equal_iff_parts (f g : Filter) : Equal f g ↔
    Equal (f.combinator, f.conditions, f.subfilters)
      (g.combinator, g.conditions, g.subfilters) := by
  rw [equal_iff, equal_prod_iff, equal_prod_iff, equal_eq_iff, equal_list_iff, equal_list_iff]

theorem equivAt (f : Filter) : EquivAt f := by
  induction f using Filter.induction with
  | step f ih =>
      exact .of_parts _ equal_iff_parts
        (.prod (.of_equivBEq _) (.prod (.of_equivBEq _) (.list ih)))

instance : EquivBEq Filter := equivBEq_of_equivAt equivAt

theorem totalCount_eq (fs : List Filter) : totalCount fs = (fs.map conditionCount).sum := by
  induction fs with
  | nil => rfl
  | cons f fs ih => rw [totalCount, ih, List.map_cons, List.sum_cons]

theorem conditionCount_eq_of_equal (h : Equal f g) : f.conditionCount = g.conditionCount := by
  induction f using Filter.induction generalizing g with
  | step f ih =>
      obtain ⟨-, hconditions, hsubfilters⟩ := equal_iff.1 h
      have hnested : f.subfilters.map conditionCount = g.subfilters.map conditionCount := by
        rw [← List.forall₂_eq_eq_eq]
        exact forall₂_map_of_mem hsubfilters fun child hchild other => ih child hchild
      cases f
      cases g
      rw [conditionCount, conditionCount, totalCount_eq, totalCount_eq, hnested,
        hconditions.length_eq]

end Filter

/-! ## Joins -/

namespace Join

variable {a b : Join} {as bs : List Join}

theorem sameAll_iff : sameAll as bs = true ↔ List.Forall₂ Equal as bs := by
  induction as generalizing bs with
  | nil => cases bs <;> simp [sameAll]
  | cons a as ih =>
      cases bs with
      | nil => simp [sameAll]
      | cons b bs =>
          rw [sameAll, Bool.and_eq_true, List.forall₂_cons, ih]
          rfl

/-- Equal joins differ in equal filters and in equal nested joins alone. -/
theorem equal_iff : Equal a b ↔ ∃ filter nested, b = { a with filter, nested } ∧
    Equal a.filter filter ∧ List.Forall₂ Equal a.nested nested := by
  cases a
  cases b
  change same _ _ = true ↔ _
  simp only [same, Bool.and_eq_true, decide_eq_true_eq, sameAll_iff, Join.mk.injEq]
  constructor
  · rintro ⟨⟨⟨⟨⟨⟨⟨⟨rfl, rfl⟩, rfl⟩, rfl⟩, rfl⟩, rfl⟩, rfl⟩, hfilter⟩, hnested⟩
    exact ⟨_, _, ⟨rfl, rfl, rfl, rfl, rfl, rfl, rfl, rfl, rfl⟩, hfilter, hnested⟩
  · rintro ⟨_, _, ⟨rfl, rfl, rfl, rfl, rfl, rfl, rfl, rfl, rfl⟩, hfilter, hnested⟩
    exact ⟨⟨⟨⟨⟨⟨⟨⟨rfl, rfl⟩, rfl⟩, rfl⟩, rfl⟩, rfl⟩, rfl⟩, hfilter⟩, hnested⟩

theorem equal_iff_parts (a b : Join) : Equal a b ↔
    Equal ((a.localEntity, a.localAttribute, a.remoteEntity, a.remoteAttribute, a.aliasName, a.kind,
        a.columns), a.filter, a.nested)
      ((b.localEntity, b.localAttribute, b.remoteEntity, b.remoteAttribute, b.aliasName, b.kind,
        b.columns), b.filter, b.nested) := by
  cases a
  cases b
  change same _ _ = true ↔ _
  simp [same, sameAll_iff, equal_prod_iff, equal_list_iff, and_assoc]

theorem equivAt (j : Join) : EquivAt j := by
  induction j using Join.induction with
  | step j ih =>
      exact .of_parts _ equal_iff_parts
        (.prod (.of_equivBEq _) (.prod (.of_equivBEq _) (.list ih)))

instance : EquivBEq Join := equivBEq_of_equivAt equivAt

theorem maxDepth_eq_of_forall₂ (h : List.Forall₂ (fun a b => depth a = depth b) as bs) :
    maxDepth as = maxDepth bs := by
  induction h with
  | nil => rfl
  | cons hab _ ih => rw [maxDepth, maxDepth, hab, ih]

theorem depth_eq_of_equal (h : Equal a b) : a.depth = b.depth := by
  induction a using Join.induction generalizing b with
  | step a ih =>
      obtain ⟨filter, nested, rfl, -, hnested⟩ := equal_iff.1 h
      have hdepths := forall₂_imp_of_mem hnested fun child hchild other => ih child hchild
      cases a
      rw [depth, depth, maxDepth_eq_of_forall₂ hdepths]

/-- The joins of equal forests are equal, one by one in the order of the listings. -/
theorem forall₂_listing (h : Equal a b) : List.Forall₂ Equal a.listing b.listing := by
  induction a using Join.induction generalizing b with
  | step a ih =>
      obtain ⟨filter, nested, hb, -, hnested⟩ := equal_iff.1 h
      have hlistings := forall₂_map_of_mem hnested fun child hchild other => ih child hchild
      have hbelow : b.nested = nested := by rw [hb]
      rw [listing_eq, listing_eq, hbelow, listingAll_eq_flatMap, listingAll_eq_flatMap]
      exact .cons h (List.rel_flatten hlistings)

theorem forall₂_listingAll (h : List.Forall₂ Equal as bs) :
    List.Forall₂ Equal (listingAll as) (listingAll bs) := by
  rw [listingAll_eq_flatMap, listingAll_eq_flatMap]
  exact List.rel_flatten (forall₂_map_of_mem h fun _ _ _ => forall₂_listing)

/-! ## Counting and finding -/

mutual

theorem count_eq_length (j : Join) : j.count = j.listing.length := by
  cases j
  rw [count, listing, List.length_cons, totalCount_eq_length, Nat.add_comm]

theorem totalCount_eq_length (js : List Join) : totalCount js = (listingAll js).length := by
  cases js with
  | nil => rfl
  | cons j js =>
      rw [totalCount, listingAll, List.length_append, count_eq_length, totalCount_eq_length]

end

mutual

theorem find?_eq (aliasName : String) (j : Join) :
    find? aliasName j = j.listing.find? (·.aliasName = some aliasName) := by
  cases j
  rw [find?, listing, List.find?_cons, findIn?_eq]
  split <;> simp_all

/-- The join that is found is the first of the listing. -/
theorem findIn?_eq (aliasName : String) (js : List Join) :
    findIn? aliasName js = (listingAll js).find? (·.aliasName = some aliasName) := by
  cases js with
  | nil => rfl
  | cons j js =>
      rw [findIn?, listingAll, List.find?_append, find?_eq, findIn?_eq]
      exact Option.orElse_eq_or ..

end

theorem findIn?_rel (h : List.Forall₂ Equal as bs) (aliasName : String) :
    Option.Rel Equal (findIn? aliasName as) (findIn? aliasName bs) := by
  rw [findIn?_eq, findIn?_eq]
  have hlistings := forall₂_listingAll h
  generalize listingAll as = listed, listingAll bs = listed' at hlistings
  induction hlistings with
  | nil => exact .none
  | @cons a b _ _ hab _ ih =>
      obtain ⟨filter, nested, hb, -, -⟩ := equal_iff.1 hab
      have hname : b.aliasName = a.aliasName := by rw [hb]
      rw [List.find?_cons, List.find?_cons, hname]
      split
      · exact .some hab
      · exact ih

end Join

/-! ## Plans -/

namespace Plan

variable {plan plan' : Plan}

/-- Equal plans differ in equal filters and in equal joins alone. -/
theorem equal_iff : Equal plan plan' ↔ ∃ filter joins, plan' = { plan with filter, joins } ∧
    Equal plan.filter filter ∧ List.Forall₂ Equal plan.joins joins := by
  cases plan
  cases plan'
  change (_ == _ && (_ == _ && (_ == _ && (_ == _ && (_ == _ && (_ == _ && _ == _)))))) = true ↔ _
  simp only [Bool.and_eq_true, beq_iff_eq, Plan.mk.injEq]
  constructor
  · rintro ⟨rfl, rfl, hfilter, hjoins, rfl, rfl, rfl⟩
    exact ⟨_, _, ⟨rfl, rfl, rfl, rfl, rfl, rfl, rfl⟩, hfilter, equal_list_iff.1 hjoins⟩
  · rintro ⟨_, _, ⟨rfl, rfl, rfl, rfl, rfl, rfl, rfl⟩, hfilter, hjoins⟩
    exact ⟨rfl, rfl, hfilter, equal_list_iff.2 hjoins, rfl, rfl, rfl⟩

instance : EquivBEq Plan :=
  equivBEq_of_parts (fun plan => (plan.entity, plan.columns, plan.filter, plan.joins, plan.sort,
    plan.paging, plan.consistency)) fun _ _ => Iff.rfl

/-- Whatever is counted or found in equal plans agrees. -/
structure Agreement (plan plan' : Plan) : Prop where
  joinCount : plan.joinCount = plan'.joinCount
  conditionCount : plan.filter.conditionCount = plan'.filter.conditionCount
  joins : List.Forall₂
    (fun a b => Equal a b ∧ a.depth = b.depth ∧ a.filter.conditionCount = b.filter.conditionCount)
    (Join.listingAll plan.joins) (Join.listingAll plan'.joins)
  findJoin? (aliasName : String) :
    Option.Rel Equal (plan.findJoin? aliasName) (plan'.findJoin? aliasName)

theorem agreement_of_equal (h : Equal plan plan') : Agreement plan plan' := by
  obtain ⟨filter, joins, rfl, hfilter, hjoins⟩ := equal_iff.1 h
  have hlistings := Join.forall₂_listingAll hjoins
  refine ⟨?_, Filter.conditionCount_eq_of_equal hfilter, ?_, Join.findIn?_rel hjoins⟩
  · rw [joinCount, joinCount, Join.totalCount_eq_length, Join.totalCount_eq_length,
      hlistings.length_eq]
  · refine hlistings.imp fun a b hab => ⟨hab, Join.depth_eq_of_equal hab, ?_⟩
    obtain ⟨_, _, rfl, hfilter, -⟩ := Join.equal_iff.1 hab
    exact Filter.conditionCount_eq_of_equal hfilter

end Plan

end EntityQuery
