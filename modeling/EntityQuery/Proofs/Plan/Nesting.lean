import Mathlib.Order.Bounds.Basic
import EntityQuery.Proofs.Plan.Equality

/-!
# Nesting of joins

A join is counted, found and measured by recursions of its own.  They agree with the one listing of
the forest, each join before those nested in it and siblings in order: the count is its length, and
of several joins with an alias the first of the listing is found.  The depth is measured along the
steps from a join to one nested in it, of which no chain is longer.
-/

namespace EntityQuery

namespace Join

variable {j outer inner : Join} {js : List Join} {steps : Nat}

/-- A join is reached from another by some steps, each to a join nested in the one before. -/
inductive Reaches : (outer : Join) → (steps : Nat) → (inner : Join) → Prop
  | here {j : Join} : Reaches j 0 j
  | into {outer child inner : Join} {steps : Nat} (nested : child ∈ outer.nested)
      (rest : Reaches child steps inner) : Reaches outer (steps + 1) inner

/-- The joins of a listing are those that are reached. -/
theorem mem_listing_iff : inner ∈ j.listing ↔ ∃ steps, Reaches j steps inner := by
  induction j using Join.induction with
  | step j ih =>
      rw [listing_eq, List.mem_cons, mem_listingAll]
      constructor
      · rintro (rfl | ⟨child, hchild, hinner⟩)
        · exact ⟨0, .here⟩
        · obtain ⟨steps, hsteps⟩ := (ih child hchild).1 hinner
          exact ⟨steps + 1, .into hchild hsteps⟩
      · rintro ⟨_, _ | ⟨hchild, hrest⟩⟩
        · exact .inl rfl
        · exact .inr ⟨_, hchild, (ih _ hchild).2 ⟨_, hrest⟩⟩

/-! ## Depth -/

theorem depth_eq (j : Join) : j.depth = 1 + maxDepth j.nested := by
  cases j
  rw [depth]

theorem depth_pos (j : Join) : 0 < j.depth := by
  rw [depth_eq]
  omega

theorem depth_le_maxDepth (h : j ∈ js) : j.depth ≤ maxDepth js := by
  induction js with
  | nil => cases h
  | cons first js ih =>
      rw [maxDepth]
      rcases List.mem_cons.1 h with rfl | h
      · exact Nat.le_max_left ..
      · exact Nat.le_trans (ih h) (Nat.le_max_right ..)

/-- The greatest depth is that of one of the joins, if there is one. -/
theorem exists_depth_eq_maxDepth (h : js ≠ []) : ∃ j ∈ js, j.depth = maxDepth js := by
  induction js with
  | nil => exact absurd rfl h
  | cons first js ih =>
      rw [maxDepth]
      by_cases hfirst : maxDepth js ≤ first.depth
      · exact ⟨first, List.mem_cons_self, (Nat.max_eq_left hfirst).symm⟩
      · have hjs : js ≠ [] := by
          rintro rfl
          exact hfirst (Nat.zero_le _)
        obtain ⟨j, hj, hdepth⟩ := ih hjs
        refine ⟨j, List.mem_cons_of_mem _ hj, ?_⟩
        rw [hdepth, Nat.max_eq_right (Nat.le_of_not_le hfirst)]

/-- Each step takes one off the depth at least. -/
theorem Reaches.add_depth_le (h : Reaches outer steps inner) :
    steps + inner.depth ≤ outer.depth := by
  induction h with
  | here => exact Nat.le_of_eq (Nat.zero_add _)
  | @into outer _ _ _ hchild _ ih =>
      have hle := depth_le_maxDepth hchild
      rw [depth_eq outer]
      omega

theorem exists_reaches_of_depth (j : Join) :
    ∃ deepest inner, j.depth = 1 + deepest ∧ Reaches j deepest inner := by
  induction j using Join.induction with
  | step j ih =>
      by_cases hnested : j.nested = []
      · exact ⟨0, j, by rw [depth_eq, hnested, maxDepth], .here⟩
      · obtain ⟨child, hchild, hdepth⟩ := exists_depth_eq_maxDepth hnested
        obtain ⟨deepest, inner, hdeepest, hreaches⟩ := ih child hchild
        refine ⟨deepest + 1, inner, ?_, .into hchild hreaches⟩
        rw [depth_eq, ← hdepth, hdeepest, Nat.add_comm 1 deepest]

/-- The depth is one more than the greatest number of steps that can be taken. -/
theorem exists_isGreatest_steps (j : Join) :
    ∃ deepest, j.depth = 1 + deepest ∧
      IsGreatest {steps | ∃ inner, Reaches j steps inner} deepest := by
  obtain ⟨deepest, inner, hdepth, hreaches⟩ := exists_reaches_of_depth j
  refine ⟨deepest, hdepth, ⟨inner, hreaches⟩, ?_⟩
  rintro steps ⟨other, hother⟩
  have hle := hother.add_depth_le
  have hpos := other.depth_pos
  omega

mutual

theorem depth_le_length_listing (j : Join) : j.depth ≤ j.listing.length := by
  cases j
  rw [depth, listing, List.length_cons, Nat.add_comm]
  exact Nat.succ_le_succ (maxDepth_le_length_listingAll _)

theorem maxDepth_le_length_listingAll (js : List Join) :
    maxDepth js ≤ (listingAll js).length := by
  cases js with
  | nil => exact Nat.le_refl 0
  | cons j js =>
      have hfirst := depth_le_length_listing j
      have hrest := maxDepth_le_length_listingAll js
      rw [maxDepth, listingAll, List.length_append]
      omega

end

/-! ## Finding -/

/-- What is found in a join is the join itself or lies below it, with less depth. -/
theorem reaches_of_find? {aliasName : String} {found : Join} (h : j.find? aliasName = some found) :
    found = j ∨ ∃ steps, 0 < steps ∧ Reaches j steps found ∧ found.depth < j.depth := by
  rw [find?_eq] at h
  obtain ⟨steps, hreaches⟩ := mem_listing_iff.1 (List.mem_of_find?_eq_some h)
  cases hreaches with
  | here => exact .inl rfl
  | @into _ _ _ steps hchild hrest =>
      have hle := (Reaches.into hchild hrest).add_depth_le
      exact .inr ⟨steps + 1, Nat.succ_pos steps, .into hchild hrest, by omega⟩

end Join

namespace Plan

/-- Counting, finding and measuring joins agree with the listing of the forest.  The count is its
length; what is found for an alias is its first join with that alias, if there is one.  The depth of
a join is one more than the greatest number of steps from it to a join below, and is at most the
number of joins in its own listing.  What is found in a join is that join, or lies below it and is
of less depth. -/
theorem joins_agree_with_listing (plan : Plan) :
    plan.joinCount = (Join.listingAll plan.joins).length ∧
    (∀ aliasName, plan.findJoin? aliasName =
      (Join.listingAll plan.joins).find? (·.aliasName = some aliasName)) ∧
    (∀ aliasName, plan.findJoin? aliasName = none ↔
      ∀ j ∈ Join.listingAll plan.joins, j.aliasName ≠ some aliasName) ∧
    ∀ j : Join,
      (∃ deepest, j.depth = 1 + deepest ∧
        IsGreatest {steps | ∃ inner, j.Reaches steps inner} deepest) ∧
      1 ≤ j.depth ∧ j.depth ≤ j.listing.length ∧
      ∀ aliasName found, j.find? aliasName = some found →
        found = j ∨ ∃ steps, 0 < steps ∧ j.Reaches steps found ∧ found.depth < j.depth := by
  refine ⟨Join.totalCount_eq_length _, fun aliasName => Join.findIn?_eq aliasName _, ?_, ?_⟩
  · intro aliasName
    rw [findJoin?, Join.findIn?_eq, List.find?_eq_none]
    simp only [decide_eq_true_eq, ne_eq]
  · intro j
    exact ⟨j.exists_isGreatest_steps, j.depth_pos, j.depth_le_length_listing,
      fun _ _ => Join.reaches_of_find?⟩

def partJoin (aliasName : String) (nested : List Join) : Join :=
  ⟨"product", "productid", "part", "productid", some aliasName, .inner, .all, .empty, nested⟩

def screwJoin : Join := partJoin "screw" [partJoin "thread" []]

def assemblyJoin : Join :=
  partJoin "assembly" [partJoin "frame" [screwJoin], partJoin "screw" []]

def assemblyPlan : Plan :=
  { entity := "product"
    columns := .all
    filter := .empty
    joins := [assemblyJoin]
    sort := []
    paging := none
    consistency := .noLock }

theorem joins_agree_with_listing_assemblyPlan :
    assemblyJoin.find? "screw" = some screwJoin ∧
      (screwJoin = assemblyJoin ∨ ∃ steps, 0 < steps ∧ assemblyJoin.Reaches steps screwJoin ∧
        screwJoin.depth < assemblyJoin.depth) :=
  ⟨rfl, ((joins_agree_with_listing assemblyPlan).2.2.2 assemblyJoin).2.2.2 "screw" screwJoin rfl⟩

end Plan

end EntityQuery
