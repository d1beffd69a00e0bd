import EntityQuery.Proofs.Call.Calculus
import EntityQuery.Proofs.Call.Filtering
import EntityQuery.Proofs.Plan.WellFormed

/-!
# Sizes of filters and drafts

A filter is empty if no condition is listed in it, however many filters are nested in it.  A draft
is empty if there is neither a criterion nor a group in it, so that a draft of empty groups is not
empty while the filter that it renders to is.  It is the only draft on which the two disagree.

The conditions of the filter that a program builds are read off the program: each call adds what is
accepted of it, and a group adds what its calls add or, if one of them fails, nothing.
-/

namespace EntityQuery

namespace Filter

theorem listingAll_append (fs gs : List Filter) :
    listingAll (fs ++ gs) = listingAll fs ++ listingAll gs := by
  induction fs with
  | nil => rfl
  | cons f fs ih => rw [List.cons_append, listingAll, listingAll, ih, List.append_assoc]

mutual

theorem conditionCount_eq_length (f : Filter) : f.conditionCount = f.listing.length := by
  cases f
  rw [conditionCount, listing, List.length_append, totalCount_eq_length]

theorem totalCount_eq_length (fs : List Filter) : totalCount fs = (listingAll fs).length := by
  cases fs with
  | nil => rfl
  | cons f fs =>
      rw [totalCount, listingAll, List.length_append, conditionCount_eq_length,
        totalCount_eq_length]

end

mutual

theorem isEmpty_iff (f : Filter) : f.isEmpty = true ↔ f.listing = [] := by
  cases f
  rw [isEmpty, listing, Bool.and_eq_true, List.isEmpty_iff, List.append_eq_nil_iff, allEmpty_iff]

theorem allEmpty_iff (fs : List Filter) : allEmpty fs = true ↔ listingAll fs = [] := by
  cases fs with
  | nil => exact iff_of_true rfl rfl
  | cons f fs =>
      rw [allEmpty, listingAll, Bool.and_eq_true, List.append_eq_nil_iff, isEmpty_iff, allEmpty_iff]

end

theorem isEmpty_iff_conditionCount (f : Filter) : f.isEmpty = true ↔ f.conditionCount = 0 := by
  rw [isEmpty_iff, conditionCount_eq_length, List.length_eq_zero_iff]

end Filter

/-! ## Drafts -/

namespace FilterDraft

mutual

/-- The groups in a draft at any depth, each before those in it. -/
def nestedGroups : FilterDraft → List FilterDraft
  | ⟨_, _, groups⟩ => nestedGroupsOf groups

def nestedGroupsOf : List FilterDraft → List FilterDraft
  | [] => []
  | group :: groups => group :: (group.nestedGroups ++ nestedGroupsOf groups)

end

mutual

/-- No condition is rendered exactly if neither the draft nor a group in it has a criterion. -/
theorem listing_render_eq_nil_iff (f : FilterDraft) :
    f.render.listing = [] ↔ f.criteria = [] ∧ ∀ group ∈ f.nestedGroups, group.criteria = [] := by
  cases f
  rw [render, Filter.listing, nestedGroups, List.append_eq_nil_iff, List.map_eq_nil_iff,
    listingAll_renderAll_eq_nil_iff]

theorem listingAll_renderAll_eq_nil_iff (groups : List FilterDraft) :
    Filter.listingAll (renderAll groups) = [] ↔
      ∀ group ∈ nestedGroupsOf groups, group.criteria = [] := by
  cases groups with
  | nil => simp [renderAll, Filter.listingAll, nestedGroupsOf]
  | cons group groups =>
      rw [renderAll, Filter.listingAll, nestedGroupsOf, List.append_eq_nil_iff,
        listing_render_eq_nil_iff, listingAll_renderAll_eq_nil_iff, List.forall_mem_cons,
        List.forall_mem_append, and_assoc]

end

theorem isEmpty_iff (f : FilterDraft) : f.isEmpty = true ↔ f.criteria = [] ∧ f.groups = [] := by
  rw [isEmpty, Bool.and_eq_true, List.isEmpty_iff, List.isEmpty_iff]

theorem size_eq_length_render (f : FilterDraft) : f.size = f.render.conditions.length := by
  rw [size, render_eq, List.length_map]

theorem isEmpty_render_of_isEmpty {f : FilterDraft} (h : f.isEmpty = true) :
    f.render.isEmpty = true := by
  obtain ⟨hcriteria, hgroups⟩ := f.isEmpty_iff.1 h
  rw [Filter.isEmpty_iff, listing_render_eq_nil_iff]
  cases f
  cases hgroups
  exact ⟨hcriteria, fun _ hgroup => nomatch hgroup⟩

/-- A draft is taken for empty where its filter is not, or the other way, exactly if there are
groups in it but no criterion anywhere. -/
theorem isEmpty_ne_render_iff (f : FilterDraft) : f.isEmpty ≠ f.render.isEmpty ↔
    f.groups ≠ [] ∧ f.criteria = [] ∧ ∀ group ∈ f.nestedGroups, group.criteria = [] := by
  rw [← listing_render_eq_nil_iff, ← Filter.isEmpty_iff]
  by_cases hdraft : f.isEmpty = true
  · have hgroups := (f.isEmpty_iff.1 hdraft).2
    simp [hdraft, isEmpty_render_of_isEmpty hdraft, hgroups]
  · -- The filter is empty only without criteria of the draft, so that it must have groups.
    have hgroups : f.render.isEmpty = true → f.groups ≠ [] := by
      intro hrender hnone
      rw [Filter.isEmpty_iff, listing_render_eq_nil_iff] at hrender
      exact hdraft (f.isEmpty_iff.2 ⟨hrender.1, hnone⟩)
    rw [Bool.not_eq_true] at hdraft
    rw [hdraft, ne_comm, Bool.ne_false_iff]
    exact ⟨fun hrender => ⟨hgroups hrender, hrender⟩, And.right⟩

end FilterDraft

/-! ## Programs -/

namespace FilterCall

/-- The draft that some calls leave, up to the first that fails. -/
def built (combinator : Combinator) (calls : List FilterCall) : FilterDraft :=
  (runAll calls (.empty combinator)).1

mutual

/-- The conditions that are accepted of a call, in the order they come in.  Those of a group are
given up if one of its calls fails. -/
def accepted : FilterCall → List Condition
  | group _ calls => if error? calls = none then acceptedAll calls else []
  | attempt call => call.accepted
  | call => call.condition?.toList

def acceptedAll : List FilterCall → List Condition
  | [] => []
  | call :: calls => call.accepted ++ acceptedAll calls

end

mutual

/-- What is accepted of a call is listed in what it adds. -/
theorem accepted_perm (call : FilterCall) :
    call.accepted.Perm (call.condition?.toList ++ Filter.listingAll call.subfilter?.toList) := by
  have hown : ∀ own : Option Condition,
      own.toList.Perm (own.toList ++ Filter.listingAll (none : Option Filter).toList) :=
    fun own => .of_eq (List.append_nil _).symm
  match call with
  | condition attr operator value => exact hown _
  | listCondition attr operator values => exact hown _
  | push criterion => exact hown _
  | named shortcut => exact hown _
  | namedIf make value test => exact hown _
  | attempt call => exact accepted_perm call
  | group combinator calls =>
      rw [accepted, condition?, subfilter?]
      split
      · have hgroup := acceptedAll_perm calls
        rw [← subfilters_eq_filterMap] at hgroup
        simpa [Filter.listingAll, Filter.listing] using hgroup
      · exact hown none

theorem acceptedAll_perm (calls : List FilterCall) :
    (acceptedAll calls).Perm
      (calls.filterMap condition? ++ Filter.listingAll (calls.filterMap subfilter?)) := by
  match calls with
  | [] => exact .refl _
  | call :: calls =>
      have hboth := (accepted_perm call).append (acceptedAll_perm calls)
      rw [acceptedAll, filterMap_cons_eq_append, filterMap_cons_eq_append,
        Filter.listingAll_append]
      refine hboth.trans ?_
      -- The groups of the first call and the conditions of the later ones change places.
      rw [List.append_assoc, List.append_assoc]
      exact .append_left _ (List.perm_append_comm_assoc ..)

end

/-- A program builds a draft whose filter has the conditions that are accepted of its calls. -/
theorem listing_render_built_perm (combinator : Combinator) (calls : List FilterCall) :
    (built combinator calls).render.listing.Perm (acceptedAll (made calls)) := by
  have hrender := (runAll_spec calls (.empty combinator)).2
  rw [built, hrender]
  exact (acceptedAll_perm (made calls)).symm

/-- Counts and emptiness of filters and of drafts.  A filter counts the conditions of its listing
and is empty if there are none.  The filter that a program builds counts what is accepted of its
calls, without the groups that were given up.  A draft has as many criteria as its filter has
conditions at the top, and an empty draft has an empty filter; one of the two is empty alone exactly
if the draft has groups, while neither the draft nor a group at any depth has a criterion. -/
theorem counts_and_emptiness :
    (∀ f : Filter, f.conditionCount = f.listing.length ∧
      (f.isEmpty = true ↔ f.conditionCount = 0)) ∧
    (∀ (combinator : Combinator) (calls : List FilterCall),
      (built combinator calls).render.conditionCount = (acceptedAll (made calls)).length) ∧
    ∀ f : FilterDraft,
      f.size = f.render.conditions.length ∧
      (f.isEmpty = true → f.render.isEmpty = true) ∧
      (f.isEmpty ≠ f.render.isEmpty ↔
        f.groups ≠ [] ∧ f.criteria = [] ∧ ∀ group ∈ f.nestedGroups, group.criteria = []) := by
  refine ⟨?_, ?_, ?_⟩
  · exact fun f => ⟨f.conditionCount_eq_length, f.isEmpty_iff_conditionCount⟩
  · intro combinator calls
    rw [Filter.conditionCount_eq_length]
    exact (listing_render_built_perm combinator calls).length_eq
  · exact fun f => ⟨f.size_eq_length_render, FilterDraft.isEmpty_render_of_isEmpty,
      f.isEmpty_ne_render_iff⟩

/-- A group that is given up leaves nothing, also in the filter. -/
theorem counts_and_emptiness_failingGroup :
    (built .and [.attempt failingGroup]).isEmpty = true ∧
      (built .and [.attempt failingGroup]).render.isEmpty = true :=
  ⟨rfl, (counts_and_emptiness.2.2 (built .and [.attempt failingGroup])).2.1 rfl⟩

/-- A condition beside an empty group: no group has a condition, and yet neither the draft nor its
filter is empty. -/
theorem isEmpty_agrees_besideEmptyGroup :
    ¬ ((built .and [.named (.isNull "name"), .group .and []]).isEmpty ≠
          (built .and [.named (.isNull "name"), .group .and []]).render.isEmpty ↔
        (built .and [.named (.isNull "name"), .group .and []]).groups ≠ [] ∧
          ∀ group ∈ (built .and [.named (.isNull "name"), .group .and []]).nestedGroups,
            group.criteria = []) := by
  intro h
  refine h.2 ⟨List.cons_ne_nil _ _, ?_⟩ rfl
  intro group hgroup
  cases List.mem_singleton.1 hgroup
  rfl

end FilterCall

end EntityQuery
