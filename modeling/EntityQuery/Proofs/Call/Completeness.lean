import EntityQuery.Proofs.Call.Projection
import EntityQuery.Proofs.Call.Soundness
import EntityQuery.Proofs.Draft.Batches

/-!
# Every well-formed plan can be built

A program of calls is read off a plan, part by part: a call for each condition, a group for each
nested filter, a new join for each join, a call for each sort key.  It hands no join to a link that
was rendered elsewhere.  On a well-formed plan no call of the program fails, and what it leaves is
rendered to the plan.

A condition is added by the call for its operator: operators that take a list are refused by the one
call and all others by the other one, so that a condition with a fitting number of values is
accepted by exactly one of them.  The rest is bookkeeping.  Each part of the program changes one
part of the draft, and it is run on that part alone.
-/

namespace EntityQuery

/-! ## Programs on one part -/

/-- Calls that change one part of a draft run as they do on that part alone. -/
theorem foldlM_map_of_step {σ α γ κ ε : Type} {apply : κ → α → Except ε α}
    {step : γ → σ → Except ε σ} {embed : γ → κ} (set : σ → α)
    (hstep : ∀ c s, apply (embed c) (set s) = (step c s).map set) (cs : List γ) (s : σ) :
    (cs.map embed).foldlM (fun a c => apply c a) (set s) =
      (cs.foldlM (fun s c => step c s) s).map set := by
  induction cs generalizing s with
  | nil => rfl
  | cons c cs ih =>
      rw [List.map_cons, List.foldlM_cons, List.foldlM_cons, hstep]
      cases step c s with
      | error e => rfl
      | ok changed => exact ih changed

/-- What every member gives back gives the list back. -/
theorem filterMap_map_of_inverse {α β : Type} {f : β → Option α} {g : α → β} {as : List α}
    (h : ∀ a ∈ as, f (g a) = some a) : (as.map g).filterMap f = as := by
  induction as with
  | nil => rfl
  | cons a as ih =>
      obtain ⟨ha, has⟩ := List.forall_mem_cons.1 h
      rw [List.map_cons, List.filterMap_cons_some ha, ih has]

/-! ## Filters -/

namespace FilterCall

theorem error?_eq_none_iff {calls : List FilterCall} :
    error? calls = none ↔ ∀ call ∈ calls, error? [call] = none := by
  induction calls with
  | nil => exact ⟨fun _ _ h => absurd h List.not_mem_nil, fun _ => rfl⟩
  | cons call calls ih => rw [error?_cons, Option.or_eq_none_iff, ih, List.forall_mem_cons]

theorem error?_group (combinator : Combinator) (calls : List FilterCall) :
    error? [group combinator calls] = error? calls := by
  rw [error?, error?, exposedAll_singleton, exposed]

/-- Calls on a filter in a row are one change in place. -/
theorem foldlM_onFilter (calls : List FilterCall) (f : FilterDraft) :
    calls.foldlM (fun f call => Filtered.onFilter f call.run) f =
      Filtered.onFilter f (runAll calls) := by
  induction calls generalizing f with
  | nil => rfl
  | cons call calls ih =>
      rw [List.foldlM_cons]
      rcases hcall : call.run f with ⟨changed, _ | e⟩
      · have hall : runAll (call :: calls) f = runAll calls changed := by rw [runAll, hcall]
        rw [Filtered.onFilter_of_none f hcall]
        refine (ih changed).trans ?_
        unfold Filtered.onFilter
        rw [show Filtered.filter changed = changed from rfl,
          show Filtered.filter f = f from rfl, hall]
        rfl
      · have hall : runAll (call :: calls) f = (changed, some e) := by rw [runAll, hcall]
        rw [Filtered.onFilter_of_some f hcall, Filtered.onFilter_of_some f hall]
        rfl

end FilterCall

def Condition.call (c : Condition) : FilterCall :=
  if c.operator.arity = .many then .listCondition c.attr c.operator c.values
  else .condition c.attr c.operator c.values.head?

theorem Condition.toList_head? {c : Condition} (h : c.Accepted) (hlist : c.operator.arity ≠ .many) :
    c.values.head?.toList = c.values := by
  obtain ⟨attr, operator, values⟩ := c
  change operator.arity.accepts values.length = true at h
  cases harity : operator.arity with
  | many => exact absurd harity hlist
  | zero =>
      rw [harity] at h
      rw [List.length_eq_zero_iff.1 (of_decide_eq_true h)]
      rfl
  | one =>
      rw [harity] at h
      obtain ⟨value, rfl⟩ := List.length_eq_one_iff.1 (of_decide_eq_true h)
      rfl

/-- A condition with a fitting number of values is accepted as it is. -/
theorem Condition.call_spec {c : Condition} (h : c.Accepted) :
    FilterCall.error? [c.call] = none ∧ c.call.condition? = some c ∧ c.call.subfilter? = none := by
  rw [FilterCall.error?, FilterCall.exposedAll_singleton]
  unfold Condition.call
  by_cases hlist : c.operator.arity = .many
  · simp [hlist, FilterCall.exposed, FilterCall.refusal?, FilterCall.condition?,
      FilterCall.subfilter?]
  · have hvalues := c.toList_head? h hlist
    have haccepts : c.operator.arity.accepts c.values.length = true := h
    simp [hlist, hvalues, haccepts, FilterCall.exposed, FilterCall.refusal?,
      FilterCall.condition?, FilterCall.subfilter?]

namespace Filter

mutual

/-- The calls that build a filter. -/
def calls : Filter → List FilterCall
  | ⟨_, conditions, subfilters⟩ => conditions.map Condition.call ++ groupCalls subfilters

def groupCalls : List Filter → List FilterCall
  | [] => []
  | f :: fs => .group f.combinator f.calls :: groupCalls fs

end

theorem groupCalls_eq_map (fs : List Filter) :
    groupCalls fs = fs.map fun f => .group f.combinator f.calls := by
  induction fs with
  | nil => rfl
  | cons f fs ih => rw [groupCalls, ih, List.map_cons]

theorem calls_eq (f : Filter) : f.calls =
    f.conditions.map Condition.call ++ f.subfilters.map fun f => .group f.combinator f.calls := by
  cases f
  rw [calls, groupCalls_eq_map]

/-- What the calls for a filter come to is the filter. -/
theorem calls_spec (f : Filter) (h : ∀ c ∈ f.listing, c.Accepted) :
    FilterCall.error? f.calls = none ∧ f.calls.filterMap FilterCall.condition? = f.conditions ∧
      f.calls.filterMap FilterCall.subfilter? = f.subfilters := by
  induction f using Filter.induction with
  | step f ih =>
      have hconditions : ∀ c ∈ f.conditions, c.Accepted :=
        fun c hc => h c (mem_listing.2 (.inl hc))
      have hgroups : ∀ child ∈ f.subfilters,
          FilterCall.error? [.group child.combinator child.calls] = none ∧
            (FilterCall.group child.combinator child.calls).subfilter? = some child := by
        intro child hchild
        obtain ⟨herror, hown, hnested⟩ :=
          ih child hchild fun c hc => h c (mem_listing.2 (.inr ⟨child, hchild, hc⟩))
        rw [FilterCall.error?_group, FilterCall.subfilter?, FilterCall.subfilters_eq_filterMap,
          if_pos herror, hown, hnested]
        cases child
        exact ⟨herror, rfl⟩
      rw [calls_eq]
      refine ⟨?_, ?_, ?_⟩
      · rw [FilterCall.error?_eq_none_iff]
        intro call hcall
        rcases List.mem_append.1 hcall with hcall | hcall
        · obtain ⟨c, hc, rfl⟩ := List.mem_map.1 hcall
          exact (Condition.call_spec (hconditions c hc)).1
        · obtain ⟨child, hchild, rfl⟩ := List.mem_map.1 hcall
          exact (hgroups child hchild).1
      · have hown : (f.conditions.map Condition.call).filterMap FilterCall.condition? =
            f.conditions :=
          filterMap_map_of_inverse fun c hc => (Condition.call_spec (hconditions c hc)).2.1
        have hnested : (f.subfilters.map fun f => FilterCall.group f.combinator f.calls).filterMap
            FilterCall.condition? = [] := by
          rw [List.filterMap_map, List.filterMap_eq_nil_iff]
          exact fun _ _ => rfl
        rw [List.filterMap_append, hown, hnested, List.append_nil]
      · have hnested : (f.subfilters.map fun f => FilterCall.group f.combinator f.calls).filterMap
            FilterCall.subfilter? = f.subfilters :=
          filterMap_map_of_inverse fun child hchild => (hgroups child hchild).2
        have hown : (f.conditions.map Condition.call).filterMap FilterCall.subfilter? = [] := by
          rw [List.filterMap_map, List.filterMap_eq_nil_iff]
          exact fun c hc => (Condition.call_spec (hconditions c hc)).2.2
        rw [List.filterMap_append, hown, hnested, List.nil_append]

end Filter

/-- The calls for a filter build it on a draft that has nothing but its combinator. -/
theorem FilterDraft.exists_of_calls (f : Filter) (h : ∀ c ∈ f.listing, c.Accepted) :
    ∃ draft : FilterDraft, draft.render = f ∧
      Filtered.onFilter (.empty f.combinator) (FilterCall.runAll f.calls) = .ok draft := by
  obtain ⟨herror, hconditions, hsubfilters⟩ := f.calls_spec h
  obtain ⟨hfails, hrender⟩ := FilterCall.runAll_spec f.calls (.empty f.combinator)
  rw [FilterCall.made_of_error?_eq_none herror, hconditions, hsubfilters] at hrender
  rw [herror] at hfails
  refine ⟨_, hrender.trans ?_, Filtered.onFilter_of_none _ (Prod.ext rfl hfails)⟩
  cases f
  rfl

/-! ## Columns -/

/-- The column set after some calls, which stop at the first that fails. -/
def ColumnCall.applyAll (calls : List ColumnCall) (columns : ColumnSet) :
    Except BuildError ColumnSet :=
  calls.foldlM (fun columns call => call.apply columns) columns

namespace Projection

/-- The calls that choose columns, where all of them are chosen before. -/
def calls : Projection → List ColumnCall
  | all => []
  | only names => [.addStrict names]

end Projection

theorem ColumnSet.exists_of_calls (columns : Projection) (h : columns.Distinct) :
    ∃ set : ColumnSet, set.render = columns ∧ ColumnCall.applyAll columns.calls .all = .ok set := by
  cases columns with
  | all => exact ⟨.all, rfl, rfl⟩
  | only names =>
      have hnodup : (ColumnSet.all.names.toList ++ names).Nodup := h
      obtain ⟨added, hstrict, hnames⟩ := exists_addStrict_of_nodup hnodup
      have hrun : (ColumnCall.addStrict names).run all = (only added, Option.none) := hstrict
      refine ⟨only added, congrArg Projection.only hnames, ?_⟩
      rw [Projection.calls, ColumnCall.applyAll, List.foldlM_cons, ColumnCall.apply,
        Projected.onColumns_of_none all hrun]
      rfl

/-! ## Joins -/

namespace JoinCall

theorem applyAll_eq_foldlM (calls : List JoinCall) (j : JoinDraft) :
    applyAll calls j = calls.foldlM (fun j call => call.apply j) j := by
  induction calls generalizing j with
  | nil => rfl
  | cons call calls ih =>
      rw [applyAll_cons, List.foldlM_cons]
      exact bind_congr ih

/-- Some joins and further ones, each of which calls build from scratch. -/
def linkedAfter {α : Type} (calls : α → List JoinCall) (as : List α) (joins : List PendingJoin) :
    Except BuildError (List PendingJoin) :=
  as.foldlM (fun joins a =>
    (applyAll (calls a) .empty).map fun draft => joins ++ [draft.pending]) joins

theorem applyAll_append_of_ok {calls calls' : List JoinCall} {j j' j'' : JoinDraft}
    (h : applyAll calls j = .ok j') (h' : applyAll calls' j' = .ok j'') :
    applyAll (calls ++ calls') j = .ok j'' := by
  rw [applyAll_eq_foldlM] at h h' ⊢
  rw [List.foldlM_append, h]
  exact h'

theorem applyAll_columns (columnCalls : List ColumnCall) (j : JoinDraft) :
    applyAll (columnCalls.map .columns) j =
      (ColumnCall.applyAll columnCalls j.columns).map fun columns => { j with columns } := by
  rw [applyAll_eq_foldlM]
  exact foldlM_map_of_step (fun columns => { j with columns })
    (fun call columns => apply_columns call { j with columns }) columnCalls j.columns

theorem applyAll_filter (filterCalls : List FilterCall) (j : JoinDraft) :
    applyAll (filterCalls.map .filter) j =
      (Filtered.onFilter j.filter (FilterCall.runAll filterCalls)).map
        fun filter => { j with filter } := by
  rw [applyAll_eq_foldlM, ← FilterCall.foldlM_onFilter]
  exact foldlM_map_of_step (fun filter => { j with filter })
    (fun call filter => apply_filter call { j with filter }) filterCalls j.filter

theorem applyAll_linkNew {α : Type} (calls : α → List JoinCall) (as : List α) (j : JoinDraft) :
    applyAll (as.map fun a => .linkNew (calls a)) j =
      (linkedAfter calls as j.joins).map fun joins => { j with joins } := by
  rw [applyAll_eq_foldlM]
  refine foldlM_map_of_step (fun joins => { j with joins }) (fun a joins => ?_) as j.joins
  rw [apply_linkNew]
  cases applyAll (calls a) .empty <;> rfl

end JoinCall

namespace Join

/-- The calls that set the ends of a join, its kind and its alias. -/
def endCalls (j : Join) : List JoinCall :=
  [.fromEntity j.localEntity j.localAttribute, .toEntity j.remoteEntity j.remoteAttribute,
    .withKind j.kind] ++ j.aliasName.toList.map .withAlias

mutual

def calls : Join → List JoinCall
  | ⟨localEntity, localAttribute, remoteEntity, remoteAttribute, aliasName, kind, columns, filter,
        nested⟩ =>
      endCalls ⟨localEntity, localAttribute, remoteEntity, remoteAttribute, aliasName, kind,
          columns, filter, nested⟩ ++
        columns.calls.map .columns ++ filter.calls.map .filter ++ linkCalls nested

def linkCalls : List Join → List JoinCall
  | [] => []
  | j :: js => .linkNew j.calls :: linkCalls js

end

theorem linkCalls_eq_map (js : List Join) : linkCalls js = js.map fun j => .linkNew j.calls := by
  induction js with
  | nil => rfl
  | cons j js ih => rw [linkCalls, ih, List.map_cons]

theorem calls_eq (j : Join) : j.calls = j.endCalls ++ j.columns.calls.map .columns ++
    j.filter.calls.map .filter ++ j.nested.map fun child => .linkNew child.calls := by
  cases j
  rw [calls, linkCalls_eq_map]

/-- Calls that build joins, each linked after those before. -/
theorem exists_joins_of_calls {js : List Join}
    (h : ∀ j ∈ js, ∃ draft : JoinDraft, JoinCall.applyAll j.calls .empty = .ok draft ∧
      ∀ parent, draft.pending.renderUnder parent = .ok j) (before : List PendingJoin) :
    ∃ joins, JoinCall.linkedAfter calls js before = .ok (before ++ joins) ∧
      ∀ parent, PendingJoin.renderAllUnder parent joins = .ok js := by
  induction js generalizing before with
  | nil => exact ⟨[], by rw [List.append_nil]; rfl, fun _ => rfl⟩
  | cons j js ih =>
      obtain ⟨⟨draft, hdraft, hrender⟩, hrest⟩ := List.forall_mem_cons.1 h
      obtain ⟨joins, hjoins, hrenders⟩ := ih hrest (before ++ [draft.pending])
      refine ⟨draft.pending :: joins, ?_, fun parent => ?_⟩
      · rw [JoinCall.linkedAfter, List.foldlM_cons, hdraft]
        rw [List.append_assoc] at hjoins
        exact hjoins
      · exact PendingJoin.renderAllUnder_cons_eq_ok.2
          ⟨j, hrender parent, js, hrenders parent, rfl⟩

/-- The calls for a sound join build a draft that is rendered to it, below any entity. -/
theorem exists_draft_of_calls (j : Join) (h : ∀ inner ∈ j.listing, inner.Sound) :
    ∃ draft : JoinDraft, JoinCall.applyAll j.calls .empty = .ok draft ∧
      ∀ parent, draft.pending.renderUnder parent = .ok j := by
  induction j using Join.induction with
  | step j ih =>
      have hsound : j.Sound := h j (listing_eq j ▸ List.mem_cons_self)
      have hnested : ∀ child ∈ j.nested, ∀ inner ∈ child.listing, inner.Sound := by
        intro child hchild inner hinner
        refine h inner (listing_eq j ▸ List.mem_cons_of_mem _ ?_)
        exact mem_listingAll.2 ⟨child, hchild, hinner⟩
      obtain ⟨columns, hcolumns, hcolumnCalls⟩ := ColumnSet.exists_of_calls _ hsound.distinct
      obtain ⟨filter, hfilter, hfilterCalls⟩ := FilterDraft.exists_of_calls _ hsound.accepted
      obtain ⟨joins, hjoinCalls, hjoins⟩ := exists_joins_of_calls
        (fun child hchild => ih child hchild (hnested child hchild)) []
      rw [hsound.conjunctive] at hfilterCalls
      -- Each part of the program starts from what the part before it leaves.
      let named : JoinDraft := {
        source := some (.fixed ⟨j.localEntity, j.localAttribute⟩)
        target := some ⟨j.remoteEntity, j.remoteAttribute⟩
        aliasName := j.aliasName
        kind := j.kind }
      have hends : JoinCall.applyAll j.endCalls .empty = .ok named := by
        unfold endCalls
        cases h : j.aliasName <;> simp only [named, h] <;> rfl
      have hcolumnsRun := JoinCall.applyAll_columns j.columns.calls named
      rw [show named.columns = .all from rfl, hcolumnCalls] at hcolumnsRun
      have hfilterRun := JoinCall.applyAll_filter j.filter.calls { named with columns }
      rw [show named.filter = .empty .and from rfl, hfilterCalls] at hfilterRun
      have hjoinsRun := JoinCall.applyAll_linkNew calls j.nested { named with columns, filter }
      rw [show named.joins = [] from rfl, hjoinCalls] at hjoinsRun
      refine ⟨{ named with columns, filter, joins }, ?_, fun parent => ?_⟩
      · rw [calls_eq]
        exact JoinCall.applyAll_append_of_ok (JoinCall.applyAll_append_of_ok
          (JoinCall.applyAll_append_of_ok hends hcolumnsRun) hfilterRun) hjoinsRun
      · refine PendingJoin.renderUnder_draft_eq_ok.2 ⟨_, rfl, j.nested, hjoins _, ?_⟩
        rw [JoinHead.node, hcolumns, hfilter]
        cases j
        rfl

theorem linkedAll_calls (j : Join) : JoinCall.linkedAll j.calls = [] := by
  induction j using Join.induction with
  | step j ih =>
      rw [List.eq_nil_iff_forall_not_mem]
      intro p hp
      obtain ⟨call, hcall, hlink⟩ := JoinCall.mem_linkedAll.1 hp
      rw [calls_eq, List.mem_append, List.mem_append, List.mem_append] at hcall
      -- Only the new joins could hand one over, and what they hand over is in their callbacks.
      rcases hcall with ((hcall | hcall) | hcall) | hcall
      · have hends : ∀ call ∈ j.endCalls, call.listing = [call] ∧ call.linked? = none := by
          unfold endCalls
          cases j.aliasName <;> simp [JoinCall.listing, JoinCall.linked?]
        obtain ⟨hlisting, hlinked⟩ := hends call hcall
        rw [hlisting, List.mem_singleton] at hlink
        rw [← hlink] at hlinked
        cases hlinked
      · obtain ⟨columnCall, -, rfl⟩ := List.mem_map.1 hcall
        simp [JoinCall.listing] at hlink
      · obtain ⟨filterCall, -, rfl⟩ := List.mem_map.1 hcall
        simp [JoinCall.listing] at hlink
      · obtain ⟨child, hchild, rfl⟩ := List.mem_map.1 hcall
        have hinner : p ∈ JoinCall.linkedAll child.calls := by
          rcases JoinCall.mem_listing.1 hlink with hself | ⟨call, hcall, hlisted⟩
          · cases hself
          · exact JoinCall.mem_linkedAll.2 ⟨call, hcall, hlisted⟩
        rw [ih child hchild] at hinner
        exact absurd hinner List.not_mem_nil

end Join

/-! ## Plans -/

namespace QueryCall

theorem applyAll_append_of_ok {calls calls' : List QueryCall} {q q' q'' : QueryDraft}
    (h : applyAll calls q = .ok q') (h' : applyAll calls' q' = .ok q'') :
    applyAll (calls ++ calls') q = .ok q'' := by
  unfold applyAll at h h' ⊢
  rw [List.foldlM_append, h]
  exact h'

theorem applyAll_columns (columnCalls : List ColumnCall) (q : QueryDraft) :
    applyAll (columnCalls.map .columns) q =
      (ColumnCall.applyAll columnCalls q.columns).map fun columns => { q with columns } := by
  unfold applyAll
  exact foldlM_map_of_step (fun columns => { q with columns })
    (fun call columns => apply_columns call { q with columns }) columnCalls q.columns

theorem applyAll_filter (filterCalls : List FilterCall) (q : QueryDraft) :
    applyAll (filterCalls.map .filter) q =
      (Filtered.onFilter q.filter (FilterCall.runAll filterCalls)).map
        fun filter => { q with filter } := by
  rw [← FilterCall.foldlM_onFilter]
  exact foldlM_map_of_step (fun filter => { q with filter })
    (fun call filter => apply_filter call { q with filter }) filterCalls q.filter

theorem applyAll_linkNew {α : Type} (calls : α → List JoinCall) (as : List α) (q : QueryDraft) :
    applyAll (as.map fun a => .linkNew (calls a)) q =
      (JoinCall.linkedAfter calls as q.joins).map fun joins => { q with joins } := by
  refine foldlM_map_of_step (fun joins => { q with joins }) (fun a joins => ?_) as q.joins
  rw [apply_linkNew]
  cases JoinCall.applyAll (calls a) .empty <;> rfl

theorem applyAll_orderBy (keys : List SortKey) (q : QueryDraft) :
    applyAll (keys.map .orderBy) q = .ok { q with sort := q.sort ++ keys } := by
  induction keys generalizing q with
  | nil =>
      rw [List.append_nil]
      rfl
  | cons key keys ih =>
      refine (ih (q.orderBy key)).trans ?_
      rw [QueryDraft.orderBy, List.append_assoc]
      rfl

end QueryCall

namespace Plan

def config (plan : Plan) : Config where
  combinator := plan.filter.combinator
  consistency := plan.consistency

/-- The calls that build a plan on a query with its defaults. -/
def calls (plan : Plan) : List QueryCall :=
  plan.columns.calls.map .columns ++ plan.filter.calls.map .filter ++
    plan.joins.map (fun j => .linkNew j.calls) ++ plan.sort.map .orderBy ++
    plan.paging.toList.map .page

theorem linked_of_mem_calls {plan : Plan} : ∀ call ∈ plan.calls, call.linked = [] := by
  intro call hcall
  simp only [calls, List.mem_append, List.mem_map] at hcall
  rcases hcall with (((⟨_, -, rfl⟩ | ⟨_, -, rfl⟩) | ⟨j, -, rfl⟩) | ⟨_, -, rfl⟩) | ⟨_, -, rfl⟩
  · rfl
  · rfl
  · exact j.linkedAll_calls
  · rfl
  · rfl

/-- Every well-formed plan is rendered by a query that calls build, none of which fails and none of
which links a join that was made elsewhere. -/
theorem exists_render_of_calls (plan : Plan) (h : plan.WellFormed) :
    (∀ call ∈ plan.calls, call.linked = []) ∧
    ∃ q, QueryCall.applyAll plan.calls (.withConfig plan.entity plan.config) = .ok q ∧
      q.render = .ok plan := by
  refine ⟨linked_of_mem_calls, ?_⟩
  obtain ⟨columns, hcolumns, hcolumnCalls⟩ := ColumnSet.exists_of_calls _ h.distinct
  obtain ⟨filter, hfilter, hfilterCalls⟩ := FilterDraft.exists_of_calls _ h.accepted
  have hsound : ∀ j ∈ plan.joins, ∀ inner ∈ j.listing, inner.Sound :=
    fun j hj inner hinner => h.joins inner (Join.mem_listingAll.2 ⟨j, hj, hinner⟩)
  obtain ⟨joins, hjoinCalls, hjoins⟩ := Join.exists_joins_of_calls
    (fun j hj => j.exists_draft_of_calls (hsound j hj)) []
  let start := QueryDraft.withConfig plan.entity plan.config
  have hcolumnsRun := QueryCall.applyAll_columns plan.columns.calls start
  rw [show start.columns = .all from rfl, hcolumnCalls] at hcolumnsRun
  have hfilterRun := QueryCall.applyAll_filter plan.filter.calls { start with columns }
  rw [show start.filter = .empty plan.filter.combinator from rfl, hfilterCalls] at hfilterRun
  have hjoinsRun := QueryCall.applyAll_linkNew Join.calls plan.joins { start with columns, filter }
  rw [show start.joins = [] from rfl, hjoinCalls] at hjoinsRun
  have hsortRun := QueryCall.applyAll_orderBy plan.sort { start with columns, filter, joins }
  have hpagingRun : QueryCall.applyAll (plan.paging.toList.map .page)
      { start with columns, filter, joins, sort := plan.sort } =
        .ok { start with columns, filter, joins, sort := plan.sort, paging := plan.paging } := by
    cases plan.paging <;> rfl
  refine ⟨{ start with columns, filter, joins, sort := plan.sort, paging := plan.paging }, ?_, ?_⟩
  · exact QueryCall.applyAll_append_of_ok (QueryCall.applyAll_append_of_ok
      (QueryCall.applyAll_append_of_ok (QueryCall.applyAll_append_of_ok hcolumnsRun hfilterRun)
        hjoinsRun) hsortRun) hpagingRun
  · refine QueryDraft.render_eq_ok.2 ⟨plan.joins, hjoins none, ?_⟩
    rw [hcolumns, hfilter]
    rfl

/-- A plan with an empty list of values and an empty projection, a group in a group that are both
without conditions of their own, and a join from an entity that has nothing to do with the
others. -/
def stockPlan : Plan where
  entity := "product"
  columns := .only []
  filter := ⟨.or, [⟨"size", .isIn, []⟩], [⟨.and, [], [⟨.or, [⟨"name", .notNull, []⟩], []⟩]⟩]⟩
  joins := [{
    localEntity := "product", localAttribute := "stockid"
    remoteEntity := "stock", remoteAttribute := "stockid"
    aliasName := some "s", kind := .leftOuter, columns := .only ["count", "place"]
    filter := ⟨.and, [⟨"count", .greaterThan, [.int32 0]⟩], []⟩
    nested := [{
      localEntity := "depot", localAttribute := "depotid"
      remoteEntity := "place", remoteAttribute := "depotid"
      aliasName := none, kind := .inner, columns := .all, filter := .empty, nested := [] }] }]
  sort := [⟨"name", .ascending⟩, ⟨"name", .descending⟩]
  paging := some ⟨0, 3, true, some "token"⟩
  consistency := .serviceDefault

theorem exists_render_of_stockPlan : stockPlan.WellFormed ∧ ∃ q,
    QueryCall.applyAll stockPlan.calls (.withConfig "product" stockPlan.config) = .ok q ∧
      q.render = .ok stockPlan := by
  have hformed : stockPlan.WellFormed := by
    refine ⟨by decide, by decide, fun j hj => ?_⟩
    rcases List.mem_cons.1 hj with rfl | hj
    · exact ⟨by decide, by decide, rfl⟩
    · rw [List.mem_singleton.1 hj]
      exact ⟨by decide, by decide, rfl⟩
  exact ⟨hformed, (exists_render_of_calls stockPlan hformed).2⟩

end Plan

end EntityQuery
