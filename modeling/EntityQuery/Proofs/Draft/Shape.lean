import EntityQuery.Proofs.Draft.Incomplete
import EntityQuery.Proofs.Plan.WellFormed

/-!
# The shape of rendered joins

The joins of a plan have the shape of the pending joins of its draft.  A relation says so place by
place: a join that was rendered elsewhere is there as it is, and a join draft has become a join with
what the draft holds, around what its own pending joins have become.  One thing is passed downwards:
a draft that inherits its local entity has the remote entity of the join above it.

Rendering succeeds with the joins of that relation and with no others, so that nothing is lost,
repeated, merged or moved.
-/

namespace EntityQuery

/-- What a join shows of its draft, apart from the local end and the nested joins. -/
structure JoinHead.ShownBy (head : JoinHead) (join : Join) : Prop where
  target : head.target = some ⟨join.remoteEntity, join.remoteAttribute⟩
  aliasName : join.aliasName = head.aliasName
  kind : join.kind = head.kind
  columns : join.columns = head.columns.render
  filter : join.filter = head.filter.render

namespace PendingJoin

mutual

/-- A join at the place of a pending one, below a join that adds an entity. -/
inductive Shows : Option String → PendingJoin → Join → Prop
  | rendered (above : Option String) (join : Join) : Shows above (.rendered join) join
  | fixed {above : Option String} {head : JoinHead} {joins : List PendingJoin} {join : Join}
      (source : head.source = some (.fixed ⟨join.localEntity, join.localAttribute⟩))
      (shown : head.ShownBy join) (nested : ShowsAll (some join.remoteEntity) joins join.nested) :
      Shows above (.draft head joins) join
  | inherited {above : Option String} {head : JoinHead} {joins : List PendingJoin} {join : Join}
      (source : head.source = some (.inherited join.localAttribute))
      (localEntity : above = some join.localEntity)
      (shown : head.ShownBy join) (nested : ShowsAll (some join.remoteEntity) joins join.nested) :
      Shows above (.draft head joins) join

inductive ShowsAll : Option String → List PendingJoin → List Join → Prop
  | nil (above : Option String) : ShowsAll above [] []
  | cons {above : Option String} {p : PendingJoin} {join : Join} {ps : List PendingJoin}
      {joins : List Join} (head : Shows above p join) (tail : ShowsAll above ps joins) :
      ShowsAll above (p :: ps) (join :: joins)

end

theorem showsAll_iff {above : Option String} {ps : List PendingJoin} {joins : List Join} :
    ShowsAll above ps joins ↔ List.Forall₂ (Shows above) ps joins := by
  induction ps generalizing joins with
  | nil =>
      constructor
      · intro h
        cases h
        exact .nil
      · intro h
        cases h
        exact .nil above
  | cons p ps ih =>
      constructor
      · intro h
        cases h with
        | cons hp hps => exact .cons hp (ih.1 hps)
      · intro h
        cases h with
        | cons hp hps => exact .cons hp (ih.2 hps)

/-- A draft is rendered to what it holds, between its ends and around its nested joins. -/
theorem shows_node {above : Option String} {head : JoinHead} {joins : List PendingJoin}
    {ends : JoinEnds} {nested : List Join} (hends : head.ends above = .ok ends)
    (hnested : ShowsAll (some ends.target.entity) joins nested) :
    (draft head joins).Shows above (head.node ends nested) := by
  obtain ⟨source, localEntity, target, hsource, hlocal, htarget, rfl⟩ := JoinHead.ends_eq_ok.1 hends
  have hshown : head.ShownBy (head.node ⟨localEntity, source.attr, target⟩ nested) :=
    ⟨htarget, rfl, rfl, rfl, rfl⟩
  cases source with
  | fixed endpoint =>
      cases hlocal
      exact .fixed hsource hshown hnested
  | inherited attr => exact .inherited hsource hlocal hshown hnested

theorem exists_ends_of_shownBy {above : Option String} {head : JoinHead} {join : Join}
    (shown : head.ShownBy join) {source : LocalEnd} (hsource : head.source = some source)
    (hlocal : source.entity? above = some join.localEntity)
    (hattr : source.attr = join.localAttribute) :
    ∃ ends, head.ends above = .ok ends ∧ ends.target.entity = join.remoteEntity ∧
      head.node ends join.nested = join := by
  refine ⟨⟨join.localEntity, source.attr, ⟨join.remoteEntity, join.remoteAttribute⟩⟩,
    JoinHead.ends_eq_ok.2 ⟨source, _, _, hsource, hlocal, shown.target, rfl⟩, rfl, ?_⟩
  obtain ⟨-, halias, hkind, hcolumns, hfilter⟩ := shown
  cases join
  simp_all [JoinHead.node]

/-- Rendering succeeds with the joins that show the pending ones. -/
theorem renderUnder_eq_ok_iff_shows {parent : Option String} {p : PendingJoin} {join : Join} :
    p.renderUnder parent = .ok join ↔ p.Shows parent join := by
  induction p using PendingJoin.induction generalizing parent join with
  | rendered prebuilt =>
      constructor
      · intro h
        cases h
        exact .rendered parent prebuilt
      · intro h
        cases h
        rfl
  | draft head joins ih =>
      have hall : ∀ {above : Option String} {nested : List Join},
          renderAllUnder above joins = .ok nested ↔ ShowsAll above joins nested := by
        intro above nested
        rw [renderAllUnder_eq_ok, showsAll_iff]
        exact ⟨fun h => forall₂_imp_of_mem h fun p hp _ => (ih p hp).1,
          fun h => forall₂_imp_of_mem h fun p hp _ => (ih p hp).2⟩
      constructor
      · intro h
        obtain ⟨ends, hends, nested, hnested, rfl⟩ := renderUnder_draft_eq_ok.1 h
        exact shows_node hends (hall.1 hnested)
      · intro h
        cases h with
        | fixed source shown nested =>
            obtain ⟨ends, hends, hremote, hnode⟩ := exists_ends_of_shownBy shown source rfl rfl
            exact renderUnder_draft_eq_ok.2 ⟨ends, hends, join.nested,
              hremote ▸ hall.2 nested, hnode⟩
        | inherited source localEntity shown nested =>
            obtain ⟨ends, hends, hremote, hnode⟩ := exists_ends_of_shownBy shown source localEntity rfl
            exact renderUnder_draft_eq_ok.2 ⟨ends, hends, join.nested,
              hremote ▸ hall.2 nested, hnode⟩

end PendingJoin

/-! ## Counting -/

namespace Join

theorem count_eq (j : Join) : j.count = 1 + totalCount j.nested := by
  cases j
  rw [count]

theorem totalCount_append (js js' : List Join) :
    totalCount (js ++ js') = totalCount js + totalCount js' := by
  induction js with
  | nil => simp [totalCount]
  | cons j js ih =>
      rw [List.cons_append, totalCount, totalCount, ih]
      omega

end Join

namespace PendingJoin

mutual

/-- There is a join for each draft, besides those of the joins that were rendered elsewhere. -/
theorem Shows.count_eq {above : Option String} {p : PendingJoin} {join : Join}
    (h : p.Shows above join) (enclosed : Bool) :
    join.count = (p.sites enclosed).length + Join.totalCount p.prebuilt := by
  have hdraft : ∀ {head : JoinHead} {joins : List PendingJoin},
      Join.totalCount join.nested =
        (sitesAll true joins).length + Join.totalCount (prebuiltAll joins) →
      join.count = ((draft head joins).sites enclosed).length +
        Join.totalCount (draft head joins).prebuilt := by
    intro head joins hnested
    rw [Join.count_eq, hnested, sites, prebuilt, List.length_cons]
    omega
  cases h with
  | rendered =>
      rw [sites, prebuilt, Join.totalCount, Join.totalCount]
      simp
  | fixed source shown nested => exact hdraft (nested.totalCount_eq true)
  | inherited source localEntity shown nested => exact hdraft (nested.totalCount_eq true)

theorem ShowsAll.totalCount_eq {above : Option String} {ps : List PendingJoin} {joins : List Join}
    (h : ShowsAll above ps joins) (enclosed : Bool) :
    Join.totalCount joins =
      (sitesAll enclosed ps).length + Join.totalCount (prebuiltAll ps) := by
  cases h with
  | nil => rfl
  | cons hp hps =>
      rw [Join.totalCount, sitesAll, prebuiltAll, List.length_append, Join.totalCount_append,
        hp.count_eq enclosed, hps.totalCount_eq enclosed]
      omega

end

mutual

/-- A join that was rendered elsewhere is found as it was, with all that is nested in it. -/
theorem Shows.prebuilt_subset {above : Option String} {p : PendingJoin} {join : Join}
    (h : p.Shows above join) : p.prebuilt ⊆ join.listing := by
  rw [Join.listing_eq]
  cases h with
  | rendered => exact List.cons_subset_cons _ (List.nil_subset _)
  | fixed source shown nested => exact List.subset_cons_of_subset _ nested.prebuiltAll_subset
  | inherited source localEntity shown nested =>
      exact List.subset_cons_of_subset _ nested.prebuiltAll_subset

theorem ShowsAll.prebuiltAll_subset {above : Option String} {ps : List PendingJoin}
    {joins : List Join} (h : ShowsAll above ps joins) : prebuiltAll ps ⊆ Join.listingAll joins := by
  cases h with
  | nil => exact List.nil_subset _
  | cons hp hps =>
      rw [prebuiltAll, Join.listingAll]
      exact List.append_subset.2
        ⟨fun _ hj => List.mem_append_left _ (hp.prebuilt_subset hj),
          fun _ hj => List.mem_append_right _ (hps.prebuiltAll_subset hj)⟩

end

end PendingJoin

namespace QueryDraft

/-- A query is rendered to the joins that show its pending joins, place by place: one for each draft
and all those of joins that were rendered elsewhere, which stay as they are.  The same holds of a
join draft and the joins nested in it. -/
theorem render_iff_shows (q : QueryDraft) :
    (∀ joins, (∃ plan, q.render = .ok plan ∧ plan.joins = joins) ↔
      List.Forall₂ (PendingJoin.Shows none) q.joins joins) ∧
    (∀ plan, q.render = .ok plan →
      plan.joinCount = q.sites.length + Join.totalCount (PendingJoin.prebuiltAll q.joins) ∧
        ∀ join ∈ PendingJoin.prebuiltAll q.joins, join ∈ Join.listingAll plan.joins) ∧
    ∀ (j : JoinDraft) (parent : Option String) (join : Join),
      j.pending.renderUnder parent = .ok join ↔ j.pending.Shows parent join := by
  have hjoins : ∀ joins, PendingJoin.renderAllUnder none q.joins = .ok joins ↔
      List.Forall₂ (PendingJoin.Shows none) q.joins joins := by
    intro joins
    simp only [PendingJoin.renderAllUnder_eq_ok, PendingJoin.renderUnder_eq_ok_iff_shows]
  refine ⟨?_, ?_, fun j parent join => PendingJoin.renderUnder_eq_ok_iff_shows⟩
  · intro joins
    rw [← hjoins]
    constructor
    · rintro ⟨plan, h, rfl⟩
      obtain ⟨joins, hrender, rfl⟩ := render_eq_ok.1 h
      exact hrender
    · intro hrender
      exact ⟨_, render_eq_ok.2 ⟨joins, hrender, rfl⟩, rfl⟩
  · intro plan h
    obtain ⟨joins, hrender, rfl⟩ := render_eq_ok.1 h
    have hshows := PendingJoin.showsAll_iff.2 ((hjoins joins).1 hrender)
    exact ⟨hshows.totalCount_eq false, fun join hj => hshows.prebuiltAll_subset hj⟩

def auditJoin : Join where
  localEntity := "archive"
  localAttribute := "auditid"
  remoteEntity := "audit"
  remoteAttribute := "auditid"
  aliasName := none
  kind := .inner
  columns := .all
  filter := ⟨.and, [], []⟩
  nested := [⟨"user", "auditid", "audit", "auditid", none, .leftOuter, .all, ⟨.and, [], []⟩, []⟩]

def auditedQuery : QueryDraft :=
  (QueryDraft.new "invoice").link
    ((((JoinDraft.empty.fromEntity "invoice" "customerid").toEntity "customer" "customerid").link
      (JoinDraft.empty.seed "ownerid" "user" "userid").pending).link (.rendered auditJoin)).pending

theorem render_iff_shows_auditedQuery : ∃ plan, auditedQuery.render = .ok plan ∧
    plan.joins.map (fun join => join.nested.map Join.localEntity) = [["customer", "archive"]] ∧
    plan.joinCount = 4 ∧ auditJoin ∈ Join.listingAll plan.joins := by
  obtain ⟨-, hcounts, -⟩ := render_iff_shows auditedQuery
  obtain ⟨plan, h⟩ : ∃ plan, auditedQuery.render = .ok plan := ⟨_, rfl⟩
  obtain ⟨hcount, hprebuilt⟩ := hcounts plan h
  have hlocal : (auditedQuery.render.map fun plan =>
      plan.joins.map fun join => join.nested.map Join.localEntity) =
      .ok [["customer", "archive"]] := rfl
  rw [h] at hlocal
  exact ⟨plan, h, Except.ok.inj hlocal, hcount, hprebuilt auditJoin List.mem_cons_self⟩

end QueryDraft

end EntityQuery
