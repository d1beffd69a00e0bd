import EntityQuery.Proofs.Call.Calculus
import EntityQuery.Proofs.Plan.WellFormed

/-!
# What calls build is well formed

Whatever is called on a query, in whatever order and with whatever callbacks, the plan is well
formed, with the exception of the joins that were rendered elsewhere and handed to a link.  Numbers
of values and distinct columns are settled by the parts of a draft; that the filters of joins are
conjunctions is an invariant of the calls, which is stated on pending joins.
-/

namespace EntityQuery

/-! ## Parts of a draft -/

namespace FilterDraft

mutual

theorem accepted_render (f : FilterDraft) : ∀ c ∈ f.render.listing, c.Accepted := by
  obtain ⟨combinator, criteria, groups⟩ := f
  intro c hc
  rw [render, Filter.listing] at hc
  rcases List.mem_append.1 hc with hc | hc
  · obtain ⟨criterion, -, rfl⟩ := List.mem_map.1 hc
    exact criterion.accepted
  · exact accepted_renderAll groups c hc

theorem accepted_renderAll (fs : List FilterDraft) :
    ∀ c ∈ Filter.listingAll (renderAll fs), c.Accepted := by
  intro c hc
  cases fs with
  | nil => exact absurd hc List.not_mem_nil
  | cons f fs =>
      rw [renderAll, Filter.listingAll] at hc
      rcases List.mem_append.1 hc with hc | hc
      · exact accepted_render f c hc
      · exact accepted_renderAll fs c hc

end

theorem combinator_render (f : FilterDraft) : f.render.combinator = f.combinator := by
  cases f
  rw [render]

end FilterDraft

theorem ColumnSet.distinct_render (columns : ColumnSet) : columns.render.Distinct := by
  unfold render
  split
  · trivial
  · exact columns.names.nodup

/-! ## Pending joins -/

namespace PendingJoin

mutual

/-- The filters of all drafts are conjunctions, and the rendered joins are of a kind. -/
def Conjunctive (R : Join → Prop) : PendingJoin → Prop
  | rendered join => R join
  | draft head joins => head.filter.combinator = .and ∧ ConjunctiveAll R joins

def ConjunctiveAll (R : Join → Prop) : List PendingJoin → Prop
  | [] => True
  | p :: ps => p.Conjunctive R ∧ ConjunctiveAll R ps

end

variable {R R' : Join → Prop}

theorem conjunctiveAll_iff {ps : List PendingJoin} :
    ConjunctiveAll R ps ↔ ∀ p ∈ ps, p.Conjunctive R := by
  induction ps with
  | nil => simp [ConjunctiveAll]
  | cons p ps ih => simp [ConjunctiveAll, ih]

theorem conjunctive_draft {head : JoinHead} {joins : List PendingJoin} :
    (draft head joins).Conjunctive R ↔
      head.filter.combinator = .and ∧ ∀ p ∈ joins, p.Conjunctive R := by
  rw [Conjunctive, conjunctiveAll_iff]

/-- The rendered joins may be said to be of any kind that they are of. -/
theorem conjunctive_of_prebuilt {p : PendingJoin} (h : p.Conjunctive R)
    (hprebuilt : ∀ join ∈ p.prebuilt, R' join) : p.Conjunctive R' := by
  induction p using PendingJoin.induction with
  | rendered join => exact hprebuilt join (List.mem_singleton.2 rfl)
  | draft head joins ih =>
      obtain ⟨hand, hjoins⟩ := conjunctive_draft.1 h
      refine conjunctive_draft.2 ⟨hand, fun p hp => ih p hp (hjoins p hp) fun join hj => ?_⟩
      exact hprebuilt join (mem_prebuiltAll.2 ⟨p, hp, hj⟩)

theorem prebuilt_of_conjunctive {p : PendingJoin} (h : p.Conjunctive R) :
    ∀ join ∈ p.prebuilt, R join := by
  induction p using PendingJoin.induction with
  | rendered join =>
      intro other hj
      rw [List.mem_singleton.1 hj]
      exact h
  | draft head joins ih =>
      intro join hj
      obtain ⟨p, hp, hj⟩ := mem_prebuiltAll.1 hj
      exact ih p hp ((conjunctive_draft.1 h).2 p hp) join hj

/-- A join is rendered from a pending one and is sound, and so are those nested in it, down to the
joins that were rendered elsewhere, which are copied. -/
inductive SoundOutside : PendingJoin → Join → Prop where
  | rendered (join : Join) : SoundOutside (rendered join) join
  | draft {head : JoinHead} {joins : List PendingJoin} {join : Join} (sound : join.Sound)
      (nested : List.Forall₂ SoundOutside joins join.nested) : SoundOutside (draft head joins) join

theorem soundOutside_of_render {p : PendingJoin} {parent : Option String} {join : Join}
    (h : p.Conjunctive R) (hrender : p.renderUnder parent = .ok join) : p.SoundOutside join := by
  induction p using PendingJoin.induction generalizing parent join with
  | rendered prebuilt =>
      cases hrender
      exact .rendered prebuilt
  | draft head joins ih =>
      obtain ⟨ends, -, nested, hnested, rfl⟩ := renderUnder_draft_eq_ok.1 hrender
      obtain ⟨hand, hjoins⟩ := conjunctive_draft.1 h
      refine .draft ⟨head.filter.accepted_render, head.columns.distinct_render, ?_⟩ ?_
      · exact head.filter.combinator_render.trans hand
      · exact forall₂_imp_of_mem (renderAllUnder_eq_ok.1 hnested)
          fun p hp _ hrender => ih p hp (hjoins p hp) hrender

/-- Where the joins that were rendered elsewhere are sound throughout, the whole join is. -/
theorem SoundOutside.sound_of_mem_listing {p : PendingJoin} {join : Join} (h : p.SoundOutside join)
    (hprebuilt : ∀ outer ∈ p.prebuilt, ∀ j ∈ outer.listing, j.Sound) :
    ∀ j ∈ join.listing, j.Sound := by
  induction p using PendingJoin.induction generalizing join with
  | rendered prebuilt =>
      cases h
      exact hprebuilt prebuilt (List.mem_singleton.2 rfl)
  | draft head joins ih =>
      cases h with
      | draft hsound hnested =>
          intro j hj
          rw [Join.listing_eq] at hj
          rcases List.mem_cons.1 hj with rfl | hj
          · exact hsound
          · obtain ⟨inner, hinner, hj⟩ := Join.mem_listingAll.1 hj
            obtain ⟨p, hp, hsoundOutside⟩ := exists_left_of_forall₂ hnested hinner
            exact ih p hp hsoundOutside
              (fun outer houter => hprebuilt outer (mem_prebuiltAll.2 ⟨p, hp, houter⟩)) j hj

end PendingJoin

/-! ## Calls on joins -/

namespace JoinCall

def linked? : JoinCall → Option PendingJoin
  | link join => some join
  | _ => none

def linkedAll (calls : List JoinCall) : List PendingJoin := (listingAll calls).filterMap linked?

theorem mem_linkedAll {calls : List JoinCall} {p : PendingJoin} :
    p ∈ linkedAll calls ↔ ∃ call ∈ calls, link p ∈ call.listing := by
  have hlinked : ∀ call : JoinCall, call.linked? = some p ↔ call = link p := by
    intro call
    cases call <;> simp [linked?]
  simp only [linkedAll, List.mem_filterMap, hlinked, exists_eq_right, mem_listingAll]

variable {R : Join → Prop}

theorem conjunctive_of_apply {call : JoinCall} {j j' : JoinDraft} (h : call.apply j = .ok j')
    (hadded : ∀ p ∈ call.added j, p.Conjunctive R) (hj : j.pending.Conjunctive R) :
    j'.pending.Conjunctive R := by
  obtain ⟨hand, hjoins⟩ := PendingJoin.conjunctive_draft.1 hj
  refine PendingJoin.conjunctive_draft.2 ⟨(headStep_of_apply h).combinator.trans hand, ?_⟩
  intro p hp
  rw [joins_of_apply h] at hp
  rcases List.mem_append.1 hp with hp | hp
  · exact hjoins p hp
  · exact hadded p hp

theorem conjunctive_withColumns {j : JoinDraft} (hj : j.pending.Conjunctive R)
    (columns : List String) : (Linkable.withColumns j columns).pending.Conjunctive R := by
  unfold Linkable.withColumns
  split
  · exact hj
  · exact PendingJoin.conjunctive_draft.2 (PendingJoin.conjunctive_draft.1 hj)

/-- Calls that append conjunctive joins alone leave a callback's join conjunctive. -/
theorem conjunctive_callback {calls : List JoinCall} {seed : JoinDraft}
    (hcalls : ∀ call ∈ calls, ∀ {j}, ∀ p ∈ call.added j, p.Conjunctive R)
    (hseed : seed.pending.Conjunctive R) :
    (∀ join, applyAll calls seed = .ok join → join.pending.Conjunctive R) ∧
      (applyEach calls seed).pending.Conjunctive R := by
  have hstep : ∀ call ∈ calls, ∀ {j j'}, call.apply j = .ok j' → j.pending.Conjunctive R →
      j'.pending.Conjunctive R :=
    fun call hc _ _ h => conjunctive_of_apply h (hcalls call hc)
  exact ⟨fun join h => applyAll_preserves (P := fun j => j.pending.Conjunctive R) hstep h hseed,
    applyEach_preserves (P := fun j => j.pending.Conjunctive R) hstep hseed⟩

/-- The callback of a link starts with a conjunction and without nested joins. -/
theorem conjunctive_of_bare {j : JoinDraft} (hand : j.filter.combinator = .and)
    (hbare : j.joins = []) : j.pending.Conjunctive R :=
  PendingJoin.conjunctive_draft.2 ⟨hand, fun _ hp => absurd (hbare ▸ hp) List.not_mem_nil⟩

/-- The joins that a call appends are conjunctive if those are that it is given to link. -/
theorem conjunctive_of_mem_added {call : JoinCall}
    (hlinked : ∀ p, link p ∈ call.listing → p.Conjunctive R) {j : JoinDraft} :
    ∀ p ∈ call.added j, p.Conjunctive R := by
  induction call using JoinCall.induction generalizing j with
  | step call ih =>
      have hchild : ∀ child ∈ call.children, ∀ {j}, ∀ p ∈ child.added j, p.Conjunctive R :=
        fun child hc => ih child hc fun p hp => hlinked p (listing_subset_of_mem_children hc hp)
      intro p hp
      match call with
      | filter _ | columns _ | fromEntity .. | toEntity .. | withAlias _ | withKind _ =>
          exact absurd hp List.not_mem_nil
      | link join =>
          rw [List.mem_singleton.1 hp]
          exact hlinked join (mem_listing_self _)
      | linkNew calls =>
          obtain ⟨join, hall, rfl⟩ := mem_toList_map.1 hp
          exact (conjunctive_callback hchild (conjunctive_of_bare rfl rfl)).1 join hall
      | linkTo localAttribute remoteEntity remoteAttribute =>
          rw [List.mem_singleton.1 hp]
          exact conjunctive_of_bare rfl rfl
      | linkWith localAttribute remoteEntity remoteAttribute batch calls =>
          rw [List.mem_singleton.1 hp]
          exact conjunctive_withColumns
            (conjunctive_callback hchild (conjunctive_of_bare rfl rfl)).2 batch
      | tryLinkWith localAttribute remoteEntity remoteAttribute batch calls =>
          obtain ⟨join, hall, rfl⟩ := mem_toList_map.1 hp
          exact conjunctive_withColumns
            ((conjunctive_callback hchild (conjunctive_of_bare rfl rfl)).1 join hall) batch
      | attempt call => exact hchild call (List.mem_singleton.2 rfl) p hp

end JoinCall

/-! ## Drafts that calls build -/

/--
A draft that calls build.  The drafts that these calls link are built by calls as well, and a client
of a query or a join may keep the draft that is passed to its callback.  So the drafts that a
callback answers in place of the one that it is given are among these, too.
-/
inductive JoinDraft.Built : JoinDraft → Prop where
  | empty : Built .empty
  | seedOfQuery (q : QueryDraft) (localAttribute remoteEntity remoteAttribute : String) :
      Built (q.seed localAttribute remoteEntity remoteAttribute)
  | seedOfJoin {j : JoinDraft} (localAttribute remoteEntity remoteAttribute : String) :
      Built j → Built (j.seed localAttribute remoteEntity remoteAttribute)
  | call {j j' : JoinDraft} (call : JoinCall)
      (linked : ∀ head joins, .draft head joins ∈ JoinCall.linkedAll [call] → Built ⟨head, joins⟩) :
      Built j → call.apply j = .ok j' → Built j'

namespace JoinDraft

theorem Built.conjunctive {j : JoinDraft} (h : j.Built) :
    j.pending.Conjunctive fun _ => True := by
  induction h with
  | empty => exact JoinCall.conjunctive_of_bare rfl rfl
  | seedOfQuery => exact JoinCall.conjunctive_of_bare rfl rfl
  | seedOfJoin => exact JoinCall.conjunctive_of_bare rfl rfl
  | call call _ _ h ihlinked ih =>
      refine JoinCall.conjunctive_of_apply h (JoinCall.conjunctive_of_mem_added fun p hp => ?_) ih
      cases p with
      | rendered join => trivial
      | draft head joins =>
          exact ihlinked head joins (JoinCall.mem_linkedAll.2 ⟨call, List.mem_singleton.2 rfl, hp⟩)

end JoinDraft

/-! ## Calls on queries -/

namespace QueryCall

def linked : QueryCall → List PendingJoin
  | link join => [join]
  | linkNew calls => JoinCall.linkedAll calls
  | linkWith _ _ _ _ calls => JoinCall.linkedAll calls
  | tryLinkWith _ _ _ _ calls => JoinCall.linkedAll calls
  | _ => []

/-- The joins that were rendered elsewhere and that some calls link, at any depth. -/
def prebuilt (calls : List QueryCall) : List Join :=
  PendingJoin.prebuiltAll (calls.flatMap linked)

variable {R : Join → Prop}

theorem conjunctive_of_mem_added {call : QueryCall} (hlinked : ∀ p ∈ call.linked, p.Conjunctive R)
    {q : QueryDraft} : ∀ p ∈ call.added q, p.Conjunctive R := by
  have hchild : ∀ calls : List JoinCall, (∀ p ∈ JoinCall.linkedAll calls, p.Conjunctive R) →
      ∀ child ∈ calls, ∀ {j}, ∀ p ∈ child.added j, p.Conjunctive R :=
    fun calls hcalls child hc _ => JoinCall.conjunctive_of_mem_added fun p hp =>
      hcalls p (JoinCall.mem_linkedAll.2 ⟨child, hc, hp⟩)
  intro p hp
  match call with
  | filter _ | columns _ | forEntity _ | withConsistency _ | orderBy _ | page _ =>
      exact absurd hp List.not_mem_nil
  | link join => exact hlinked p hp
  | linkNew calls =>
      obtain ⟨join, hall, rfl⟩ := mem_toList_map.1 hp
      exact (JoinCall.conjunctive_callback (hchild calls hlinked)
        (JoinCall.conjunctive_of_bare rfl rfl)).1 join hall
  | linkTo localAttribute remoteEntity remoteAttribute =>
      rw [List.mem_singleton.1 hp]
      exact JoinCall.conjunctive_of_bare rfl rfl
  | linkWith localAttribute remoteEntity remoteAttribute batch calls =>
      rw [List.mem_singleton.1 hp]
      exact JoinCall.conjunctive_withColumns (JoinCall.conjunctive_callback (hchild calls hlinked)
        (JoinCall.conjunctive_of_bare rfl rfl)).2 batch
  | tryLinkWith localAttribute remoteEntity remoteAttribute batch calls =>
      obtain ⟨join, hall, rfl⟩ := mem_toList_map.1 hp
      exact JoinCall.conjunctive_withColumns ((JoinCall.conjunctive_callback (hchild calls hlinked)
        (JoinCall.conjunctive_of_bare rfl rfl)).1 join hall) batch

theorem conjunctive_of_mem_joins {calls : List QueryCall} {q : QueryDraft}
    (hlinked : ∀ p ∈ calls.flatMap linked, p.Conjunctive R) (hq : ∀ p ∈ q.joins, p.Conjunctive R) :
    ∀ p ∈ (applyEach calls q).joins, p.Conjunctive R := by
  refine applyEach_preserves (P := fun q => ∀ p ∈ q.joins, p.Conjunctive R) ?_ hq
  intro call hc q q' h hq p hp
  rw [joins_of_apply h] at hp
  rcases List.mem_append.1 hp with hp | hp
  · exact hq p hp
  · exact conjunctive_of_mem_added
      (fun p hp => hlinked p (List.mem_flatMap.2 ⟨call, hc, hp⟩)) p hp

/-- Whatever is called on a query, a plan that it renders to is well formed outside of the joins
that were rendered elsewhere, all of which some call linked.  If those are sound, all of it is. -/
theorem sound_of_render_applyEach {entity : String} {config : Config} {calls : List QueryCall}
    {plan : Plan}
    (built : ∀ head joins, .draft head joins ∈ calls.flatMap linked → JoinDraft.Built ⟨head, joins⟩)
    (h : (applyEach calls (.withConfig entity config)).render = .ok plan) :
    (∀ c ∈ plan.filter.listing, c.Accepted) ∧ plan.columns.Distinct ∧
      List.Forall₂ PendingJoin.SoundOutside
        (applyEach calls (.withConfig entity config)).joins plan.joins ∧
      (∀ join ∈ PendingJoin.prebuiltAll (applyEach calls (.withConfig entity config)).joins,
        join ∈ prebuilt calls) ∧
      ((∀ join ∈ prebuilt calls, ∀ j ∈ join.listing, j.Sound) → plan.WellFormed) := by
  have hlinked : ∀ p ∈ calls.flatMap linked, p.Conjunctive (· ∈ prebuilt calls) := by
    intro p hp
    have hall : p.Conjunctive fun _ => True := by
      cases p with
      | rendered join => trivial
      | draft head joins => exact (built head joins hp).conjunctive
    exact PendingJoin.conjunctive_of_prebuilt hall
      fun join hj => PendingJoin.mem_prebuiltAll.2 ⟨p, hp, hj⟩
  have hjoins := conjunctive_of_mem_joins (q := .withConfig entity config) hlinked
    fun _ hp => absurd hp List.not_mem_nil
  generalize applyEach calls (.withConfig entity config) = q at h hjoins
  obtain ⟨joins, hrender, rfl⟩ := QueryDraft.render_eq_ok.1 h
  have houtside : List.Forall₂ PendingJoin.SoundOutside q.joins joins :=
    forall₂_imp_of_mem (PendingJoin.renderAllUnder_eq_ok.1 hrender)
      fun p hp _ hp' => PendingJoin.soundOutside_of_render (hjoins p hp) hp'
  have hprebuilt : ∀ join ∈ PendingJoin.prebuiltAll q.joins, join ∈ prebuilt calls := by
    intro join hj
    obtain ⟨p, hp, hj⟩ := PendingJoin.mem_prebuiltAll.1 hj
    exact PendingJoin.prebuilt_of_conjunctive (hjoins p hp) join hj
  have haccepted := q.filter.accepted_render
  have hdistinct := q.columns.distinct_render
  refine ⟨haccepted, hdistinct, houtside, hprebuilt, fun hsound => ⟨haccepted, hdistinct, ?_⟩⟩
  intro j hj
  obtain ⟨join, hjoin, hj⟩ := Join.mem_listingAll.1 hj
  obtain ⟨p, hp, hpjoin⟩ := exists_left_of_forall₂ houtside hjoin
  exact hpjoin.sound_of_mem_listing (fun outer houter =>
    hsound outer (hprebuilt outer (PendingJoin.mem_prebuiltAll.2 ⟨p, hp, houter⟩))) j hj

def invoiceCalls : List QueryCall :=
  [.filter (.group .or [.named (.equals "name" (.string "Acme")),
      .attempt (.condition "name" .like none)]),
    .link (QueryDraft.seed (.new "invoice") "ownerid" "user" "userid").pending,
    .linkWith "customerid" "customer" "customerid" ["name", "name"]
      [.withKind .leftOuter, .linkTo "accountid" "account" "accountid"]]

theorem sound_of_render_invoiceCalls : ∃ plan,
    (applyEach invoiceCalls (.withConfig "invoice" {})).render = .ok plan ∧ plan.WellFormed := by
  obtain ⟨plan, h⟩ : ∃ plan, (applyEach invoiceCalls (.withConfig "invoice" {})).render =
      .ok plan := ⟨_, rfl⟩
  refine ⟨plan, h, (sound_of_render_applyEach ?_ h).2.2.2.2 fun join hj => ?_⟩
  · intro head joins hlinked
    have hseed : PendingJoin.draft head joins =
        (QueryDraft.seed (.new "invoice") "ownerid" "user" "userid").pending := by
      simpa [invoiceCalls, linked, JoinCall.linkedAll, JoinCall.listingAll, JoinCall.listing,
        JoinCall.linked?] using hlinked
    cases hseed
    exact .seedOfQuery (.new "invoice") "ownerid" "user" "userid"
  · exact absurd hj List.not_mem_nil

end QueryCall

end EntityQuery
