import EntityQuery.Proofs.Call.Calculus
import EntityQuery.Proofs.Plan.WellFormed

/-!
# Joins that start at their draft

A link without a draft of its own starts at the draft it is called on: at the entity that a query
has then, or at the entity that a join adds, whatever that is in the end.  A query all of whose
joins are linked so can always be rendered, and the plan has one join for each link that succeeds,
in the order of the links and nested as they are.

A callback starts with both ends of its join set, and no call takes an end away again; this carries
the rendering.  Where the callback leaves the local end alone, a join of a query keeps the entity
it was given and a join of a join is given one by the join around it.
-/

namespace EntityQuery

/-! ## Where joins are placed -/

namespace JoinCall

/-- Whether a call links a join that does not start at the draft. -/
def linksForeign : JoinCall → Bool
  | link _ => true
  | linkNew _ => true
  | _ => false

mutual

/-- The joins that a call nests in a join, by the remote entity of that join. -/
def Nests (remote : String) : JoinCall → JoinDraft → List Join → Prop
  | linkTo _ _ _, _, joins => ∃ join, joins = [join] ∧ join.localEntity = remote ∧ join.nested = []
  | linkWith localAttribute remoteEntity remoteAttribute _ calls, j, joins =>
      ∃ join, joins = [join] ∧ (calls.any setsSource = false → join.localEntity = remote) ∧
        NestsAll join.remoteEntity calls (j.seed localAttribute remoteEntity remoteAttribute)
          join.nested
  | tryLinkWith localAttribute remoteEntity remoteAttribute _ calls, j, joins =>
      match applyAll calls (j.seed localAttribute remoteEntity remoteAttribute) with
      | .ok _ =>
          ∃ join, joins = [join] ∧ (calls.any setsSource = false → join.localEntity = remote) ∧
            NestsAll join.remoteEntity calls (j.seed localAttribute remoteEntity remoteAttribute)
              join.nested
      | .error _ => joins = []
  | attempt call, j, joins => Nests remote call j joins
  | _, _, joins => joins = []

def NestsAll (remote : String) : List JoinCall → JoinDraft → List Join → Prop
  | [], _, joins => joins = []
  | call :: calls, j, joins => ∃ here later, joins = here ++ later ∧ Nests remote call j here ∧
      NestsAll remote calls (keepOnError j (call.apply j)) later

end

/-- The join of a link at an entity whose callback makes some calls on a seed: it stays there unless
a call names another local end, and what the calls link is nested in it. -/
def Placed (origin : String) (calls : List JoinCall) (seed : JoinDraft) (join : Join) : Prop :=
  (calls.any setsSource = false → join.localEntity = origin) ∧
    NestsAll join.remoteEntity calls seed join.nested

end JoinCall

namespace QueryCall

def callback : QueryCall → List JoinCall
  | linkNew calls => calls
  | linkWith _ _ _ _ calls => calls
  | tryLinkWith _ _ _ _ calls => calls
  | _ => []

def linksForeign : QueryCall → Bool
  | link _ => true
  | linkNew _ => true
  | _ => false

/-- The joins that a call adds to a plan, by the entity that the query has then. -/
def Links : QueryCall → QueryDraft → List Join → Prop
  | linkTo localAttribute remoteEntity remoteAttribute, q, joins => ∃ join, joins = [join] ∧
      JoinCall.Placed q.entity [] (q.seed localAttribute remoteEntity remoteAttribute) join
  | linkWith localAttribute remoteEntity remoteAttribute _ calls, q, joins =>
      ∃ join, joins = [join] ∧
        JoinCall.Placed q.entity calls (q.seed localAttribute remoteEntity remoteAttribute) join
  | tryLinkWith localAttribute remoteEntity remoteAttribute _ calls, q, joins =>
      match JoinCall.applyAll calls (q.seed localAttribute remoteEntity remoteAttribute) with
      | .ok _ => ∃ join, joins = [join] ∧
          JoinCall.Placed q.entity calls (q.seed localAttribute remoteEntity remoteAttribute) join
      | .error _ => joins = []
  | _, _, joins => joins = []

def LinksAll : List QueryCall → QueryDraft → List Join → Prop
  | [], _, joins => joins = []
  | call :: calls, q, joins => ∃ here later, joins = here ++ later ∧ call.Links q here ∧
      LinksAll calls (keepOnError q (call.apply q)) later

end QueryCall

/-! ## Rendering the joins of callbacks -/

namespace JoinCall

variable {call : JoinCall} {calls : List JoinCall}

/-- Below every entity, the joins that a call adds are rendered where the call nests them, and are
of the kind of the draft unless a call sets another. -/
def Renders (call : JoinCall) : Prop :=
  ∀ (j : JoinDraft) (remote : String), ∃ joins,
    PendingJoin.renderAllUnder (some remote) (call.added j) = .ok joins ∧
      call.Nests remote j joins ∧
      ((∀ inner ∈ call.listing, inner.setsKind = false) →
        ∀ join ∈ Join.listingAll joins, join.kind = j.kind)

/-- The kind of a draft is the same before and after calls that do not set it. -/
theorem kind_keepOnError {j : JoinDraft} (h : call.setsKind = false) :
    (keepOnError j (call.apply j)).kind = j.kind := by
  rcases (headStep_keepOnError call j).kind with hkind | hset
  · exact hkind
  · rw [h] at hset
    cases hset

theorem renders_applyEach (hcalls : ∀ call ∈ calls, call.Renders) {j : JoinDraft} {remote : String}
    {before : List Join}
    (hj : PendingJoin.renderAllUnder (some remote) j.joins = .ok before) :
    ∃ later, PendingJoin.renderAllUnder (some remote) (applyEach calls j).joins =
        .ok (before ++ later) ∧
      NestsAll remote calls j later ∧
      ((∀ inner ∈ listingAll calls, inner.setsKind = false) →
        ∀ join ∈ Join.listingAll later, join.kind = j.kind) := by
  induction calls generalizing j before with
  | nil =>
      refine ⟨[], ?_, rfl, fun _ join hjoin => absurd hjoin List.not_mem_nil⟩
      rw [List.append_nil]
      exact hj
  | cons call calls ih =>
      obtain ⟨here, hhere, hnests, hkind⟩ := hcalls call List.mem_cons_self j remote
      have hstep : PendingJoin.renderAllUnder (some remote) (keepOnError j (call.apply j)).joins =
          .ok (before ++ here) := by
        rw [joins_keepOnError]
        exact PendingJoin.renderAllUnder_append_eq_ok.2 ⟨before, hj, here, hhere, rfl⟩
      obtain ⟨later, hlater, hnestsAll, hkinds⟩ :=
        ih (fun c hc => hcalls c (List.mem_cons_of_mem _ hc)) hstep
      refine ⟨here ++ later, ?_, ⟨here, later, rfl, hnests, hnestsAll⟩, ?_⟩
      · rw [applyEach, hlater, List.append_assoc]
      · intro hsets join hjoin
        have hcall : ∀ inner ∈ call.listing, inner.setsKind = false :=
          fun inner hinner => hsets inner (mem_listingAll.2 ⟨call, List.mem_cons_self, hinner⟩)
        obtain ⟨outer, houter, hjoin⟩ := Join.mem_listingAll.1 hjoin
        rcases List.mem_append.1 houter with houter | houter
        · exact hkind hcall join (Join.mem_listingAll.2 ⟨outer, houter, hjoin⟩)
        · rw [hkinds (fun inner hinner => hsets inner (List.mem_append_right _ hinner)) join
            (Join.mem_listingAll.2 ⟨outer, houter, hjoin⟩)]
          exact kind_keepOnError (hcall call (mem_listing_self call))

/-- Ends that are known stay known, and the local one stays unless it is set. -/
theorem HeadStep.exists_ends {sets kind : Bool} {head head' : JoinHead}
    (h : HeadStep sets kind head head') {parent : Option String} {source : LocalEnd}
    {origin : String} {target : Endpoint} (hsource : head.source = some source)
    (horigin : source.entity? parent = some origin) (htarget : head.target = some target) :
    ∃ ends, head'.ends parent = .ok ends ∧ (sets = false → ends.localEntity = origin) := by
  obtain ⟨target', htarget'⟩ : ∃ target', head'.target = some target' := by
    rcases h.target with heq | hset
    · exact ⟨target, heq.trans htarget⟩
    · exact hset
  rcases h.source with heq | ⟨hset, endpoint, hfixed⟩
  · exact ⟨⟨origin, source.attr, target'⟩, JoinHead.ends_eq_ok.2
      ⟨source, origin, target', heq.trans hsource, horigin, htarget', rfl⟩, fun _ => rfl⟩
  · refine ⟨⟨endpoint.entity, endpoint.attr, target'⟩, JoinHead.ends_eq_ok.2
      ⟨.fixed endpoint, endpoint.entity, target', hfixed, rfl, htarget', rfl⟩, fun hunset => ?_⟩
    rw [hset] at hunset
    cases hunset

/-- A callback that starts with both ends leaves a join that can be rendered and is placed where it
started. -/
theorem placed_applyEach (hcalls : ∀ call ∈ calls, call.Renders) (seed : JoinDraft)
    {parent : Option String} {source : LocalEnd} {origin : String} {target : Endpoint}
    (hbare : seed.joins = []) (hsource : seed.source = some source)
    (horigin : source.entity? parent = some origin) (htarget : seed.target = some target)
    (batch : List String) :
    ∃ join, PendingJoin.renderAllUnder parent
        [(Linkable.withColumns (applyEach calls seed) batch).pending] = .ok [join] ∧
      Placed origin calls seed join ∧
      ((∀ inner ∈ listingAll calls, inner.setsKind = false) →
        ∀ inner ∈ Join.listingAll [join], inner.kind = seed.kind) := by
  have hcolumns := headStep_withColumns (applyEach calls seed) batch
  have hhead := (headStep_applyEach calls seed).trans (hcolumns.mono nofun nofun)
  obtain ⟨ends, hends, hlocal⟩ := hhead.exists_ends hsource horigin htarget
  have hnone : PendingJoin.renderAllUnder (some ends.target.entity) seed.joins = .ok [] := by
    rw [hbare]
    rfl
  obtain ⟨nested, hnested, hnests, hkinds⟩ := renders_applyEach hcalls hnone
  rw [← joins_withColumns _ batch] at hnested
  have hrender := PendingJoin.renderUnder_draft_eq_ok.2 ⟨ends, hends, nested, hnested, rfl⟩
  refine ⟨(Linkable.withColumns (applyEach calls seed) batch).node ends nested, ?_,
    ⟨hlocal, hnests⟩, fun hsets inner hinner => ?_⟩
  · rw [PendingJoin.renderAllUnder_singleton, JoinDraft.pending, hrender]
    rfl
  · rw [Join.listingAll_singleton, Join.listing_eq] at hinner
    rcases List.mem_cons.1 hinner with rfl | hinner
    · rcases hhead.kind with hkind | hset
      · exact hkind
      · obtain ⟨call, hc, hset⟩ := List.any_eq_true.1 hset
        rw [hsets call (mem_listingAll.2 ⟨call, hc, mem_listing_self call⟩)] at hset
        cases hset
    · exact hkinds hsets inner hinner

theorem renders_of_own (hown : ∀ inner ∈ call.listing, inner.linksForeign = false) :
    call.Renders := by
  induction call using JoinCall.induction with
  | step call ih =>
      have hchild : ∀ child ∈ call.children, child.Renders := fun child hc =>
        ih child hc fun inner hinner => hown inner (listing_subset_of_mem_children hc hinner)
      intro j remote
      match call with
      | filter _ | columns _ | fromEntity .. | toEntity .. | withAlias _ | withKind _ =>
          exact ⟨[], rfl, rfl, fun _ _ hjoin => absurd hjoin List.not_mem_nil⟩
      | link join => exact absurd (hown _ (mem_listing_self _)) nofun
      | linkNew calls => exact absurd (hown _ (mem_listing_self _)) nofun
      | linkTo localAttribute remoteEntity remoteAttribute =>
          have hnone : ∀ child ∈ ([] : List JoinCall), child.Renders := nofun
          obtain ⟨join, hrender, ⟨hlocal, hnested⟩, hkinds⟩ := placed_applyEach hnone
            (j.seed localAttribute remoteEntity remoteAttribute) rfl rfl rfl rfl []
          exact ⟨[join], hrender, ⟨join, rfl, hlocal rfl, hnested⟩, fun _ => hkinds nofun⟩
      | linkWith localAttribute remoteEntity remoteAttribute batch calls =>
          obtain ⟨join, hrender, hplaced, hkinds⟩ := placed_applyEach hchild
            (j.seed localAttribute remoteEntity remoteAttribute) rfl rfl rfl rfl batch
          exact ⟨[join], hrender, ⟨join, rfl, hplaced⟩,
            fun hsets => hkinds fun inner hinner => hsets inner (List.mem_cons_of_mem _ hinner)⟩
      | tryLinkWith localAttribute remoteEntity remoteAttribute batch calls =>
          obtain ⟨join, hrender, hplaced, hkinds⟩ := placed_applyEach hchild
            (j.seed localAttribute remoteEntity remoteAttribute) rfl rfl rfl rfl batch
          cases hall : applyAll calls (j.seed localAttribute remoteEntity remoteAttribute) with
          | error e =>
              refine ⟨[], ?_, ?_, fun _ _ hjoin => absurd hjoin List.not_mem_nil⟩
              · rw [added, hall]
                rfl
              · rw [Nests, hall]
          | ok changed =>
              refine ⟨[join], ?_, ?_,
                fun hsets => hkinds fun inner hinner => hsets inner (List.mem_cons_of_mem _ hinner)⟩
              · rw [added, hall, ← hrender, children, applyEach_of_applyAll hall]
                rfl
              · rw [Nests, hall]
                exact ⟨join, rfl, hplaced⟩
      | attempt call =>
          obtain ⟨joins, hrender, hnests, hkinds⟩ :=
            hchild call (List.mem_singleton.2 rfl) j remote
          exact ⟨joins, hrender, hnests,
            fun hsets => hkinds fun inner hinner => hsets inner (List.mem_cons_of_mem _ hinner)⟩

end JoinCall

namespace QueryCall

variable {call : QueryCall} {calls : List QueryCall}

/-- The joins that a call adds to a query are rendered where the call links them. -/
theorem links_added (hown : call.linksForeign = false)
    (hinner : ∀ inner ∈ JoinCall.listingAll call.callback, inner.linksForeign = false)
    (q : QueryDraft) :
    ∃ joins, PendingJoin.renderAllUnder none (call.added q) = .ok joins ∧ call.Links q joins ∧
      ((∀ inner ∈ JoinCall.listingAll call.callback, inner.setsKind = false) →
        ∀ join ∈ Join.listingAll joins, join.kind = q.joinKind) := by
  have hchild : ∀ child ∈ call.callback, child.Renders := fun child hc =>
    JoinCall.renders_of_own fun inner hi =>
      hinner inner (JoinCall.mem_listingAll.2 ⟨child, hc, hi⟩)
  match call with
  | filter _ | columns _ | forEntity _ | withConsistency _ | orderBy _ | page _ =>
      exact ⟨[], rfl, rfl, fun _ _ hjoin => absurd hjoin List.not_mem_nil⟩
  | link join => cases hown
  | linkNew calls => cases hown
  | linkTo localAttribute remoteEntity remoteAttribute =>
      have hnone : ∀ child ∈ ([] : List JoinCall), child.Renders := nofun
      obtain ⟨join, hrender, hplaced, hkinds⟩ := JoinCall.placed_applyEach hnone
        (q.seed localAttribute remoteEntity remoteAttribute) rfl rfl rfl rfl []
      exact ⟨[join], hrender, ⟨join, rfl, hplaced⟩, hkinds⟩
  | linkWith localAttribute remoteEntity remoteAttribute batch calls =>
      obtain ⟨join, hrender, hplaced, hkinds⟩ := JoinCall.placed_applyEach hchild
        (q.seed localAttribute remoteEntity remoteAttribute) rfl rfl rfl rfl batch
      exact ⟨[join], hrender, ⟨join, rfl, hplaced⟩, hkinds⟩
  | tryLinkWith localAttribute remoteEntity remoteAttribute batch calls =>
      obtain ⟨join, hrender, hplaced, hkinds⟩ := JoinCall.placed_applyEach hchild
        (q.seed localAttribute remoteEntity remoteAttribute) rfl rfl rfl rfl batch
      cases hall : JoinCall.applyAll calls (q.seed localAttribute remoteEntity remoteAttribute) with
      | error e =>
          refine ⟨[], ?_, ?_, fun _ _ hjoin => absurd hjoin List.not_mem_nil⟩
          · rw [added, hall]
            rfl
          · rw [Links, hall]
      | ok changed =>
          refine ⟨[join], ?_, ?_, hkinds⟩
          · rw [added, hall, ← hrender, callback, JoinCall.applyEach_of_applyAll hall]
            rfl
          · rw [Links, hall]
            exact ⟨join, rfl, hplaced⟩

theorem linksAll_applyEach (hown : ∀ call ∈ calls, call.linksForeign = false)
    (hinner : ∀ call ∈ calls, ∀ inner ∈ JoinCall.listingAll call.callback,
      inner.linksForeign = false)
    {q : QueryDraft} {before : List Join}
    (hq : PendingJoin.renderAllUnder none q.joins = .ok before) :
    ∃ later, PendingJoin.renderAllUnder none (applyEach calls q).joins = .ok (before ++ later) ∧
      LinksAll calls q later ∧
      ((∀ call ∈ calls, ∀ inner ∈ JoinCall.listingAll call.callback, inner.setsKind = false) →
        ∀ join ∈ Join.listingAll later, join.kind = q.joinKind) := by
  induction calls generalizing q before with
  | nil =>
      refine ⟨[], ?_, rfl, fun _ join hjoin => absurd hjoin List.not_mem_nil⟩
      rw [List.append_nil]
      exact hq
  | cons call calls ih =>
      obtain ⟨here, hhere, hlinks, hkind⟩ :=
        links_added (hown call List.mem_cons_self) (hinner call List.mem_cons_self) q
      have hstep : PendingJoin.renderAllUnder none (keepOnError q (call.apply q)).joins =
          .ok (before ++ here) := by
        rw [joins_keepOnError]
        exact PendingJoin.renderAllUnder_append_eq_ok.2 ⟨before, hq, here, hhere, rfl⟩
      obtain ⟨later, hlater, hlinksAll, hkinds⟩ :=
        ih (fun c hc => hown c (List.mem_cons_of_mem _ hc))
          (fun c hc => hinner c (List.mem_cons_of_mem _ hc)) hstep
      refine ⟨here ++ later, ?_, ⟨here, later, rfl, hlinks, hlinksAll⟩, ?_⟩
      · rw [applyEach_cons, hlater, List.append_assoc]
      · intro hsets join hjoin
        obtain ⟨outer, houter, hjoin⟩ := Join.mem_listingAll.1 hjoin
        rcases List.mem_append.1 houter with houter | houter
        · exact hkind (hsets call List.mem_cons_self) join
            (Join.mem_listingAll.2 ⟨outer, houter, hjoin⟩)
        · rw [hkinds (fun c hc => hsets c (List.mem_cons_of_mem _ hc)) join
            (Join.mem_listingAll.2 ⟨outer, houter, hjoin⟩)]
          exact joinKind_keepOnError call q

/-- A query whose joins all start at their draft can be rendered.  Its plan has a join for each link
that succeeds: at the entity that the query had then or that the join around it adds, unless its
callback names another.  All joins are of the kind that the query prefers, unless a callback sets
another. -/
theorem exists_plan_of_own_links {entity : String} {config : Config} {calls : List QueryCall}
    (hown : ∀ call ∈ calls, call.linksForeign = false)
    (hinner : ∀ call ∈ calls, ∀ inner ∈ JoinCall.listingAll call.callback,
      inner.linksForeign = false) :
    ∃ plan, (applyEach calls (.withConfig entity config)).render = .ok plan ∧
      LinksAll calls (.withConfig entity config) plan.joins ∧
      ((∀ call ∈ calls, ∀ inner ∈ JoinCall.listingAll call.callback, inner.setsKind = false) →
        ∀ join ∈ Join.listingAll plan.joins, join.kind = config.joinKind) := by
  have hnone : PendingJoin.renderAllUnder none (QueryDraft.withConfig entity config).joins =
      .ok [] := rfl
  obtain ⟨joins, hrender, hlinks, hkinds⟩ := linksAll_applyEach hown hinner hnone
  exact ⟨_, QueryDraft.render_eq_ok.2 ⟨joins, hrender, rfl⟩, hlinks, hkinds⟩

def orderCalls : List QueryCall :=
  [.linkWith "customerid" "customer" "customerid" ["name"]
      [.toEntity "account" "accountid", .linkTo "ownerid" "user" "userid",
        .attempt (.tryLinkWith "parentid" "account" "accountid" [] [.fromEntity "user" "teamid"]),
        .toEntity "contact" "contactid"],
    .tryLinkWith "addressid" "address" "addressid" [] [.columns (.addStrict ["city", "city"])],
    .forEntity "order",
    .linkTo "customerid" "customer" "customerid"]

theorem exists_plan_of_orderCalls : ∃ plan,
    (applyEach orderCalls (.withConfig "invoice" { joinKind := .leftOuter })).render = .ok plan ∧
      plan.joins.map (fun join => (join.localEntity, join.nested.map Join.localEntity)) =
        [("invoice", ["contact", "user"]), ("order", [])] ∧
      ∀ join ∈ Join.listingAll plan.joins, join.kind = .leftOuter := by
  obtain ⟨plan, h, -, hkinds⟩ := @exists_plan_of_own_links "invoice"
    { joinKind := .leftOuter } orderCalls (by decide) (by decide)
  have hentities : ((applyEach orderCalls
      (.withConfig "invoice" { joinKind := .leftOuter })).render.map fun plan =>
        plan.joins.map fun join => (join.localEntity, join.nested.map Join.localEntity)) =
      .ok [("invoice", ["contact", "user"]), ("order", [])] := rfl
  rw [h] at hentities
  exact ⟨plan, h, Except.ok.inj hentities, hkinds (by decide)⟩

end QueryCall

end EntityQuery
