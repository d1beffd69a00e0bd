import EntityQuery.Proofs.Call.Calculus

/-!
# Late binding

A join that starts at a draft leaves its local entity open until the draft is rendered.  That is as
good as naming the entity at once, provided that the name is the one that the draft ends up with.

Three fields of a draft are passed on by all calls that do not set them: the two ends and the alias.
No call reads them, so that what they were before some calls bears on the result in these fields
alone.  Two things follow.  The local end of a join that is configured is open or named as it was
before, unless the configuration names another.  And the calls that set the fields may be made
before or after all others, of each field in the same order.  The kind is different: links read it.
-/

namespace EntityQuery

/-! ## Rendering with one join exchanged -/

namespace PendingJoin

variable {above : Option String} {before after : List PendingJoin} {p q : PendingJoin}

theorem renderAllUnder_exchange (h : p.renderUnder above = q.renderUnder above) :
    renderAllUnder above (before ++ [p] ++ after) = renderAllUnder above (before ++ [q] ++ after) := by
  rw [renderAllUnder_append, renderAllUnder_append, renderAllUnder_append, renderAllUnder_append,
    renderAllUnder_singleton, renderAllUnder_singleton, h]

/-- The nested joins of a draft are rendered below the entity of its remote end, and not at all
where that is missing. -/
theorem renderUnder_draft_congr {parent : Option String} {head : JoinHead}
    {joins joins' : List PendingJoin}
    (h : ∀ target, head.target = some target →
      renderAllUnder (some target.entity) joins = renderAllUnder (some target.entity) joins') :
    (draft head joins).renderUnder parent = (draft head joins').renderUnder parent := by
  rw [renderUnder, renderUnder]
  cases hends : head.ends parent with
  | error e => rfl
  | ok ends =>
      obtain ⟨source, localEntity, target, -, -, htarget, rfl⟩ := JoinHead.ends_eq_ok.1 hends
      change (renderAllUnder (some target.entity) joins >>= _) =
        (renderAllUnder (some target.entity) joins' >>= _)
      rw [h target htarget]

end PendingJoin

namespace JoinDraft

/-- Below an entity it makes no difference whether a join inherits or names it. -/
theorem renderUnder_named {j : JoinDraft} {attr : String} (h : j.source = some (.inherited attr))
    (entity : String) : j.pending.renderUnder (some entity) =
      { j with source := some (.fixed ⟨entity, attr⟩) }.pending.renderUnder (some entity) := by
  obtain ⟨⟨source, target, aliasName, kind, columns, filter⟩, joins⟩ := j
  cases h
  cases target with
  | none => rfl
  | some target => rfl

/-- The join that a link with some calls makes, from an entity that is named. -/
def namedLink (j : JoinDraft) (entity localAttribute remoteEntity remoteAttribute : String)
    (batch : List String) (calls : List JoinCall) : JoinDraft :=
  Linkable.withColumns (JoinCall.applyEach calls
    (((empty.withKind j.kind).fromEntity entity localAttribute).toEntity remoteEntity
      remoteAttribute)) batch

end JoinDraft

namespace JoinCall

variable {call : JoinCall} {calls calls' : List JoinCall} {j j' : JoinDraft}

/-! ## Ends and alias -/

def source? : JoinCall → Option LocalEnd
  | fromEntity entity attr => some (.fixed ⟨entity, attr⟩)
  | attempt call => call.source?
  | _ => none

def target? : JoinCall → Option Endpoint
  | toEntity entity attr => some ⟨entity, attr⟩
  | attempt call => call.target?
  | _ => none

def aliasName? : JoinCall → Option String
  | withAlias aliasName => some aliasName
  | attempt call => call.aliasName?
  | _ => none

def names (call : JoinCall) : Bool :=
  call.source?.isSome || call.target?.isSome || call.aliasName?.isSome

theorem names_eq_false_iff :
    call.names = false ↔ call.source? = none ∧ call.target? = none ∧ call.aliasName? = none := by
  simp [names, and_assoc]

/-- A call that sets an end or the alias does nothing else, and does not fail. -/
theorem apply_of_names (call : JoinCall) (h : call.names = true) (j : JoinDraft) :
    call.apply j = .ok { j with
      source := call.source?.or j.source
      target := call.target?.or j.target
      aliasName := call.aliasName?.or j.aliasName } := by
  match call with
  | fromEntity .. | toEntity .. | withAlias _ => rfl
  | attempt call =>
      rw [apply, apply_of_names call h j]
      rfl
  | filter _ | columns _ | withKind _ | link _ | linkNew _ | linkTo .. | linkWith .. |
      tryLinkWith .. => cases h

/-- The ends and the alias of a draft bear on nothing but themselves. -/
theorem apply_withNames (call : JoinCall) (j : JoinDraft) (source : Option LocalEnd)
    (target : Option Endpoint) (aliasName : Option String) :
    call.apply { j with source, target, aliasName } = (call.apply j).map fun changed =>
      { changed with
        source := call.source?.or source
        target := call.target?.or target
        aliasName := call.aliasName?.or aliasName } := by
  match call with
  | filter filterCall =>
      rw [apply_filter, apply_filter]
      cases Filtered.onFilter j.filter filterCall.run <;> rfl
  | columns columnCall =>
      rw [apply_columns, apply_columns]
      cases columnCall.apply j.columns <;> rfl
  | fromEntity .. | toEntity .. | withAlias _ | withKind _ | link _ => rfl
  | linkNew calls =>
      rw [apply_linkNew, apply_linkNew]
      cases applyAll calls .empty <;> rfl
  | linkTo .. => rw [apply_linkTo, apply_linkTo]; rfl
  | linkWith .. => rw [apply_linkWith, apply_linkWith]; rfl
  | tryLinkWith localAttribute remoteEntity remoteAttribute batch calls =>
      rw [apply_tryLinkWith, apply_tryLinkWith]
      change Except.map _ (applyAll calls (j.seed _ _ _)) = _
      cases applyAll calls (j.seed localAttribute remoteEntity remoteAttribute) <;> rfl
  | attempt call =>
      rw [apply, apply, apply_withNames call j source target aliasName]
      cases hcall : call.apply j with
      | ok changed => rfl
      | error e =>
          have hnames : call.names = false := by
            by_contra hnames
            rw [apply_of_names call (by simpa using hnames)] at hcall
            cases hcall
          obtain ⟨hsource, htarget, halias⟩ := names_eq_false_iff.1 hnames
          simp [Except.map, keepOnError, source?, target?, aliasName?, hsource, htarget, halias]

theorem keepOnError_withNames (call : JoinCall) (j : JoinDraft) (source : Option LocalEnd)
    (target : Option Endpoint) (aliasName : Option String) :
    keepOnError { j with source, target, aliasName }
        (call.apply { j with source, target, aliasName }) =
      { keepOnError j (call.apply j) with
        source := call.source?.or source
        target := call.target?.or target
        aliasName := call.aliasName?.or aliasName } := by
  have h := apply_withNames (attempt call) j source target aliasName
  rw [apply, apply] at h
  exact Except.ok.inj h

/-- After some calls the ends and the alias are what was set last, or what they were before. -/
theorem applyEach_withNames (calls : List JoinCall) (j : JoinDraft) (source : Option LocalEnd)
    (target : Option Endpoint) (aliasName : Option String) :
    applyEach calls { j with source, target, aliasName } =
      { applyEach calls j with
        source := (calls.filterMap source?).getLast?.or source
        target := (calls.filterMap target?).getLast?.or target
        aliasName := (calls.filterMap aliasName?).getLast?.or aliasName } := by
  induction calls generalizing j source target aliasName with
  | nil => rfl
  | cons call calls ih =>
      rw [applyEach, applyEach, keepOnError_withNames, ih]
      simp only [getLast?_filterMap_cons, Option.or_assoc]

theorem applyAll_withNames (calls : List JoinCall) (j : JoinDraft) (source : Option LocalEnd)
    (target : Option Endpoint) (aliasName : Option String) :
    applyAll calls { j with source, target, aliasName } = (applyAll calls j).map fun changed =>
      { changed with
        source := (calls.filterMap source?).getLast?.or source
        target := (calls.filterMap target?).getLast?.or target
        aliasName := (calls.filterMap aliasName?).getLast?.or aliasName } := by
  induction calls generalizing j source target aliasName with
  | nil => rfl
  | cons call calls ih =>
      rw [applyAll_cons, applyAll_cons, apply_withNames]
      cases call.apply j with
      | error e => rfl
      | ok changed =>
          change applyAll calls { changed with
            source := call.source?.or source
            target := call.target?.or target
            aliasName := call.aliasName?.or aliasName } = (applyAll calls changed).map _
          rw [ih]
          simp only [getLast?_filterMap_cons, Option.or_assoc]

theorem names_keepOnError (call : JoinCall) (j : JoinDraft) :
    (keepOnError j (call.apply j)).source = call.source?.or j.source ∧
      (keepOnError j (call.apply j)).target = call.target?.or j.target ∧
      (keepOnError j (call.apply j)).aliasName = call.aliasName?.or j.aliasName := by
  have h := keepOnError_withNames call j j.source j.target j.aliasName
  exact ⟨congrArg (·.source) h, congrArg (·.target) h, congrArg (·.aliasName) h⟩

theorem names_applyEach (calls : List JoinCall) (j : JoinDraft) :
    (applyEach calls j).source = (calls.filterMap source?).getLast?.or j.source ∧
      (applyEach calls j).target = (calls.filterMap target?).getLast?.or j.target ∧
      (applyEach calls j).aliasName = (calls.filterMap aliasName?).getLast?.or j.aliasName := by
  have h := applyEach_withNames calls j j.source j.target j.aliasName
  exact ⟨congrArg (·.source) h, congrArg (·.target) h, congrArg (·.aliasName) h⟩

theorem applyEach_withSource (calls : List JoinCall) (j : JoinDraft) (source : Option LocalEnd) :
    applyEach calls { j with source } =
      { applyEach calls j with source := (calls.filterMap source?).getLast?.or source } := by
  obtain ⟨-, htarget, halias⟩ := names_applyEach calls j
  have h := applyEach_withNames calls j source j.target j.aliasName
  rw [← htarget, ← halias] at h
  exact h

theorem others_cons_of_names (h : call.names = true) :
    (call :: calls).filter (fun call => !call.names) = calls.filter fun call => !call.names := by
  simp [h]

theorem others_cons (h : call.names = false) :
    (call :: calls).filter (fun call => !call.names) =
      call :: calls.filter fun call => !call.names := by
  simp [h]

/-- Calls that set an end or the alias may come before or after the others. -/
theorem applyEach_eq (calls : List JoinCall) (j : JoinDraft) :
    applyEach calls j =
      { applyEach (calls.filter fun call => !call.names) j with
        source := (calls.filterMap source?).getLast?.or j.source
        target := (calls.filterMap target?).getLast?.or j.target
        aliasName := (calls.filterMap aliasName?).getLast?.or j.aliasName } := by
  induction calls generalizing j with
  | nil => rfl
  | cons call calls ih =>
      cases hnames : call.names with
      | true =>
          rw [applyEach, apply_of_names call hnames, keepOnError, applyEach_withNames, ih,
            others_cons_of_names hnames]
          simp only [getLast?_filterMap_cons, Option.or_assoc]
      | false =>
          obtain ⟨hsource, htarget, halias⟩ := names_keepOnError call j
          rw [applyEach, ih, others_cons hnames, applyEach, hsource, htarget, halias]
          simp only [getLast?_filterMap_cons, Option.or_assoc]

theorem applyAll_eq (calls : List JoinCall) (j : JoinDraft) :
    applyAll calls j =
      (applyAll (calls.filter fun call => !call.names) j).map fun changed =>
        { changed with
          source := (calls.filterMap source?).getLast?.or j.source
          target := (calls.filterMap target?).getLast?.or j.target
          aliasName := (calls.filterMap aliasName?).getLast?.or j.aliasName } := by
  induction calls generalizing j with
  | nil => rfl
  | cons call calls ih =>
      cases hnames : call.names with
      | true =>
          rw [applyAll_cons, apply_of_names call hnames, others_cons_of_names hnames]
          change applyAll calls { j with
            source := call.source?.or j.source
            target := call.target?.or j.target
            aliasName := call.aliasName?.or j.aliasName } = _
          rw [applyAll_withNames, ih]
          simp only [getLast?_filterMap_cons, Option.or_assoc]
          cases applyAll (calls.filter fun call => !call.names) j <;> rfl
      | false =>
          obtain ⟨hsource, htarget, halias⟩ := names_keepOnError call j
          rw [applyAll_cons, others_cons hnames, applyAll_cons]
          cases hcall : call.apply j with
          | error e => rfl
          | ok changed =>
              rw [hcall, keepOnError] at hsource htarget halias
              change applyAll calls changed =
                (applyAll (calls.filter fun call => !call.names) changed).map _
              rw [ih, hsource, htarget, halias]
              simp only [getLast?_filterMap_cons, Option.or_assoc]

theorem apply_eq_of_names (hsource : (calls.filterMap source?).getLast? =
      (calls'.filterMap source?).getLast?)
    (htarget : (calls.filterMap target?).getLast? = (calls'.filterMap target?).getLast?)
    (halias : (calls.filterMap aliasName?).getLast? = (calls'.filterMap aliasName?).getLast?)
    (hothers : (calls.filter fun call => !call.names) = calls'.filter fun call => !call.names)
    (j : JoinDraft) : applyEach calls j = applyEach calls' j ∧ applyAll calls j = applyAll calls' j := by
  constructor
  · rw [applyEach_eq calls, applyEach_eq calls', hsource, htarget, halias, hothers]
  · rw [applyAll_eq calls, applyAll_eq calls', hsource, htarget, halias, hothers]

/-! ## Links -/

theorem withColumns_withSource (j : JoinDraft) (batch : List String) (source : Option LocalEnd) :
    Linkable.withColumns { j with source } batch =
      { Linkable.withColumns j batch with source } := by
  unfold Linkable.withColumns
  split
  · rfl
  · rfl

theorem source_withColumns (j : JoinDraft) (batch : List String) :
    (Linkable.withColumns j batch).source = j.source :=
  congrArg (·.source) (withColumns_withSource j batch j.source)

/-- Below an entity a link makes the join that it makes from that entity by name. -/
theorem renderUnder_linkWith (j : JoinDraft) (entity localAttribute remoteEntity remoteAttribute :
    String) (batch : List String) (calls : List JoinCall) :
    (Linkable.withColumns (applyEach calls (j.seed localAttribute remoteEntity remoteAttribute))
        batch).pending.renderUnder (some entity) =
      (j.namedLink entity localAttribute remoteEntity remoteAttribute batch
        calls).pending.renderUnder (some entity) := by
  have hnamed : applyEach calls (((JoinDraft.empty.withKind j.kind).fromEntity entity
      localAttribute).toEntity remoteEntity remoteAttribute) = _ :=
    applyEach_withSource calls (j.seed localAttribute remoteEntity remoteAttribute)
      (some (.fixed ⟨entity, localAttribute⟩))
  obtain ⟨hsource, -, -⟩ :=
    names_applyEach calls (j.seed localAttribute remoteEntity remoteAttribute)
  rw [JoinDraft.namedLink, hnamed]
  cases hlast : (calls.filterMap source?).getLast? with
  | some source =>
      -- The calls name a local end, and what it was before is forgotten.
      rw [hlast, Option.some_or] at hsource
      rw [Option.some_or, ← hsource]
  | none =>
      rw [hlast, Option.none_or] at hsource
      have hopen := JoinDraft.renderUnder_named ((source_withColumns _ batch).trans hsource) entity
      rw [Option.none_or, hopen, withColumns_withSource _ batch (some (.fixed _))]

/-- Two drafts that differ in one nested join are rendered alike if the join is, below the entity
that they add. -/
theorem renderUnder_exchange {q r : PendingJoin} (before after : List PendingJoin)
    (parent : Option String)
    (h : ∀ entity, j.remoteEntity? = some entity →
      q.renderUnder (some entity) = r.renderUnder (some entity)) :
    { j with joins := before ++ [q] ++ after }.pending.renderUnder parent =
      { j with joins := before ++ [r] ++ after }.pending.renderUnder parent := by
  refine PendingJoin.renderUnder_draft_congr fun target htarget => ?_
  have hentity : j.remoteEntity? = some target.entity := by
    rw [JoinDraft.remoteEntity?, htarget, Option.map_some]
  exact PendingJoin.renderAllUnder_exchange (h target.entity hentity)

theorem renderUnder_applyEach_exchange {q r : PendingJoin} (later : List JoinCall)
    (parent : Option String)
    (h : ∀ entity, (applyEach later (j.link q)).remoteEntity? = some entity →
      q.renderUnder (some entity) = r.renderUnder (some entity)) :
    (applyEach later (j.link q)).pending.renderUnder parent =
      (applyEach later (j.link r)).pending.renderUnder parent := by
  obtain ⟨more, hmore⟩ := applyEach_withJoins later j
  have hlink : ∀ p, applyEach later (j.link p) =
      { applyEach later j with joins := j.joins ++ [p] ++ more } := fun p => hmore _
  rw [hlink] at h
  rw [hlink, hlink]
  exact renderUnder_exchange j.joins more parent h

theorem renderUnder_applyAll_exchange {q r : PendingJoin} (later : List JoinCall)
    (parent : Option String)
    (h : ∀ changed entity, applyAll later (j.link q) = .ok changed →
      changed.remoteEntity? = some entity →
        q.renderUnder (some entity) = r.renderUnder (some entity)) :
    (applyAll later (j.link q) >>= fun changed => changed.pending.renderUnder parent) =
      (applyAll later (j.link r) >>= fun changed => changed.pending.renderUnder parent) := by
  obtain ⟨more, hmore⟩ := applyAll_withJoins later j
  have hlink : ∀ p, applyAll later (j.link p) =
      (applyAll later j).map fun changed =>
        { changed with joins := j.joins ++ [p] ++ more } := fun p => hmore _
  rw [hlink] at h
  rw [hlink, hlink]
  cases hlater : applyAll later j with
  | error e => rfl
  | ok changed =>
      rw [hlater] at h
      refine renderUnder_exchange j.joins more parent fun entity hentity => ?_
      exact h { changed with joins := j.joins ++ [q] ++ more } entity rfl hentity

/-! ## The kind -/

/-- The kind of a draft is seen in its join and not in those nested in it. -/
theorem renderUnder_withKind (j : JoinDraft) (kind : JoinKind) (parent : Option String) :
    (j.withKind kind).pending.renderUnder parent =
      (j.pending.renderUnder parent).map fun join => { join with kind } := by
  rw [JoinDraft.pending, JoinDraft.pending, PendingJoin.renderUnder, PendingJoin.renderUnder]
  change (j.toJoinHead.ends parent >>= _) = _
  cases j.toJoinHead.ends parent with
  | error e => rfl
  | ok ends =>
      change (PendingJoin.renderAllUnder (some ends.target.entity) j.joins >>= _) =
        Except.map _ (PendingJoin.renderAllUnder (some ends.target.entity) j.joins >>= _)
      cases PendingJoin.renderAllUnder (some ends.target.entity) j.joins <;> rfl

theorem target_of_renderUnder {parent : Option String} {join : Join}
    (h : j.pending.renderUnder parent = .ok join) :
    j.target = some ⟨join.remoteEntity, join.remoteAttribute⟩ := by
  obtain ⟨ends, hends, nested, -, rfl⟩ := PendingJoin.renderUnder_draft_eq_ok.1 h
  obtain ⟨source, localEntity, target, -, -, htarget, rfl⟩ := JoinHead.ends_eq_ok.1 hends
  exact htarget

theorem remoteEntity_eq_of_target {parent : Option String} {join join' : Join}
    (htarget : j.target = j'.target) (h : j.pending.renderUnder parent = .ok join)
    (h' : j'.pending.renderUnder parent = .ok join') : join.remoteEntity = join'.remoteEntity := by
  have hends : some (⟨join.remoteEntity, join.remoteAttribute⟩ : Endpoint) =
      some ⟨join'.remoteEntity, join'.remoteAttribute⟩ :=
    (target_of_renderUnder h).symm.trans (htarget.trans (target_of_renderUnder h'))
  exact congrArg Endpoint.entity (Option.some.inj hends)

theorem target_applyEach_withKind (j : JoinDraft) (kind : JoinKind) (later : List JoinCall) :
    (applyEach later j).target = (applyEach later (j.withKind kind)).target := by
  obtain ⟨-, htarget, -⟩ := names_applyEach later j
  obtain ⟨-, htarget', -⟩ := names_applyEach later (j.withKind kind)
  exact htarget.trans htarget'.symm

/-- The joins that are there before some calls come first in the join that is rendered, and of the
calls the entity that it adds is all that they show. -/
theorem exists_prefix_of_renderUnder {later : List JoinCall} {parent : Option String} {join : Join}
    (h : (applyEach later j).pending.renderUnder parent = .ok join) :
    ∃ before, PendingJoin.renderAllUnder (some join.remoteEntity) j.joins = .ok before ∧
      before <+: join.nested := by
  obtain ⟨more, hmore⟩ := applyEach_withJoins later j
  obtain ⟨ends, -, nested, hnested, rfl⟩ := PendingJoin.renderUnder_draft_eq_ok.1 h
  rw [congrArg JoinDraft.joins (hmore j.joins)] at hnested
  obtain ⟨before, hbefore, after, -, rfl⟩ := PendingJoin.renderAllUnder_append_eq_ok.1 hnested
  exact ⟨before, hbefore, List.prefix_append before after⟩

/-- A link that leaves its local entity open is rendered, or fails, as the link that names the
entity which the draft ends up with, whatever is called later.  Calls that set the ends and the
alias may come before or after the others; of each of them the last counts.  The kind that a draft
is given later is not that of the joins that are there already. -/
theorem renderUnder_linkWith_eq_namedLink (p : JoinDraft) :
    (∀ (entity localAttribute remoteEntity remoteAttribute : String) (batch : List String)
      (calls later : List JoinCall) (parent : Option String),
      ((∀ remote, (applyEach (.linkWith localAttribute remoteEntity remoteAttribute batch calls ::
            later) p).remoteEntity? = some remote → remote = entity) →
        (applyEach (.linkWith localAttribute remoteEntity remoteAttribute batch calls ::
            later) p).pending.renderUnder parent =
          (applyEach (.link (p.namedLink entity localAttribute remoteEntity remoteAttribute batch
            calls).pending :: later) p).pending.renderUnder parent) ∧
      ((∀ changed remote, applyAll (.linkWith localAttribute remoteEntity remoteAttribute batch
            calls :: later) p = .ok changed →
          changed.remoteEntity? = some remote → remote = entity) →
        (applyAll (.linkWith localAttribute remoteEntity remoteAttribute batch calls :: later) p
            >>= fun changed => changed.pending.renderUnder parent) =
          (applyAll (.link (p.namedLink entity localAttribute remoteEntity remoteAttribute batch
            calls).pending :: later) p >>= fun changed => changed.pending.renderUnder parent))) ∧
    (∀ calls calls' : List JoinCall,
      (calls.filterMap source?).getLast? = (calls'.filterMap source?).getLast? →
      (calls.filterMap target?).getLast? = (calls'.filterMap target?).getLast? →
      (calls.filterMap aliasName?).getLast? = (calls'.filterMap aliasName?).getLast? →
      (calls.filter fun call => !call.names) = (calls'.filter fun call => !call.names) →
        applyEach calls p = applyEach calls' p ∧ applyAll calls p = applyAll calls' p) ∧
    (∀ (kind : JoinKind) (parent : Option String),
      (p.withKind kind).pending.renderUnder parent =
        (p.pending.renderUnder parent).map fun join => { join with kind }) ∧
    ∀ (kind : JoinKind) (later : List JoinCall) (parent : Option String) (join join' : Join),
      (applyEach later p).pending.renderUnder parent = .ok join →
      (applyEach (.withKind kind :: later) p).pending.renderUnder parent = .ok join' →
        ∃ before, PendingJoin.renderAllUnder (some join.remoteEntity) p.joins = .ok before ∧
          before <+: join.nested ∧ before <+: join'.nested := by
  refine ⟨?_, fun calls calls' hsource htarget halias hothers =>
    apply_eq_of_names hsource htarget halias hothers p, renderUnder_withKind p, ?_⟩
  · intro entity localAttribute remoteEntity remoteAttribute batch calls later parent
    have hjoin := renderUnder_linkWith p entity localAttribute remoteEntity remoteAttribute batch
      calls
    constructor
    · intro hentity
      rw [applyEach, apply_linkWith] at hentity ⊢
      refine renderUnder_applyEach_exchange later parent fun remote hremote => ?_
      rw [hentity remote hremote]
      exact hjoin
    · intro hentity
      rw [applyAll, apply_linkWith] at hentity ⊢
      refine renderUnder_applyAll_exchange later parent fun changed remote hchanged hremote => ?_
      rw [hentity changed remote hchanged hremote]
      exact hjoin
  · intro kind later parent join join' h h'
    have hremote : join.remoteEntity = join'.remoteEntity :=
      remoteEntity_eq_of_target (target_applyEach_withKind p kind later) h h'
    obtain ⟨before, hbefore, hprefix⟩ := exists_prefix_of_renderUnder h
    have hafter : (applyEach later (p.withKind kind)).pending.renderUnder parent = .ok join' := h'
    obtain ⟨before', hbefore', hprefix'⟩ := exists_prefix_of_renderUnder hafter
    have hsame : before' = before := by
      rw [← hremote] at hbefore'
      exact Except.ok.inj (hbefore'.symm.trans hbefore)
    exact ⟨before, hbefore, hprefix, hsame ▸ hprefix'⟩

def openDraft : JoinDraft :=
  let j := (JoinDraft.empty.fromEntity "invoice" "customerid").withKind .leftOuter
  j.link (j.seed "countryid" "country" "countryid").pending

def ownerCalls : List JoinCall :=
  [.linkTo "teamid" "team" "teamid", .columns (.addStrict ["name", "name"]),
    .filter (.named .active)]

def customerCalls : List JoinCall :=
  [.toEntity "account" "accountid", .withAlias "customer", .toEntity "customer" "customerid"]

theorem renderUnder_linkWith_eq_namedLink_customerCalls : ∃ join join' before,
    (applyEach (.linkWith "ownerid" "user" "userid" ["name"] ownerCalls :: customerCalls)
      openDraft).pending.renderUnder none = .ok join ∧
    (applyEach (.link (openDraft.namedLink "customer" "ownerid" "user" "userid" ["name"]
      ownerCalls).pending :: customerCalls) openDraft).pending.renderUnder none = .ok join ∧
    (applyAll (.link (openDraft.namedLink "customer" "ownerid" "user" "userid" ["name"]
      ownerCalls).pending :: customerCalls) openDraft >>= fun changed =>
        changed.pending.renderUnder none) = .ok join ∧
    (applyEach (customerCalls ++ [.linkWith "ownerid" "user" "userid" ["name"] ownerCalls])
      openDraft).pending.renderUnder none = .ok join ∧
    (applyEach (.withKind .inner :: customerCalls) openDraft).pending.renderUnder none =
      .ok join' ∧
    before.map Join.kind = [.leftOuter] ∧ before <+: join'.nested := by
  obtain ⟨hlinks, hnames, -, hkinds⟩ := renderUnder_linkWith_eq_namedLink openDraft
  obtain ⟨heach, hall⟩ := hlinks "customer" "ownerid" "user" "userid" ["name"] ownerCalls
    customerCalls none
  obtain ⟨hmoved, -⟩ := hnames
    (.linkWith "ownerid" "user" "userid" ["name"] ownerCalls :: customerCalls)
    (customerCalls ++ [.linkWith "ownerid" "user" "userid" ["name"] ownerCalls]) rfl rfl rfl rfl
  have heach := heach fun remote h => (Option.some.inj h).symm
  have hall := hall fun changed remote hchanged h => by
    cases hchanged
    exact (Option.some.inj h).symm
  obtain ⟨before, hbefore, -, hprefix⟩ := hkinds .inner customerCalls none _ _ rfl rfl
  refine ⟨_, _, before, rfl, heach.symm, hall.symm, ?_, rfl, ?_, hprefix⟩
  · rw [← hmoved]
    rfl
  · cases hbefore
    rfl

end JoinCall

end EntityQuery
