import EntityQuery.Proofs.Draft.Batches

/-!
# Calculus of calls

What a call does to a draft, said once for all later proofs.  A link is the plain function of the
join that its callback leaves.  A successful call either changes what a draft holds beside its
joins, or appends one join; which of the two, and whether it fails, does not depend on the joins
that are there.  A property that no call breaks is kept by every list of calls.
-/

namespace EntityQuery

/-! ## Calls in a row -/

theorem keepOnError_map {ε α β : Type} (f : α → β) (a : α) (x : Except ε α) :
    keepOnError (f a) (x.map f) = f (keepOnError a x) := by
  cases x <;> rfl

theorem filterMap_cons_eq_append {α β : Type} (f : α → Option β) (a : α) (as : List α) :
    (a :: as).filterMap f = (f a).toList ++ as.filterMap f := by
  simp only [List.filterMap_eq_flatMap_toList, List.flatMap_cons]

theorem getLast?_toList {α : Type} (a : Option α) : a.toList.getLast? = a := by
  cases a <;> rfl

/-- What is read off some calls last is read off the later ones, or else off the first. -/
theorem getLast?_filterMap_cons {α β : Type} (f : α → Option β) (a : α) (as : List α) :
    ((a :: as).filterMap f).getLast? = (as.filterMap f).getLast?.or (f a) := by
  rw [filterMap_cons_eq_append, List.getLast?_append, getLast?_toList]

/-! ## Links -/

namespace Linkable

variable {α : Type} [Linkable α] {m : Type → Type} [Monad m] [LawfulMonad m] [MonadTrace m]

/-- A join with further columns; without names its columns stay as they are. -/
def withColumns (join : JoinDraft) (columns : List String) : JoinDraft :=
  if columns = [] then join else Projected.addColumns join columns

/-- Where nobody listens, a link is its callback followed by columns and the link itself. -/
theorem linkTraced_of_silent (silent : ∀ e, trace (m := m) e = pure ()) (draft : α)
    (localAttribute remoteEntity remoteAttribute : String) (columns : List String)
    (configure : JoinDraft → m JoinDraft) :
    linkTraced draft localAttribute remoteEntity remoteAttribute columns configure =
      (fun join => link draft (withColumns join columns).pending) <$>
        configure (seed draft localAttribute remoteEntity remoteAttribute) := by
  have hcolumns : ∀ join, withColumnsTraced (m := m) join columns =
      pure (withColumns join columns) := by
    intro join
    unfold withColumnsTraced withColumns
    split
    · rfl
    · simp [Projected.addColumnsTraced, ColumnSet.addTraced_of_silent silent, Projected.addColumns]
  simp [linkTraced, hcolumns]

theorem linkWith_eq (draft : α) (localAttribute remoteEntity remoteAttribute : String)
    (columns : List String) (configure : JoinDraft → JoinDraft) :
    linkWith draft localAttribute remoteEntity remoteAttribute columns configure =
      link draft (withColumns (configure (seed draft localAttribute remoteEntity remoteAttribute))
        columns).pending := by
  rw [linkWith, linkTraced_of_silent fun _ => rfl]
  rfl

theorem tryLinkWith_eq (draft : α) (localAttribute remoteEntity remoteAttribute : String)
    (columns : List String) (configure : JoinDraft → Except BuildError JoinDraft) :
    tryLinkWith draft localAttribute remoteEntity remoteAttribute columns configure =
      (configure (seed draft localAttribute remoteEntity remoteAttribute)).map fun join =>
        link draft (withColumns join columns).pending := by
  rw [tryLinkWith, linkTraced_of_silent fun _ => rfl]
  rfl

theorem linkTo_eq (draft : α) (localAttribute remoteEntity remoteAttribute : String) :
    linkTo draft localAttribute remoteEntity remoteAttribute =
      link draft (seed draft localAttribute remoteEntity remoteAttribute).pending := by
  rw [linkTo, linkWith_eq]
  rfl

theorem linkNew_eq (draft : α) (build : JoinDraft → Except BuildError JoinDraft) :
    linkNew draft build = (build .empty).map fun join => link draft join.pending := by
  unfold linkNew
  cases build .empty <;> rfl

end Linkable

/-! ## Filters and columns -/

theorem FilterCall.combinator_run (call : FilterCall) (f : FilterDraft) :
    (call.run f).1.combinator = f.combinator := by
  have hchecked : ∀ criterion, (f.pushChecked criterion).1.combinator = f.combinator := by
    intro criterion
    cases criterion <;> rfl
  cases call with
  | condition attr operator value => exact hchecked _
  | listCondition attr operator values => exact hchecked _
  | push criterion => rfl
  | named shortcut => rw [run_named, FilterDraft.push]
  | namedIf make value test =>
      rw [run_namedIf]
      split <;> rfl
  | group combinator calls =>
      rw [run, FilterDraft.addGroup]
      split <;> rfl
  | attempt call =>
      rw [run]
      exact combinator_run call f

namespace Filtered

variable {α : Type} [Filtered α] {change : FilterDraft → FilterDraft × Option BuildError}
  {f : FilterDraft}

theorem onFilter_of_none (draft : α) (h : change (filter draft) = (f, none)) :
    onFilter draft change = .ok (withFilter draft f) := by
  rw [onFilter, h]

theorem onFilter_of_some (draft : α) {e : BuildError} (h : change (filter draft) = (f, some e)) :
    onFilter draft change = .error e := by
  rw [onFilter, h]

theorem onFilter_eq (draft : α) (change : FilterDraft → FilterDraft × Option BuildError) :
    onFilter draft change = (onFilter (filter draft) change).map (withFilter draft) := by
  rcases hchange : change (filter draft) with ⟨f, _ | e⟩
  · rw [onFilter_of_none draft hchange, onFilter_of_none (filter draft) hchange]
    rfl
  · rw [onFilter_of_some draft hchange, onFilter_of_some (filter draft) hchange]
    rfl

end Filtered

theorem FilterCall.combinator_onFilter {call : FilterCall} {f f' : FilterDraft}
    (h : Filtered.onFilter f call.run = .ok f') : f'.combinator = f.combinator := by
  have hrun := call.combinator_run f
  rcases hcall : call.run f with ⟨changed, _ | e⟩
  · rw [Filtered.onFilter_of_none f hcall] at h
    rw [hcall] at hrun
    cases h
    exact hrun
  · rw [Filtered.onFilter_of_some f hcall] at h
    cases h

namespace Projected

variable {α : Type} [Projected α] {change : ColumnSet → ColumnSet × Option BuildError}
  {columns : ColumnSet}

theorem onColumns_of_none (draft : α) (h : change (Projected.columns draft) = (columns, none)) :
    onColumns draft change = .ok (withColumns draft columns) := by
  rw [onColumns, h]

theorem onColumns_of_some (draft : α) {e : BuildError}
    (h : change (Projected.columns draft) = (columns, some e)) :
    onColumns draft change = .error e := by
  rw [onColumns, h]

end Projected

theorem ColumnCall.apply_eq {α : Type} [Projected α] (call : ColumnCall) (draft : α) :
    call.apply draft =
      (call.apply (Projected.columns draft)).map (Projected.withColumns draft) := by
  rcases hrun : call.run (Projected.columns draft) with ⟨columns, _ | e⟩
  · rw [apply, apply, Projected.onColumns_of_none draft hrun,
      Projected.onColumns_of_none (Projected.columns draft) hrun]
    rfl
  · rw [apply, apply, Projected.onColumns_of_some draft hrun,
      Projected.onColumns_of_some (Projected.columns draft) hrun]
    rfl

namespace JoinCall

variable {call : JoinCall} {calls : List JoinCall} {j j' : JoinDraft}

/-! ## Induction -/

/-- The calls of a callback, or the call that is attempted. -/
def children : JoinCall → List JoinCall
  | linkNew calls => calls
  | linkWith _ _ _ _ calls => calls
  | tryLinkWith _ _ _ _ calls => calls
  | attempt call => [call]
  | _ => []

theorem sizeOf_lt_of_mem_children {child : JoinCall} (h : child ∈ call.children) :
    sizeOf child < sizeOf call := by
  cases call with
  | linkNew calls =>
      have hlt : sizeOf child < sizeOf calls := List.sizeOf_lt_of_mem h
      simp only [linkNew.sizeOf_spec]
      omega
  | linkWith _ _ _ _ calls =>
      have hlt : sizeOf child < sizeOf calls := List.sizeOf_lt_of_mem h
      simp only [linkWith.sizeOf_spec]
      omega
  | tryLinkWith _ _ _ _ calls =>
      have hlt : sizeOf child < sizeOf calls := List.sizeOf_lt_of_mem h
      simp only [tryLinkWith.sizeOf_spec]
      omega
  | attempt call => rw [List.mem_singleton.1 h]; simp
  | _ => exact absurd h List.not_mem_nil

/-- What follows for a call from its children holds of every call. -/
@[elab_as_elim]
theorem induction {P : JoinCall → Prop} (call : JoinCall)
    (step : ∀ call : JoinCall, (∀ child ∈ call.children, P child) → P call) : P call :=
  step call fun child _ => induction child step
termination_by call
decreasing_by exact sizeOf_lt_of_mem_children ‹_›

mutual

/-- A call and the calls in its callbacks, at any depth. -/
def listing : JoinCall → List JoinCall
  | linkNew calls => linkNew calls :: listingAll calls
  | linkWith localAttribute remoteEntity remoteAttribute batch calls =>
      linkWith localAttribute remoteEntity remoteAttribute batch calls :: listingAll calls
  | tryLinkWith localAttribute remoteEntity remoteAttribute batch calls =>
      tryLinkWith localAttribute remoteEntity remoteAttribute batch calls :: listingAll calls
  | attempt call => attempt call :: call.listing
  | call => [call]

def listingAll : List JoinCall → List JoinCall
  | [] => []
  | call :: calls => call.listing ++ listingAll calls

end

theorem mem_listingAll {inner : JoinCall} :
    inner ∈ listingAll calls ↔ ∃ call ∈ calls, inner ∈ call.listing := by
  induction calls with
  | nil => simp [listingAll]
  | cons call calls ih => simp [listingAll, ih]

theorem mem_listing {inner : JoinCall} :
    inner ∈ call.listing ↔ inner = call ∨ ∃ child ∈ call.children, inner ∈ child.listing := by
  cases call <;> simp [listing, children, mem_listingAll]

theorem mem_listing_self (call : JoinCall) : call ∈ call.listing := mem_listing.2 (.inl rfl)

theorem listing_subset_of_mem_children {child : JoinCall} (h : child ∈ call.children) :
    child.listing ⊆ call.listing :=
  fun _ hinner => mem_listing.2 (.inr ⟨child, h, hinner⟩)

/-! ## Equations -/

theorem apply_filter (filterCall : FilterCall) (j : JoinDraft) :
    (filter filterCall).apply j =
      (Filtered.onFilter j.filter filterCall.run).map fun filter => { j with filter } := by
  rw [apply, Filtered.onFilter_eq]
  rfl

theorem apply_columns (columnCall : ColumnCall) (j : JoinDraft) :
    (columns columnCall).apply j =
      (columnCall.apply j.columns).map fun columns => { j with columns } := by
  rw [apply, ColumnCall.apply_eq]
  rfl

theorem apply_linkNew (calls : List JoinCall) (j : JoinDraft) :
    (linkNew calls).apply j = (applyAll calls .empty).map fun join => j.link join.pending := by
  rw [apply, Linkable.linkNew_eq]
  rfl

theorem apply_linkTo (localAttribute remoteEntity remoteAttribute : String) (j : JoinDraft) :
    (linkTo localAttribute remoteEntity remoteAttribute).apply j =
      .ok (j.link (j.seed localAttribute remoteEntity remoteAttribute).pending) := by
  rw [apply, Linkable.linkTo_eq]
  rfl

theorem apply_linkWith (localAttribute remoteEntity remoteAttribute : String)
    (batch : List String) (calls : List JoinCall) (j : JoinDraft) :
    (linkWith localAttribute remoteEntity remoteAttribute batch calls).apply j =
      .ok (j.link (Linkable.withColumns (applyEach calls
        (j.seed localAttribute remoteEntity remoteAttribute)) batch).pending) := by
  rw [apply, Linkable.linkWith_eq]
  rfl

theorem apply_tryLinkWith (localAttribute remoteEntity remoteAttribute : String)
    (batch : List String) (calls : List JoinCall) (j : JoinDraft) :
    (tryLinkWith localAttribute remoteEntity remoteAttribute batch calls).apply j =
      (applyAll calls (j.seed localAttribute remoteEntity remoteAttribute)).map fun join =>
        j.link (Linkable.withColumns join batch).pending := by
  rw [apply, Linkable.tryLinkWith_eq]
  rfl

/-! ## What a call keeps -/

def setsSource : JoinCall → Bool
  | fromEntity _ _ => true
  | attempt call => call.setsSource
  | _ => false

def setsKind : JoinCall → Bool
  | withKind _ => true
  | attempt call => call.setsKind
  | _ => false

/-- What successful calls may do to a draft beside its joins, where the local end and the kind may
be set or not. -/
structure HeadStep (source kind : Bool) (head head' : JoinHead) : Prop where
  combinator : head'.filter.combinator = head.filter.combinator
  source : head'.source = head.source ∨
    source = true ∧ ∃ endpoint, head'.source = some (.fixed endpoint)
  target : head'.target = head.target ∨ ∃ endpoint, head'.target = some endpoint
  kind : head'.kind = head.kind ∨ kind = true

namespace HeadStep

variable {source source' kind kind' : Bool} {head head' head'' : JoinHead}

theorem refl (source kind : Bool) (head : JoinHead) : HeadStep source kind head head :=
  ⟨rfl, .inl rfl, .inl rfl, .inl rfl⟩

theorem trans (h : HeadStep source kind head head') (h' : HeadStep source kind head' head'') :
    HeadStep source kind head head'' := by
  refine ⟨h'.combinator.trans h.combinator, ?_, ?_, ?_⟩
  · rcases h'.source with hsource | hsource
    · rw [hsource]
      exact h.source
    · exact .inr hsource
  · rcases h'.target with htarget | htarget
    · rw [htarget]
      exact h.target
    · exact .inr htarget
  · rcases h'.kind with hkind | hkind
    · rw [hkind]
      exact h.kind
    · exact .inr hkind

theorem mono (h : HeadStep source kind head head') (hsource : source = true → source' = true)
    (hkind : kind = true → kind' = true) : HeadStep source' kind' head head' :=
  ⟨h.combinator, h.source.imp_right fun ⟨hset, hfixed⟩ => ⟨hsource hset, hfixed⟩, h.target,
    h.kind.imp_right hkind⟩

end HeadStep

/-- Links leave the head of the draft alone. -/
theorem headStep_link {p : JoinDraft → PendingJoin} {x : Except BuildError JoinDraft}
    (h : x.map (fun join => j.link (p join)) = .ok j') :
    HeadStep false false j.toJoinHead j'.toJoinHead := by
  obtain ⟨join, -, rfl⟩ := map_eq_ok.1 h
  exact .refl _ _ j.toJoinHead

theorem headStep_of_apply {call : JoinCall} {j j' : JoinDraft} (h : call.apply j = .ok j') :
    HeadStep call.setsSource call.setsKind j.toJoinHead j'.toJoinHead := by
  match call with
  | filter filterCall =>
      rw [apply_filter] at h
      obtain ⟨filter, hfilter, rfl⟩ := map_eq_ok.1 h
      exact ⟨FilterCall.combinator_onFilter hfilter, .inl rfl, .inl rfl, .inl rfl⟩
  | columns columnCall =>
      rw [apply_columns] at h
      obtain ⟨columns, -, rfl⟩ := map_eq_ok.1 h
      exact ⟨rfl, .inl rfl, .inl rfl, .inl rfl⟩
  | fromEntity entity attr => cases h; exact ⟨rfl, .inr ⟨rfl, _, rfl⟩, .inl rfl, .inl rfl⟩
  | toEntity entity attr => cases h; exact ⟨rfl, .inl rfl, .inr ⟨_, rfl⟩, .inl rfl⟩
  | withAlias aliasName => cases h; exact ⟨rfl, .inl rfl, .inl rfl, .inl rfl⟩
  | withKind kind => cases h; exact ⟨rfl, .inl rfl, .inl rfl, .inr rfl⟩
  | link join => cases h; exact .refl _ _ _
  | linkNew calls => exact headStep_link (apply_linkNew calls j ▸ h)
  | linkTo .. => rw [apply_linkTo] at h; cases h; exact .refl _ _ _
  | linkWith .. => rw [apply_linkWith] at h; cases h; exact .refl _ _ _
  | tryLinkWith .. => exact headStep_link (apply_tryLinkWith .. ▸ h)
  | attempt call =>
      rw [apply] at h
      cases hcall : call.apply j with
      | error e => rw [hcall] at h; cases h; exact .refl _ _ _
      | ok changed =>
          rw [hcall] at h
          cases h
          have hstep := headStep_of_apply hcall
          exact hstep

theorem headStep_withColumns (join : JoinDraft) (batch : List String) :
    HeadStep false false join.toJoinHead (Linkable.withColumns join batch).toJoinHead := by
  unfold Linkable.withColumns
  split
  · exact .refl _ _ _
  · exact ⟨rfl, .inl rfl, .inl rfl, .inl rfl⟩

/-! ## What a call appends -/

theorem joins_withColumns (join : JoinDraft) (batch : List String) :
    (Linkable.withColumns join batch).joins = join.joins := by
  unfold Linkable.withColumns
  split
  · rfl
  · rfl

/-- The joins that a call appends to a draft: one where it links a join, and none where it fails. -/
def added : JoinCall → JoinDraft → List PendingJoin
  | link join, _ => [join]
  | linkNew calls, _ => ((applyAll calls .empty).map JoinDraft.pending).toOption.toList
  | linkTo localAttribute remoteEntity remoteAttribute, j =>
      [(j.seed localAttribute remoteEntity remoteAttribute).pending]
  | linkWith localAttribute remoteEntity remoteAttribute batch calls, j =>
      [(Linkable.withColumns (applyEach calls
        (j.seed localAttribute remoteEntity remoteAttribute)) batch).pending]
  | tryLinkWith localAttribute remoteEntity remoteAttribute batch calls, j =>
      ((applyAll calls (j.seed localAttribute remoteEntity remoteAttribute)).map fun join =>
        (Linkable.withColumns join batch).pending).toOption.toList
  | attempt call, j => call.added j
  | _, _ => []

theorem added_of_apply_error {call : JoinCall} {j : JoinDraft} {e : BuildError}
    (h : call.apply j = .error e) : call.added j = [] := by
  match call with
  | filter _ | columns _ | fromEntity .. | toEntity .. | withAlias _ | withKind _ => rfl
  | link join => cases h
  | linkNew calls =>
      rw [apply_linkNew] at h
      cases hall : applyAll calls .empty <;> simp_all [added, Except.map, Except.toOption]
  | linkTo .. => rw [apply_linkTo] at h; cases h
  | linkWith .. => rw [apply_linkWith] at h; cases h
  | tryLinkWith localAttribute remoteEntity remoteAttribute batch calls =>
      rw [apply_tryLinkWith] at h
      cases hall : applyAll calls (j.seed localAttribute remoteEntity remoteAttribute) <;>
        simp_all [added, Except.map, Except.toOption]
  | attempt call => cases h

/-- The joins of a draft bear neither on whether a call succeeds nor on what it appends. -/
theorem apply_withJoins (call : JoinCall) (j : JoinDraft) (joins : List PendingJoin) :
    call.apply { j with joins } =
      (call.apply j).map fun changed => { changed with joins := joins ++ call.added j } := by
  match call with
  | filter filterCall =>
      rw [apply_filter, apply_filter]
      cases Filtered.onFilter j.filter filterCall.run <;> simp [Except.map, added]
  | columns columnCall =>
      rw [apply_columns, apply_columns]
      cases columnCall.apply j.columns <;> simp [Except.map, added]
  | fromEntity .. | toEntity .. | withAlias _ | withKind _ =>
      exact congrArg Except.ok (congrArg (JoinDraft.mk _) (List.append_nil _).symm)
  | link join => rfl
  | linkNew calls =>
      rw [apply_linkNew, apply_linkNew, added]
      cases applyAll calls .empty <;> rfl
  | linkTo .. => rw [apply_linkTo, apply_linkTo]; rfl
  | linkWith .. => rw [apply_linkWith, apply_linkWith]; rfl
  | tryLinkWith localAttribute remoteEntity remoteAttribute batch calls =>
      rw [apply_tryLinkWith, apply_tryLinkWith, added]
      change Except.map _ (applyAll calls (j.seed _ _ _)) = _
      cases applyAll calls (j.seed localAttribute remoteEntity remoteAttribute) <;> rfl
  | attempt call =>
      rw [apply, apply, apply_withJoins call j joins, added]
      cases hcall : call.apply j with
      | error e =>
          have hadded := added_of_apply_error hcall
          simp [Except.map, keepOnError, hadded]
      | ok changed => rfl

theorem joins_of_apply (h : call.apply j = .ok j') : j'.joins = j.joins ++ call.added j := by
  have hframe := apply_withJoins call j j.joins
  rw [h, Except.map] at hframe
  exact congrArg JoinDraft.joins (Except.ok.inj hframe)

/-! ## Lists of calls -/

theorem applyAll_cons (call : JoinCall) (calls : List JoinCall) (j : JoinDraft) :
    applyAll (call :: calls) j = (call.apply j >>= fun changed => applyAll calls changed) := by
  rw [applyAll]
  cases call.apply j <;> rfl

/-- What none of some calls breaks is kept until one of them fails. -/
theorem applyAll_preserves {P : JoinDraft → Prop} {calls : List JoinCall} {j j' : JoinDraft}
    (step : ∀ call ∈ calls, ∀ {j j'}, call.apply j = .ok j' → P j → P j')
    (h : applyAll calls j = .ok j') (hj : P j) : P j' := by
  induction calls generalizing j with
  | nil => cases h; exact hj
  | cons call calls ih =>
      obtain ⟨changed, hcall, h⟩ := bind_eq_ok.1 (applyAll_cons call calls j ▸ h)
      exact ih (fun c hc => step c (List.mem_cons_of_mem _ hc)) h
        (step call List.mem_cons_self hcall hj)

/-- What none of some calls breaks is kept when those that fail are skipped. -/
theorem applyEach_preserves {P : JoinDraft → Prop} {calls : List JoinCall} {j : JoinDraft}
    (step : ∀ call ∈ calls, ∀ {j j'}, call.apply j = .ok j' → P j → P j') (hj : P j) :
    P (applyEach calls j) := by
  induction calls generalizing j with
  | nil => exact hj
  | cons call calls ih =>
      rw [applyEach]
      refine ih (fun c hc => step c (List.mem_cons_of_mem _ hc)) ?_
      cases hcall : call.apply j with
      | error e => exact hj
      | ok changed => exact step call List.mem_cons_self hcall hj

/-- Of calls none of which fails, none is skipped. -/
theorem applyEach_of_applyAll (h : applyAll calls j = .ok j') : applyEach calls j = j' := by
  induction calls generalizing j with
  | nil => exact Except.ok.inj h
  | cons call calls ih =>
      obtain ⟨changed, hcall, h⟩ := bind_eq_ok.1 (applyAll_cons call calls j ▸ h)
      rw [applyEach, hcall]
      exact ih h

theorem keepOnError_withJoins (call : JoinCall) (j : JoinDraft) (joins : List PendingJoin) :
    keepOnError { j with joins } (call.apply { j with joins }) =
      { keepOnError j (call.apply j) with joins := joins ++ call.added j } := by
  have h := apply_withJoins (attempt call) j joins
  rw [apply, apply] at h
  exact Except.ok.inj h

theorem joins_keepOnError (call : JoinCall) (j : JoinDraft) :
    (keepOnError j (call.apply j)).joins = j.joins ++ call.added j :=
  congrArg JoinDraft.joins (keepOnError_withJoins call j j.joins)

/-- Calls append the same joins to whatever is there. -/
theorem applyEach_withJoins (calls : List JoinCall) (j : JoinDraft) : ∃ more, ∀ joins,
    applyEach calls { j with joins } = { applyEach calls j with joins := joins ++ more } := by
  induction calls generalizing j with
  | nil => exact ⟨[], fun joins => by rw [List.append_nil]; rfl⟩
  | cons call calls ih =>
      obtain ⟨more, hmore⟩ := ih (keepOnError j (call.apply j))
      refine ⟨call.added j ++ more, fun joins => ?_⟩
      rw [applyEach, applyEach, keepOnError_withJoins, hmore, List.append_assoc]

theorem applyAll_withJoins (calls : List JoinCall) (j : JoinDraft) : ∃ more, ∀ joins,
    applyAll calls { j with joins } =
      (applyAll calls j).map fun changed => { changed with joins := joins ++ more } := by
  induction calls generalizing j with
  | nil => exact ⟨[], fun joins => by rw [List.append_nil]; rfl⟩
  | cons call calls ih =>
      cases hcall : call.apply j with
      | error e =>
          refine ⟨[], fun joins => ?_⟩
          rw [applyAll_cons, applyAll_cons, apply_withJoins, hcall]
          rfl
      | ok changed =>
          obtain ⟨more, hmore⟩ := ih changed
          refine ⟨call.added j ++ more, fun joins => ?_⟩
          rw [applyAll_cons, applyAll_cons, apply_withJoins, hcall]
          change applyAll calls { changed with joins := joins ++ call.added j } = _
          rw [hmore, List.append_assoc]
          rfl

theorem headStep_keepOnError (call : JoinCall) (j : JoinDraft) :
    HeadStep call.setsSource call.setsKind j.toJoinHead
      (keepOnError j (call.apply j)).toJoinHead := by
  cases hcall : call.apply j with
  | error e => exact .refl _ _ _
  | ok changed => exact headStep_of_apply hcall

theorem headStep_applyEach (calls : List JoinCall) (j : JoinDraft) :
    HeadStep (calls.any setsSource) (calls.any setsKind) j.toJoinHead
      (applyEach calls j).toJoinHead := by
  refine applyEach_preserves (P := fun k => HeadStep (calls.any setsSource) (calls.any setsKind)
    j.toJoinHead k.toJoinHead) ?_ (.refl _ _ _)
  intro call hc k k' h hk
  exact hk.trans ((headStep_of_apply h).mono (fun hset => List.any_eq_true.2 ⟨call, hc, hset⟩)
    fun hset => List.any_eq_true.2 ⟨call, hc, hset⟩)

end JoinCall

namespace QueryCall

variable {call : QueryCall} {calls : List QueryCall} {q q' : QueryDraft}

theorem apply_filter (filterCall : FilterCall) (q : QueryDraft) :
    (filter filterCall).apply q =
      (Filtered.onFilter q.filter filterCall.run).map fun filter => { q with filter } := by
  rw [apply, Filtered.onFilter_eq]
  rfl

theorem apply_columns (columnCall : ColumnCall) (q : QueryDraft) :
    (columns columnCall).apply q =
      (columnCall.apply q.columns).map fun columns => { q with columns } := by
  rw [apply, ColumnCall.apply_eq]
  rfl

theorem apply_linkNew (calls : List JoinCall) (q : QueryDraft) :
    (linkNew calls).apply q =
      (JoinCall.applyAll calls .empty).map fun join => q.link join.pending := by
  rw [apply, Linkable.linkNew_eq]
  rfl

theorem apply_linkTo (localAttribute remoteEntity remoteAttribute : String) (q : QueryDraft) :
    (linkTo localAttribute remoteEntity remoteAttribute).apply q =
      .ok (q.link (q.seed localAttribute remoteEntity remoteAttribute).pending) := by
  rw [apply, Linkable.linkTo_eq]
  rfl

theorem apply_linkWith (localAttribute remoteEntity remoteAttribute : String)
    (batch : List String) (calls : List JoinCall) (q : QueryDraft) :
    (linkWith localAttribute remoteEntity remoteAttribute batch calls).apply q =
      .ok (q.link (Linkable.withColumns (JoinCall.applyEach calls
        (q.seed localAttribute remoteEntity remoteAttribute)) batch).pending) := by
  rw [apply, Linkable.linkWith_eq]
  rfl

theorem apply_tryLinkWith (localAttribute remoteEntity remoteAttribute : String)
    (batch : List String) (calls : List JoinCall) (q : QueryDraft) :
    (tryLinkWith localAttribute remoteEntity remoteAttribute batch calls).apply q =
      (JoinCall.applyAll calls (q.seed localAttribute remoteEntity remoteAttribute)).map
        fun join => q.link (Linkable.withColumns join batch).pending := by
  rw [apply, Linkable.tryLinkWith_eq]
  rfl

def added : QueryCall → QueryDraft → List PendingJoin
  | link join, _ => [join]
  | linkNew calls, _ => ((JoinCall.applyAll calls .empty).map JoinDraft.pending).toOption.toList
  | linkTo localAttribute remoteEntity remoteAttribute, q =>
      [(q.seed localAttribute remoteEntity remoteAttribute).pending]
  | linkWith localAttribute remoteEntity remoteAttribute batch calls, q =>
      [(Linkable.withColumns (JoinCall.applyEach calls
        (q.seed localAttribute remoteEntity remoteAttribute)) batch).pending]
  | tryLinkWith localAttribute remoteEntity remoteAttribute batch calls, q =>
      ((JoinCall.applyAll calls (q.seed localAttribute remoteEntity remoteAttribute)).map
        fun join => (Linkable.withColumns join batch).pending).toOption.toList
  | _, _ => []

def isLink : QueryCall → Bool
  | link _ | linkNew _ | linkTo _ _ _ | linkWith _ _ _ _ _ | tryLinkWith _ _ _ _ _ => true
  | _ => false

/-- A link appends one join and does nothing else, or fails. -/
theorem apply_of_isLink (h : call.isLink = true) (q : QueryDraft) :
    (∃ join, call.apply q = .ok (q.link join) ∧ call.added q = [join]) ∨
      ∃ e, call.apply q = .error e ∧ call.added q = [] := by
  match call with
  | filter _ | columns _ | forEntity _ | withConsistency _ | orderBy _ | page _ => cases h
  | link join => exact .inl ⟨join, rfl, rfl⟩
  | linkNew calls =>
      rw [apply_linkNew, added]
      cases JoinCall.applyAll calls .empty with
      | error e => exact .inr ⟨e, rfl, rfl⟩
      | ok join => exact .inl ⟨join.pending, rfl, rfl⟩
  | linkTo localAttribute remoteEntity remoteAttribute =>
      exact .inl ⟨_, apply_linkTo localAttribute remoteEntity remoteAttribute q, rfl⟩
  | linkWith localAttribute remoteEntity remoteAttribute batch calls =>
      exact .inl ⟨_, apply_linkWith localAttribute remoteEntity remoteAttribute batch calls q, rfl⟩
  | tryLinkWith localAttribute remoteEntity remoteAttribute batch calls =>
      rw [apply_tryLinkWith, added]
      cases JoinCall.applyAll calls (q.seed localAttribute remoteEntity remoteAttribute) with
      | error e => exact .inr ⟨e, rfl, rfl⟩
      | ok join => exact .inl ⟨(Linkable.withColumns join batch).pending, rfl, rfl⟩

theorem added_of_not_isLink (h : call.isLink = false) (q : QueryDraft) : call.added q = [] := by
  match call with
  | filter _ | columns _ | forEntity _ | withConsistency _ | orderBy _ | page _ => rfl
  | link _ | linkNew _ | linkTo .. | linkWith .. | tryLinkWith .. => cases h

theorem keepOnError_of_isLink (h : call.isLink = true) (q : QueryDraft) :
    keepOnError q (call.apply q) = { q with joins := q.joins ++ call.added q } := by
  rcases apply_of_isLink h q with ⟨join, happly, hadded⟩ | ⟨e, happly, hadded⟩
  · rw [happly, hadded]
    rfl
  · rw [happly, hadded, List.append_nil]
    rfl

/-- The joins of a query bear neither on whether a call succeeds nor on what it appends. -/
theorem apply_withJoins (call : QueryCall) (q : QueryDraft) (joins : List PendingJoin) :
    call.apply { q with joins } =
      (call.apply q).map fun changed => { changed with joins := joins ++ call.added q } := by
  match call with
  | filter filterCall =>
      rw [apply_filter, apply_filter]
      cases Filtered.onFilter q.filter filterCall.run <;> simp [Except.map, added]
  | columns columnCall =>
      rw [apply_columns, apply_columns]
      cases columnCall.apply q.columns <;> simp [Except.map, added]
  | forEntity _ | withConsistency _ | orderBy _ | page _ =>
      simp [apply, added, Except.map, QueryDraft.forEntity, QueryDraft.withConsistency,
        QueryDraft.orderBy, QueryDraft.page]
  | link join => rfl
  | linkNew calls =>
      rw [apply_linkNew, apply_linkNew, added]
      cases JoinCall.applyAll calls .empty <;> rfl
  | linkTo .. => rw [apply_linkTo, apply_linkTo]; rfl
  | linkWith .. => rw [apply_linkWith, apply_linkWith]; rfl
  | tryLinkWith localAttribute remoteEntity remoteAttribute batch calls =>
      rw [apply_tryLinkWith, apply_tryLinkWith, added]
      change Except.map _ (JoinCall.applyAll calls (q.seed _ _ _)) = _
      cases JoinCall.applyAll calls (q.seed localAttribute remoteEntity remoteAttribute) <;> rfl

theorem joins_of_apply (h : call.apply q = .ok q') : q'.joins = q.joins ++ call.added q := by
  have hframe := apply_withJoins call q q.joins
  rw [h, Except.map] at hframe
  exact congrArg QueryDraft.joins (Except.ok.inj hframe)

theorem added_of_apply_error {e : BuildError} (h : call.apply q = .error e) :
    call.added q = [] := by
  cases hlink : call.isLink with
  | false => exact added_of_not_isLink hlink q
  | true =>
      rcases apply_of_isLink hlink q with ⟨join, happly, -⟩ | ⟨_, -, hadded⟩
      · rw [h] at happly
        cases happly
      · exact hadded

theorem joins_keepOnError (call : QueryCall) (q : QueryDraft) :
    (keepOnError q (call.apply q)).joins = q.joins ++ call.added q := by
  cases hcall : call.apply q with
  | error e =>
      rw [added_of_apply_error hcall, List.append_nil]
      rfl
  | ok changed => exact joins_of_apply hcall

/-- Which kind of join a query prefers is settled when it is created. -/
theorem joinKind_keepOnError (call : QueryCall) (q : QueryDraft) :
    (keepOnError q (call.apply q)).joinKind = q.joinKind := by
  match call with
  | filter filterCall =>
      rw [apply_filter]
      cases Filtered.onFilter q.filter filterCall.run <;> rfl
  | columns columnCall =>
      rw [apply_columns]
      cases columnCall.apply q.columns <;> rfl
  | forEntity _ | withConsistency _ | orderBy _ | page _ => rfl
  | link _ | linkNew _ | linkTo .. | linkWith .. | tryLinkWith .. => rw [keepOnError_of_isLink rfl]

theorem applyEach_cons (call : QueryCall) (calls : List QueryCall) (q : QueryDraft) :
    applyEach (call :: calls) q = applyEach calls (keepOnError q (call.apply q)) := rfl

theorem applyEach_preserves {P : QueryDraft → Prop}
    (step : ∀ call ∈ calls, ∀ {q q'}, call.apply q = .ok q' → P q → P q') (hq : P q) :
    P (applyEach calls q) := by
  induction calls generalizing q with
  | nil => exact hq
  | cons call calls ih =>
      rw [applyEach_cons]
      refine ih (fun c hc => step c (List.mem_cons_of_mem _ hc)) ?_
      cases hcall : call.apply q with
      | error e => exact hq
      | ok changed => exact step call List.mem_cons_self hcall hq

end QueryCall

end EntityQuery
