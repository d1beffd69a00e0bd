import EntityQuery.Proofs.Call.Simulation
import EntityQuery.Proofs.Draft.Equality

/-!
# Calls on equal drafts

A call that is made on two equal drafts, with equal values and equal joins, fails on both with one
error or leaves equal drafts.  Equality is a relation that links keep, so for links this is the
calculus of calls on related drafts; what is left are filters, whose calls read values in tests
alone, and the parts of a draft that have no values.
-/

namespace EntityQuery

/-! ## Equality as a simulation -/

namespace JoinDraft

/-- Equality of drafts is kept by links, seeds and columns. -/
theorem equal_simulation : LinkSimulation Equal Equal where
  empty := BEq.rfl
  seed h _ _ _ := by
    obtain ⟨filter, joins, rfl, -, -⟩ := equal_iff.1 h
    exact BEq.rfl
  link h hp := by
    obtain ⟨filter, joins, rfl, hfilter, hjoins⟩ := equal_iff.1 h
    exact equal_iff.2 ⟨filter, _, rfl, hfilter, List.rel_append hjoins (.cons hp .nil)⟩
  withColumns h batch := by
    obtain ⟨filter, joins, rfl, hfilter, hjoins⟩ := equal_iff.1 h
    unfold Linkable.withColumns
    split
    · exact h
    · exact equal_iff.2 ⟨filter, joins, rfl, hfilter, hjoins⟩
  pending h := equal_pending_iff.2 h

end JoinDraft

namespace QueryDraft

theorem equal_simulation : QuerySimulation Equal Equal Equal where
  toLinkSimulation := JoinDraft.equal_simulation
  seedOfQuery h _ _ _ := by
    obtain ⟨filter, joins, rfl, -, -⟩ := equal_iff.1 h
    exact BEq.rfl
  linkToQuery h hp := by
    obtain ⟨filter, joins, rfl, hfilter, hjoins⟩ := equal_iff.1 h
    exact equal_iff.2 ⟨filter, _, rfl, hfilter, List.rel_append hjoins (.cons hp .nil)⟩

end QueryDraft

/-! ## Calls on filters -/

namespace Criterion

variable {attr : String} {operator : Operator}

theorem agree_single {value value' : Option Value} (h : Option.Rel Equal value value') :
    Agree Equal (single attr operator value) (single attr operator value') := by
  have hvalues : List.Forall₂ Equal value.toList value'.toList := by
    cases h with
    | none => exact .nil
    | some h => exact .cons h .nil
  -- Tests and errors see how many values there are, and nothing else of them.
  have hlength := hvalues.length_eq
  unfold single
  dsimp only
  by_cases haccepted : operator.arity.accepts value.toList.length = true
  · rw [dif_pos haccepted, dif_pos (hlength ▸ haccepted)]
    split
    · rw [hlength]
      exact .error _
    · exact .ok (Condition.equal_iff.2 ⟨rfl, rfl, hvalues⟩)
  · rw [dif_neg haccepted, dif_neg (hlength ▸ haccepted), hlength]
    exact .error _

theorem agree_list {values values' : List Value} (h : List.Forall₂ Equal values values') :
    Agree Equal (list attr operator values) (list attr operator values') := by
  unfold list
  rw [h.length_eq]
  split
  · exact .ok (Condition.equal_iff.2 ⟨rfl, rfl, h⟩)
  · exact .error _

end Criterion

namespace Shortcut

/-- One named condition on one attribute, with equal values. -/
inductive Same : Shortcut → Shortcut → Prop
  | equals (attr : String) {value value' : Value} (h : Equal value value') :
      Same (.equals attr value) (.equals attr value')
  | notEquals (attr : String) {value value' : Value} (h : Equal value value') :
      Same (.notEquals attr value) (.notEquals attr value')
  | greaterThan (attr : String) {value value' : Value} (h : Equal value value') :
      Same (.greaterThan attr value) (.greaterThan attr value')
  | greaterEqual (attr : String) {value value' : Value} (h : Equal value value') :
      Same (.greaterEqual attr value) (.greaterEqual attr value')
  | lessThan (attr : String) {value value' : Value} (h : Equal value value') :
      Same (.lessThan attr value) (.lessThan attr value')
  | lessEqual (attr : String) {value value' : Value} (h : Equal value value') :
      Same (.lessEqual attr value) (.lessEqual attr value')
  | isIn (attr : String) {values values' : List Value} (h : List.Forall₂ Equal values values') :
      Same (.isIn attr values) (.isIn attr values')
  | notIn (attr : String) {values values' : List Value} (h : List.Forall₂ Equal values values') :
      Same (.notIn attr values) (.notIn attr values')
  /-- The others have no value, or a text or a code, which are equal only to themselves. -/
  | refl (shortcut : Shortcut) : Same shortcut shortcut

/-- A named condition reads its values no further than to pass them on. -/
theorem Same.equal_criterion {s t : Shortcut} (h : s.Same t) : Equal s.criterion t.criterion := by
  cases h with
  | equals attr h | notEquals attr h | greaterThan attr h | greaterEqual attr h | lessThan attr h
  | lessEqual attr h => exact Condition.equal_iff.2 ⟨rfl, rfl, .cons h .nil⟩
  | isIn attr h | notIn attr h => exact Condition.equal_iff.2 ⟨rfl, rfl, h⟩
  | refl => exact BEq.rfl

end Shortcut

namespace FilterCall

/-- One call with equal values, conditions and tests that answer alike. -/
inductive Same : FilterCall → FilterCall → Prop
  | condition (attr : String) (operator : Operator) {value value' : Option Value}
      (h : Option.Rel Equal value value') :
      Same (.condition attr operator value) (.condition attr operator value')
  | listCondition (attr : String) (operator : Operator) {values values' : List Value}
      (h : List.Forall₂ Equal values values') :
      Same (.listCondition attr operator values) (.listCondition attr operator values')
  | push {c d : Criterion} (h : Equal c d) : Same (.push c) (.push d)
  | named {s t : Shortcut} (h : s.Same t) : Same (.named s) (.named t)
  | namedIf {make make' : Value → Shortcut} {value value' : Value} {test test' : Value → Bool}
      (h : (make value).Same (make' value'))
      (htest : test value = test' value') :
      Same (.namedIf make value test) (.namedIf make' value' test')
  | group (combinator : Combinator) {calls calls' : List FilterCall}
      (h : List.Forall₂ Same calls calls') :
      Same (.group combinator calls) (.group combinator calls')
  | attempt {call call' : FilterCall} (h : Same call call') : Same (.attempt call) (.attempt call')

mutual

theorem Same.refl (call : FilterCall) : Same call call := by
  cases call with
  | condition attr operator value =>
      refine .condition attr operator ?_
      cases value with
      | none => exact .none
      | some value => exact .some value.equal_refl
  | listCondition attr operator values =>
      exact .listCondition attr operator (List.forall₂_same.2 fun value _ => value.equal_refl)
  | push criterion => exact .push BEq.rfl
  | named shortcut => exact .named (.refl shortcut)
  | namedIf make value test => exact .namedIf (.refl _) rfl
  | group combinator calls => exact .group combinator (same_all_refl calls)
  | attempt call => exact .attempt (.refl call)

theorem same_all_refl (calls : List FilterCall) : List.Forall₂ Same calls calls := by
  cases calls with
  | nil => exact .nil
  | cons call calls => exact .cons (.refl call) (same_all_refl calls)

end

/-- Two runs that leave equal drafts and fail alike, or not at all. -/
def SameRun (r r' : FilterDraft × Option BuildError) : Prop := Equal r.1 r'.1 ∧ r.2 = r'.2

variable {f g : FilterDraft}

theorem sameRun_pushChecked {c d : Except BuildError Criterion} (hf : Equal f g)
    (h : Agree Equal c d) : SameRun (f.pushChecked c) (g.pushChecked d) := by
  cases h with
  | ok h => exact ⟨FilterDraft.equal_push hf h, rfl⟩
  | error e => exact ⟨hf, rfl⟩

theorem sameRun_addGroup {combinator : Combinator}
    {configure configure' : FilterDraft → FilterDraft × Option BuildError} (hf : Equal f g)
    (h : SameRun (configure (.empty combinator)) (configure' (.empty combinator))) :
    SameRun (f.addGroup combinator configure) (g.addGroup combinator configure') := by
  unfold FilterDraft.addGroup
  generalize configure (.empty combinator) = r, configure' (.empty combinator) = r' at h
  obtain ⟨group, error⟩ := r
  obtain ⟨group', error'⟩ := r'
  obtain ⟨hgroup, rfl⟩ : Equal group group' ∧ error = error' := h
  cases error with
  | none =>
      obtain ⟨hcombinator, hcriteria, hgroups⟩ := FilterDraft.equal_iff.1 hf
      exact ⟨FilterDraft.equal_iff.2
        ⟨hcombinator, hcriteria, List.rel_append hgroups (.cons hgroup .nil)⟩, rfl⟩
  | some e => exact ⟨hf, rfl⟩

mutual

/-- Equal drafts are equal after one call, which fails on both or on none. -/
theorem sameRun_run {call call' : FilterCall} {f g : FilterDraft} (h : Same call call')
    (hf : Equal f g) : SameRun (call.run f) (call'.run g) := by
  cases h with
  | condition attr operator h => exact sameRun_pushChecked hf (Criterion.agree_single h)
  | listCondition attr operator h => exact sameRun_pushChecked hf (Criterion.agree_list h)
  | push h => exact ⟨FilterDraft.equal_push hf h, rfl⟩
  | named h =>
      rw [run_named, run_named]
      exact ⟨FilterDraft.equal_push hf h.equal_criterion, rfl⟩
  | namedIf h htest =>
      rw [run_namedIf, run_namedIf, htest]
      refine ⟨?_, rfl⟩
      dsimp only
      split
      · exact FilterDraft.equal_push hf h.equal_criterion
      · exact hf
  | group combinator h =>
      have hempty : Equal (FilterDraft.empty combinator) (.empty combinator) :=
        FilterDraft.equal_iff.2 ⟨rfl, .nil, .nil⟩
      rw [run, run]
      exact sameRun_addGroup hf (sameRun_runAll h hempty)
  | attempt h =>
      rw [run, run]
      exact ⟨(sameRun_run h hf).1, rfl⟩

theorem sameRun_runAll {calls calls' : List FilterCall} {f g : FilterDraft}
    (h : List.Forall₂ Same calls calls') (hf : Equal f g) :
    SameRun (runAll calls f) (runAll calls' g) := by
  cases h with
  | nil => exact ⟨hf, rfl⟩
  | @cons call call' calls calls' hcall hcalls =>
      have hrun := sameRun_run hcall hf
      rw [runAll, runAll]
      generalize call.run f = r, call'.run g = r' at hrun
      obtain ⟨changed, error⟩ := r
      obtain ⟨changed', error'⟩ := r'
      obtain ⟨hchanged, rfl⟩ : Equal changed changed' ∧ error = error' := hrun
      cases error with
      | none => exact sameRun_runAll hcalls hchanged
      | some e => exact ⟨hchanged, rfl⟩

end

theorem agree_onFilter {call call' : FilterCall} (h : Same call call') (hf : Equal f g) :
    Agree Equal (Filtered.onFilter f call.run) (Filtered.onFilter g call'.run) := by
  have hrun := sameRun_run h hf
  rcases hcall : call.run f with ⟨changed, error⟩
  rcases hcall' : call'.run g with ⟨changed', error'⟩
  rw [hcall, hcall'] at hrun
  obtain ⟨hchanged, rfl⟩ : Equal changed changed' ∧ error = error' := hrun
  cases error with
  | none =>
      rw [Filtered.onFilter_of_none f hcall, Filtered.onFilter_of_none g hcall']
      exact .ok hchanged
  | some e =>
      rw [Filtered.onFilter_of_some f hcall, Filtered.onFilter_of_some g hcall']
      exact .error e

end FilterCall

/-! ## Calls on joins -/

namespace JoinCall

variable {call call' : JoinCall} {calls calls' : List JoinCall}

/-- One call with equal values and joins, and callbacks that make the same calls. -/
inductive Same : JoinCall → JoinCall → Prop
  | filter {call call' : FilterCall} (h : call.Same call') : Same (.filter call) (.filter call')
  | columns (call : ColumnCall) : Same (.columns call) (.columns call)
  | fromEntity (entity attr : String) : Same (.fromEntity entity attr) (.fromEntity entity attr)
  | toEntity (entity attr : String) : Same (.toEntity entity attr) (.toEntity entity attr)
  | withAlias (aliasName : String) : Same (.withAlias aliasName) (.withAlias aliasName)
  | withKind (kind : JoinKind) : Same (.withKind kind) (.withKind kind)
  | link {p q : PendingJoin} (h : Equal p q) : Same (.link p) (.link q)
  | linkNew {calls calls' : List JoinCall} (h : List.Forall₂ Same calls calls') :
      Same (.linkNew calls) (.linkNew calls')
  | linkTo (localAttribute remoteEntity remoteAttribute : String) :
      Same (.linkTo localAttribute remoteEntity remoteAttribute)
        (.linkTo localAttribute remoteEntity remoteAttribute)
  | linkWith (localAttribute remoteEntity remoteAttribute : String) (batch : List String)
      {calls calls' : List JoinCall} (h : List.Forall₂ Same calls calls') :
      Same (.linkWith localAttribute remoteEntity remoteAttribute batch calls)
        (.linkWith localAttribute remoteEntity remoteAttribute batch calls')
  | tryLinkWith (localAttribute remoteEntity remoteAttribute : String) (batch : List String)
      {calls calls' : List JoinCall} (h : List.Forall₂ Same calls calls') :
      Same (.tryLinkWith localAttribute remoteEntity remoteAttribute batch calls)
        (.tryLinkWith localAttribute remoteEntity remoteAttribute batch calls')
  | attempt {call call' : JoinCall} (h : Same call call') : Same (.attempt call) (.attempt call')

theorem Same.refl (call : JoinCall) : Same call call := by
  induction call using JoinCall.induction with
  | step call ih =>
      cases call with
      | filter call => exact .filter (.refl call)
      | columns call => exact .columns call
      | fromEntity entity attr => exact .fromEntity entity attr
      | toEntity entity attr => exact .toEntity entity attr
      | withAlias aliasName => exact .withAlias aliasName
      | withKind kind => exact .withKind kind
      | link join => exact .link BEq.rfl
      | linkNew calls => exact .linkNew (List.forall₂_same.2 ih)
      | linkTo _ _ _ => exact .linkTo _ _ _
      | linkWith _ _ _ _ calls => exact .linkWith _ _ _ _ (List.forall₂_same.2 ih)
      | tryLinkWith _ _ _ _ calls => exact .tryLinkWith _ _ _ _ (List.forall₂_same.2 ih)
      | attempt call => exact .attempt (ih call (List.mem_singleton.2 rfl))

/-- A call that neither reads nor changes what has values keeps equality. -/
theorem respects_equal_of_frame {change : JoinDraft → JoinDraft}
    (hcall : ∀ j, call.apply j = .ok (change j))
    (hframe : ∀ j filter joins, change { j with filter, joins } =
      { change j with filter := filter, joins := joins }) :
    Respects Equal call call := by
  intro j k hj
  obtain ⟨filter, joins, rfl, hfilter, hjoins⟩ := JoinDraft.equal_iff.1 hj
  have hkept := hframe j j.filter j.joins
  have hfilterKept : (change j).filter = j.filter := congrArg (·.filter) hkept
  have hjoinsKept : (change j).joins = j.joins := congrArg (·.joins) hkept
  rw [hcall, hcall]
  refine .ok (JoinDraft.equal_iff.2 ⟨filter, joins, hframe j filter joins, ?_, ?_⟩)
  · rwa [hfilterKept]
  · rwa [hjoinsKept]

theorem respects_of_same (h : call.Same call') : Respects Equal call call' := by
  induction call using JoinCall.induction generalizing call' with
  | step call ih =>
      cases h with
      | filter h =>
          intro j k hj
          obtain ⟨filter, joins, rfl, hfilter, hjoins⟩ := JoinDraft.equal_iff.1 hj
          rw [apply_filter, apply_filter]
          exact (FilterCall.agree_onFilter h hfilter).map fun changed changed' hchanged =>
            JoinDraft.equal_iff.2 ⟨changed', joins, rfl, hchanged, hjoins⟩
      | columns columnCall =>
          intro j k hj
          obtain ⟨filter, joins, rfl, hfilter, hjoins⟩ := JoinDraft.equal_iff.1 hj
          rw [apply_columns, apply_columns]
          cases columnCall.apply j.columns with
          | error e => exact .error e
          | ok columns => exact .ok (JoinDraft.equal_iff.2 ⟨filter, joins, rfl, hfilter, hjoins⟩)
      | fromEntity entity attr =>
          exact respects_equal_of_frame (fun _ => rfl) fun _ _ _ => rfl
      | toEntity entity attr =>
          exact respects_equal_of_frame (fun _ => rfl) fun _ _ _ => rfl
      | withAlias aliasName =>
          exact respects_equal_of_frame (fun _ => rfl) fun _ _ _ => rfl
      | withKind kind =>
          exact respects_equal_of_frame (fun _ => rfl) fun _ _ _ => rfl
      | link h => exact Respects.link JoinDraft.equal_simulation h
      | linkTo _ _ _ => exact Respects.linkTo JoinDraft.equal_simulation _ _ _
      | linkNew h =>
          exact Respects.linkNew JoinDraft.equal_simulation
            (forall₂_imp_of_mem h fun c hc c' => ih c hc)
      | linkWith _ _ _ _ h =>
          exact Respects.linkWith JoinDraft.equal_simulation _ _ _ _
            (forall₂_imp_of_mem h fun c hc c' => ih c hc)
      | tryLinkWith _ _ _ _ h =>
          exact Respects.tryLinkWith JoinDraft.equal_simulation _ _ _ _
            (forall₂_imp_of_mem h fun c hc c' => ih c hc)
      | attempt h => exact Respects.attempt (ih _ (List.mem_singleton.2 rfl) h)

end JoinCall

/-! ## Calls on queries -/

namespace QueryCall

variable {call call' : QueryCall} {calls calls' : List QueryCall}

inductive Same : QueryCall → QueryCall → Prop
  | filter {call call' : FilterCall} (h : call.Same call') : Same (.filter call) (.filter call')
  | columns (call : ColumnCall) : Same (.columns call) (.columns call)
  | forEntity (entity : String) : Same (.forEntity entity) (.forEntity entity)
  | withConsistency (consistency : Consistency) :
      Same (.withConsistency consistency) (.withConsistency consistency)
  | orderBy (key : SortKey) : Same (.orderBy key) (.orderBy key)
  | page (paging : Paging) : Same (.page paging) (.page paging)
  | link {p q : PendingJoin} (h : Equal p q) : Same (.link p) (.link q)
  | linkNew {calls calls' : List JoinCall} (h : List.Forall₂ JoinCall.Same calls calls') :
      Same (.linkNew calls) (.linkNew calls')
  | linkTo (localAttribute remoteEntity remoteAttribute : String) :
      Same (.linkTo localAttribute remoteEntity remoteAttribute)
        (.linkTo localAttribute remoteEntity remoteAttribute)
  | linkWith (localAttribute remoteEntity remoteAttribute : String) (batch : List String)
      {calls calls' : List JoinCall} (h : List.Forall₂ JoinCall.Same calls calls') :
      Same (.linkWith localAttribute remoteEntity remoteAttribute batch calls)
        (.linkWith localAttribute remoteEntity remoteAttribute batch calls')
  | tryLinkWith (localAttribute remoteEntity remoteAttribute : String) (batch : List String)
      {calls calls' : List JoinCall} (h : List.Forall₂ JoinCall.Same calls calls') :
      Same (.tryLinkWith localAttribute remoteEntity remoteAttribute batch calls)
        (.tryLinkWith localAttribute remoteEntity remoteAttribute batch calls')

theorem Same.refl (call : QueryCall) : Same call call := by
  have hcallbacks : ∀ calls : List JoinCall, List.Forall₂ JoinCall.Same calls calls :=
    fun calls => List.forall₂_same.2 fun call _ => .refl call
  cases call with
  | filter call => exact .filter (.refl call)
  | columns call => exact .columns call
  | forEntity entity => exact .forEntity entity
  | withConsistency consistency => exact .withConsistency consistency
  | orderBy key => exact .orderBy key
  | page paging => exact .page paging
  | link join => exact .link BEq.rfl
  | linkNew calls => exact .linkNew (hcallbacks calls)
  | linkTo _ _ _ => exact .linkTo _ _ _
  | linkWith _ _ _ _ calls => exact .linkWith _ _ _ _ (hcallbacks calls)
  | tryLinkWith _ _ _ _ calls => exact .tryLinkWith _ _ _ _ (hcallbacks calls)

theorem respects_equal_of_frame {change : QueryDraft → QueryDraft}
    (hcall : ∀ q, call.apply q = .ok (change q))
    (hframe : ∀ q filter joins, change { q with filter, joins } =
      { change q with filter := filter, joins := joins }) :
    Respects Equal call call := by
  intro q r hq
  obtain ⟨filter, joins, rfl, hfilter, hjoins⟩ := QueryDraft.equal_iff.1 hq
  have hkept := hframe q q.filter q.joins
  have hfilterKept : (change q).filter = q.filter := congrArg (·.filter) hkept
  have hjoinsKept : (change q).joins = q.joins := congrArg (·.joins) hkept
  rw [hcall, hcall]
  refine .ok (QueryDraft.equal_iff.2 ⟨filter, joins, hframe q filter joins, ?_, ?_⟩)
  · rwa [hfilterKept]
  · rwa [hjoinsKept]

theorem respects_of_same (h : call.Same call') : Respects Equal call call' := by
  have hcallbacks : ∀ {calls calls' : List JoinCall}, List.Forall₂ JoinCall.Same calls calls' →
      List.Forall₂ (JoinCall.Respects Equal) calls calls' :=
    fun h => h.imp fun _ _ => JoinCall.respects_of_same
  cases h with
  | filter h =>
      intro q r hq
      obtain ⟨filter, joins, rfl, hfilter, hjoins⟩ := QueryDraft.equal_iff.1 hq
      rw [apply_filter, apply_filter]
      exact (FilterCall.agree_onFilter h hfilter).map fun changed changed' hchanged =>
        QueryDraft.equal_iff.2 ⟨changed', joins, rfl, hchanged, hjoins⟩
  | columns columnCall =>
      intro q r hq
      obtain ⟨filter, joins, rfl, hfilter, hjoins⟩ := QueryDraft.equal_iff.1 hq
      rw [apply_columns, apply_columns]
      cases columnCall.apply q.columns with
      | error e => exact .error e
      | ok columns => exact .ok (QueryDraft.equal_iff.2 ⟨filter, joins, rfl, hfilter, hjoins⟩)
  | forEntity entity => exact respects_equal_of_frame (fun _ => rfl) fun _ _ _ => rfl
  | withConsistency consistency => exact respects_equal_of_frame (fun _ => rfl) fun _ _ _ => rfl
  | orderBy key => exact respects_equal_of_frame (fun _ => rfl) fun _ _ _ => rfl
  | page paging => exact respects_equal_of_frame (fun _ => rfl) fun _ _ _ => rfl
  | link h => exact .link QueryDraft.equal_simulation h
  | linkTo _ _ _ => exact .linkTo QueryDraft.equal_simulation _ _ _
  | linkNew h => exact .linkNew QueryDraft.equal_simulation (hcallbacks h)
  | linkWith _ _ _ _ h => exact .linkWith QueryDraft.equal_simulation _ _ _ _ (hcallbacks h)
  | tryLinkWith _ _ _ _ h => exact .tryLinkWith QueryDraft.equal_simulation _ _ _ _ (hcallbacks h)

/-- Equal drafts cannot be told apart by calls, by rendering or by reading what is rendered.  The
same call on both fails with one error or leaves equal drafts again, and so do programs of calls,
whether they stop at a failure or skip it.  What is rendered is equal or fails alike, for a join
below every entity.  In equal plans joins and conditions are as many, each join is as deep and has
as many conditions, and the first join with an alias is missing or equal. -/
theorem agree_of_equal :
    (∀ (q r : QueryDraft), Equal q r → Agree Equal q.render r.render) ∧
    (∀ (j k : JoinDraft), Equal j k → ∀ parent,
      Agree Equal (j.pending.renderUnder parent) (k.pending.renderUnder parent)) ∧
    (∀ (q r : QueryDraft), Equal q r →
      (∀ call call' : QueryCall, call.Same call' →
        Agree Equal (call.apply q) (call'.apply r)) ∧
      ∀ calls calls' : List QueryCall, List.Forall₂ Same calls calls' →
        Equal (applyEach calls q) (applyEach calls' r)) ∧
    (∀ (j k : JoinDraft), Equal j k →
      (∀ call call' : JoinCall, call.Same call' →
        Agree Equal (call.apply j) (call'.apply k)) ∧
      ∀ calls calls' : List JoinCall, List.Forall₂ JoinCall.Same calls calls' →
        Agree Equal (JoinCall.applyAll calls j) (JoinCall.applyAll calls' k) ∧
          Equal (JoinCall.applyEach calls j) (JoinCall.applyEach calls' k)) ∧
    (∀ (f g : FilterDraft), Equal f g →
      ∀ calls calls' : List FilterCall, List.Forall₂ FilterCall.Same calls calls' →
        Equal (FilterCall.runAll calls f).1 (FilterCall.runAll calls' g).1 ∧
          (FilterCall.runAll calls f).2 = (FilterCall.runAll calls' g).2) ∧
    ∀ (plan plan' : Plan), Equal plan plan' → plan.Agreement plan' := by
  refine ⟨fun q r => QueryDraft.agree_render, ?_, ?_, ?_, ?_, fun _ _ => Plan.agreement_of_equal⟩
  · intro j k h parent
    exact PendingJoin.agree_renderUnder (JoinDraft.equal_simulation.pending h) parent
  · intro q r h
    refine ⟨fun call call' hcall => respects_of_same hcall h, fun calls calls' hcalls => ?_⟩
    exact rel_applyEach (hcalls.imp fun _ _ => respects_of_same) h
  · intro j k h
    refine ⟨fun call call' hcall => JoinCall.respects_of_same hcall h,
      fun calls calls' hcalls => ?_⟩
    have hrespects := hcalls.imp fun _ _ => JoinCall.respects_of_same
    exact ⟨JoinCall.agree_applyAll hrespects h, JoinCall.rel_applyEach hrespects h⟩
  · intro f g h calls calls' hcalls
    exact FilterCall.sameRun_runAll hcalls h

/-- A program with a price in a condition, in a group of a callback and in a call that fails. -/
def pricedCalls (price : Decimal) : List QueryCall :=
  [.filter (.named (.greaterThan "price" (.decimal price))),
    .linkWith "orderid" "order" "orderid" ["name"]
      [.filter (.group .or [.listCondition "price" .isIn [.decimal price]]),
        .filter (.condition "price" .isIn (some (.decimal price)))],
    .page .single]

theorem same_pricedCalls {price price' : Decimal}
    (h : Equal (Value.decimal price) (.decimal price')) :
    List.Forall₂ Same (pricedCalls price) (pricedCalls price') := by
  have hvalues : List.Forall₂ Equal [Value.decimal price] [.decimal price'] := .cons h .nil
  refine .cons (.filter (.named (.greaterThan "price" h))) (.cons ?_ ?_)
  · refine .linkWith _ _ _ _ (.cons (.filter (.group .or ?_)) (.cons (.filter ?_) .nil))
    · exact .cons (.listCondition "price" .isIn hvalues) .nil
    · exact .condition "price" .isIn (.some h)
  · exact .cons (.refl _) .nil

def price : Decimal := ⟨false, 10, 1, by decide, by decide⟩

def longPrice : Decimal := ⟨false, 100, 2, by decide, by decide⟩

theorem agree_of_equal_pricedCalls : price ≠ longPrice ∧ ∃ plan plan',
    (applyEach (pricedCalls price) (.new "invoice")).render = .ok plan ∧
      (applyEach (pricedCalls longPrice) (.new "invoice")).render = .ok plan' ∧
      Equal plan plan' := by
  obtain ⟨hrender, -, hcalls, -⟩ := agree_of_equal
  have hstart := hcalls (.new "invoice") (.new "invoice") BEq.rfl
  have hagree := hrender _ _
    (hstart.2 (pricedCalls price) (pricedCalls longPrice) (same_pricedCalls rfl))
  obtain ⟨plan, h⟩ : ∃ plan, (applyEach (pricedCalls price) (.new "invoice")).render =
      .ok plan := ⟨_, rfl⟩
  obtain ⟨plan', h'⟩ : ∃ plan', (applyEach (pricedCalls longPrice) (.new "invoice")).render =
      .ok plan' := ⟨_, rfl⟩
  rw [h, h'] at hagree
  cases hagree with
  | ok hequal => exact ⟨by decide, plan, plan', h, h', hequal⟩

end QueryCall

end EntityQuery
