import EntityQuery.Proofs.Call.Calculus
import EntityQuery.Proofs.Call.Filtering
import EntityQuery.Proofs.Draft.Batches

/-!
# Plans as projections of calls

Each part of a plan is read off the calls on the query, by itself: the last entity, the sort keys in
their order, the last paging, the conditions that were accepted.  Calls on different parts may be
interleaved in any way.  The entity and the links are one part, since a link starts at the entity
that the query has then.

One lemma says what a call does to every part, and the rest follows from it by induction on the
calls.
-/

namespace EntityQuery

/-! ## Calls on one part -/

/-- The column set after some calls, of which those that fail are skipped. -/
def ColumnCall.applyEach (calls : List ColumnCall) (columns : ColumnSet) : ColumnSet :=
  calls.foldl (fun columns call => (call.run columns).1) columns

theorem ColumnCall.keepOnError_apply (call : ColumnCall) (columns : ColumnSet) :
    keepOnError columns (call.apply columns) = (call.run columns).1 := by
  rcases hcall : call.run columns with ⟨changed, _ | e⟩
  · rw [apply, Projected.onColumns_of_none columns hcall]
    rfl
  · have hkept : (call.run columns).1 = columns := run_of_error (congrArg Prod.snd hcall)
    rw [hcall] at hkept
    rw [apply, Projected.onColumns_of_some columns hcall]
    exact hkept.symm

def FilterCall.runEach (calls : List FilterCall) (f : FilterDraft) : FilterDraft :=
  calls.foldl (fun f call => (call.run f).1) f

theorem FilterCall.render_runEach (calls : List FilterCall) (f : FilterDraft) :
    (runEach calls f).render =
      f.render.extend (calls.filterMap condition?) (calls.filterMap subfilter?) := by
  induction calls generalizing f with
  | nil => exact f.render.extend_nil.symm
  | cons call calls ih =>
      obtain ⟨-, hcall⟩ := run_spec call f
      have hcalls := ih (call.run f).1
      rw [hcall, Filter.extend_extend] at hcalls
      simp only [List.filterMap_eq_flatMap_toList, List.flatMap_cons] at hcalls ⊢
      exact hcalls

theorem FilterCall.keepOnError_onFilter (call : FilterCall) (f : FilterDraft) :
    keepOnError f (Filtered.onFilter f call.run) = (call.run f).1 := by
  rcases hcall : call.run f with ⟨changed, _ | e⟩
  · rw [Filtered.onFilter_of_none f hcall]
    rfl
  · have hkept : (call.run f).1 = f := run_of_error (congrArg Prod.snd hcall)
    rw [hcall] at hkept
    rw [Filtered.onFilter_of_some f hcall]
    exact hkept.symm

namespace QueryCall

/-! ### What is read off a call -/

def entity? : QueryCall → Option String
  | forEntity entity => some entity
  | _ => none

def columnCall? : QueryCall → Option ColumnCall
  | columns call => some call
  | _ => none

def filterCall? : QueryCall → Option FilterCall
  | filter call => some call
  | _ => none

def sortKey? : QueryCall → Option SortKey
  | orderBy key => some key
  | _ => none

def paging? : QueryCall → Option Paging
  | page paging => some paging
  | _ => none

def consistency? : QueryCall → Option Consistency
  | withConsistency consistency => some consistency
  | _ => none

variable {call : QueryCall} {calls calls' : List QueryCall} {q q' : QueryDraft}

/-- What a call does to every part of a query; a call that fails does nothing. -/
theorem keepOnError_apply (call : QueryCall) (q : QueryDraft) :
    keepOnError q (call.apply q) =
      { entity := call.entity?.getD q.entity
        columns := ColumnCall.applyEach call.columnCall?.toList q.columns
        filter := FilterCall.runEach call.filterCall?.toList q.filter
        joins := q.joins ++ call.added q
        sort := q.sort ++ call.sortKey?.toList
        paging := call.paging?.or q.paging
        consistency := call.consistency?.getD q.consistency
        joinKind := q.joinKind } := by
  match call with
  | filter filterCall =>
      have hfilter : keepOnError q ((filter filterCall).apply q) =
          { q with filter := (filterCall.run q.filter).1 } := by
        rw [apply_filter, ← FilterCall.keepOnError_onFilter]
        exact keepOnError_map (fun filter => { q with filter }) q.filter _
      rw [hfilter]
      simp [entity?, columnCall?, filterCall?, sortKey?, paging?, consistency?, added,
        ColumnCall.applyEach, FilterCall.runEach]
  | columns columnCall =>
      have hcolumns : keepOnError q ((columns columnCall).apply q) =
          { q with columns := (columnCall.run q.columns).1 } := by
        rw [apply_columns, ← columnCall.keepOnError_apply]
        exact keepOnError_map (fun columns => { q with columns }) q.columns _
      rw [hcolumns]
      simp [entity?, columnCall?, filterCall?, sortKey?, paging?, consistency?, added,
        ColumnCall.applyEach, FilterCall.runEach]
  | forEntity _ | withConsistency _ | orderBy _ | page _ =>
      simp [apply, keepOnError, QueryDraft.forEntity, QueryDraft.withConsistency,
        QueryDraft.orderBy, QueryDraft.page, entity?, columnCall?, filterCall?, sortKey?, paging?,
        consistency?, added, ColumnCall.applyEach, FilterCall.runEach]
  | link _ | linkNew _ | linkTo .. | linkWith .. | tryLinkWith .. =>
      rw [keepOnError_of_isLink rfl]
      simp [entity?, columnCall?, filterCall?, sortKey?, paging?, consistency?,
        ColumnCall.applyEach, FilterCall.runEach]

/-! ## Lists of calls -/

def addedAll : List QueryCall → QueryDraft → List PendingJoin
  | [], _ => []
  | call :: calls, q => call.added q ++ addedAll calls (keepOnError q (call.apply q))

/-- Some calls, each with the query that it is made on. -/
def log : List QueryCall → QueryDraft → List (QueryCall × QueryDraft)
  | [], _ => []
  | call :: calls, q => (call, q) :: log calls (keepOnError q (call.apply q))

theorem applyEach_eq (calls : List QueryCall) (q : QueryDraft) :
    applyEach calls q =
      { entity := (calls.filterMap entity?).getLast?.getD q.entity
        columns := ColumnCall.applyEach (calls.filterMap columnCall?) q.columns
        filter := FilterCall.runEach (calls.filterMap filterCall?) q.filter
        joins := q.joins ++ addedAll calls q
        sort := q.sort ++ calls.filterMap sortKey?
        paging := (calls.filterMap paging?).getLast?.or q.paging
        consistency := (calls.filterMap consistency?).getLast?.getD q.consistency
        joinKind := q.joinKind } := by
  induction calls generalizing q with
  | nil => simp [applyEach, addedAll, ColumnCall.applyEach, FilterCall.runEach]
  | cons call calls ih =>
      rw [applyEach_cons, ih, addedAll, keepOnError_apply]
      simp only [filterMap_cons_eq_append, List.getLast?_append, getLast?_toList, Option.getD_or,
        Option.or_assoc, ColumnCall.applyEach, FilterCall.runEach, List.foldl_append,
        List.append_assoc]

/-- What is pending for a query is what its links appended, one join each. -/
theorem forall₂_addedAll (calls : List QueryCall) (q : QueryDraft) :
    List.Forall₂ (fun entry join => entry.1.apply entry.2 = .ok (entry.2.link join))
      ((log calls q).filter fun entry => entry.1.isLink && (entry.1.apply entry.2).isOk)
      (addedAll calls q) := by
  induction calls generalizing q with
  | nil => exact .nil
  | cons call calls ih =>
      have hlater := ih (keepOnError q (call.apply q))
      rw [log, addedAll, List.filter_cons]
      cases hlink : call.isLink with
      | false =>
          rw [added_of_not_isLink hlink]
          simpa [hlink] using hlater
      | true =>
          rcases apply_of_isLink hlink q with ⟨join, happly, hadded⟩ | ⟨e, happly, hadded⟩
          · have hok : (call.apply q).isOk = true := by
              rw [happly]
              rfl
            rw [hadded, if_pos (by simp [hok])]
            exact .cons happly hlater
          · have hfails : (call.apply q).isOk = false := by
              rw [happly]
              rfl
            rw [hadded, if_neg (by simp [hfails])]
            exact hlater

/-! ## Interleaving -/

/-- The parts of a query that calls change independently of each other. -/
inductive Part
  | joins
  | columns
  | filter
  | sort
  | paging
  | consistency
deriving DecidableEq

/-- The part that a call changes.  A link reads the entity of the query. -/
def part : QueryCall → Part
  | forEntity _ | link _ | linkNew _ | linkTo _ _ _ | linkWith _ _ _ _ _ | tryLinkWith _ _ _ _ _ =>
      .joins
  | columns _ => .columns
  | filter _ => .filter
  | orderBy _ => .sort
  | page _ => .paging
  | withConsistency _ => .consistency

theorem isLink_eq_false_of_part (h : call.part ≠ .joins) : call.isLink = false := by
  match call with
  | filter _ | columns _ | withConsistency _ | orderBy _ | page _ => rfl
  | forEntity _ => rfl
  | link _ | linkNew _ | linkTo .. | linkWith .. | tryLinkWith .. => exact absurd rfl h

theorem entity?_eq_none_of_part (h : call.part ≠ .joins) : call.entity? = none := by
  cases call with
  | forEntity _ => exact absurd rfl h
  | _ => rfl

/-- What is read off the calls on one part is the same where these are the same. -/
theorem filterMap_eq_of_part {α : Type} {f : QueryCall → Option α} {part : Part}
    (hpart : ∀ {call}, call.part ≠ part → f call = none)
    (h : calls.filter (·.part = part) = calls'.filter (·.part = part)) :
    calls.filterMap f = calls'.filterMap f := by
  have hfilter : ∀ calls : List QueryCall,
      (calls.filter (·.part = part)).filterMap f = calls.filterMap f := by
    intro calls
    rw [List.filterMap_filter]
    refine congrArg (calls.filterMap ·) (funext fun call => ?_)
    by_cases hcall : call.part = part
    · simp [hcall]
    · simp [hcall, hpart hcall]
  rw [← hfilter calls, ← hfilter calls', h]

theorem added_congr (call : QueryCall) (hentity : q'.entity = q.entity)
    (hkind : q'.joinKind = q.joinKind) : call.added q' = call.added q := by
  have hseed : q'.seed = q.seed := by
    unfold QueryDraft.seed
    rw [hentity, hkind]
  cases call <;> simp only [added, hseed]

theorem addedAll_filter_part (calls : List QueryCall) (hentity : q'.entity = q.entity)
    (hkind : q'.joinKind = q.joinKind) :
    addedAll (calls.filter (·.part = .joins)) q' = addedAll calls q := by
  have hentities : ∀ (call : QueryCall) (r : QueryDraft),
      (keepOnError r (call.apply r)).entity = call.entity?.getD r.entity := by
    intro call r
    rw [keepOnError_apply]
  induction calls generalizing q q' with
  | nil => rfl
  | cons call calls ih =>
      rw [List.filter_cons]
      by_cases hpart : call.part = .joins
      · rw [if_pos (by simpa using hpart), addedAll, addedAll, added_congr call hentity hkind]
        refine congrArg (call.added q ++ ·) (ih ?_ ?_)
        · rw [hentities, hentities, hentity]
        · rw [joinKind_keepOnError, joinKind_keepOnError, hkind]
      · have hadded := added_of_not_isLink (isLink_eq_false_of_part hpart) q
        rw [if_neg (by simpa using hpart), addedAll, hadded, List.nil_append]
        refine ih ?_ ?_
        · rw [hentities, entity?_eq_none_of_part hpart, hentity, Option.getD_none]
        · rw [joinKind_keepOnError, hkind]

theorem applyEach_eq_of_part
    (h : ∀ part, calls.filter (·.part = part) = calls'.filter (·.part = part)) (q : QueryDraft) :
    applyEach calls q = applyEach calls' q := by
  have hjoins : addedAll calls q = addedAll calls' q := by
    rw [← addedAll_filter_part calls rfl rfl, h .joins, addedAll_filter_part calls' rfl rfl]
  have hentity : calls.filterMap entity? = calls'.filterMap entity? :=
    filterMap_eq_of_part entity?_eq_none_of_part (h .joins)
  have hcolumns : calls.filterMap columnCall? = calls'.filterMap columnCall? := by
    refine filterMap_eq_of_part (fun {call} hpart => ?_) (h .columns)
    cases call with
    | columns _ => exact absurd rfl hpart
    | _ => rfl
  have hfilter : calls.filterMap filterCall? = calls'.filterMap filterCall? := by
    refine filterMap_eq_of_part (fun {call} hpart => ?_) (h .filter)
    cases call with
    | filter _ => exact absurd rfl hpart
    | _ => rfl
  have hsort : calls.filterMap sortKey? = calls'.filterMap sortKey? := by
    refine filterMap_eq_of_part (fun {call} hpart => ?_) (h .sort)
    cases call with
    | orderBy _ => exact absurd rfl hpart
    | _ => rfl
  have hpaging : calls.filterMap paging? = calls'.filterMap paging? := by
    refine filterMap_eq_of_part (fun {call} hpart => ?_) (h .paging)
    cases call with
    | page _ => exact absurd rfl hpart
    | _ => rfl
  have hconsistency : calls.filterMap consistency? = calls'.filterMap consistency? := by
    refine filterMap_eq_of_part (fun {call} hpart => ?_) (h .consistency)
    cases call with
    | withConsistency _ => exact absurd rfl hpart
    | _ => rfl
  rw [applyEach_eq, applyEach_eq, hentity, hcolumns, hfilter, hjoins, hsort, hpaging, hconsistency]

/-! ## Plans -/

/-- A plan is the projection of the calls on its query, of which those that fail count for nothing:
what was set last, or at the creation of the query; the sort keys, the accepted conditions and
groups and the joins of the links that succeeded, in the order of the calls.  Calls on different
parts may be interleaved in any way without a difference to the plan or to the error. -/
theorem plan_projects_calls (entity : String) (config : Config) (calls : List QueryCall) :
    (∀ plan, (applyEach calls (.withConfig entity config)).render = .ok plan →
      plan.entity = (calls.filterMap entity?).getLast?.getD entity ∧
      plan.columns = (ColumnCall.applyEach (calls.filterMap columnCall?) .all).render ∧
      plan.filter = {
        combinator := config.combinator
        conditions := (calls.filterMap filterCall?).filterMap FilterCall.condition?
        subfilters := (calls.filterMap filterCall?).filterMap FilterCall.subfilter? } ∧
      (∀ attr, plan.filter.condition? attr =
        ((calls.filterMap filterCall?).filterMap FilterCall.condition?).find? (·.attr = attr)) ∧
      List.Forall₂ (fun entry join => ∃ pending : PendingJoin,
          entry.1.apply entry.2 = .ok (entry.2.link pending) ∧ pending.render = .ok join)
        ((log calls (.withConfig entity config)).filter
          fun entry => entry.1.isLink && (entry.1.apply entry.2).isOk) plan.joins ∧
      plan.sort = calls.filterMap sortKey? ∧
      plan.paging = (calls.filterMap paging?).getLast? ∧
      plan.consistency = (calls.filterMap consistency?).getLast?.getD config.consistency) ∧
    ∀ calls' : List QueryCall,
      (∀ part, calls.filter (·.part = part) = calls'.filter (·.part = part)) →
        (applyEach calls (.withConfig entity config)).render =
          (applyEach calls' (.withConfig entity config)).render := by
  constructor
  · intro plan h
    obtain ⟨joins, hjoins, rfl⟩ := QueryDraft.render_eq_ok.1 h
    have hlinks := forall₂_addedAll calls (.withConfig entity config)
    rw [applyEach_eq] at hjoins ⊢
    have hrendered := PendingJoin.renderAllUnder_eq_ok.1 hjoins
    have hfilter := FilterCall.render_runEach (calls.filterMap filterCall?)
      (QueryDraft.withConfig entity config).filter
    refine ⟨rfl, rfl, hfilter, fun attr => ?_, forall₂_comp hlinks hrendered, rfl, Option.or_none,
      rfl⟩
    rw [hfilter]
    rfl
  · intro calls' hparts
    rw [applyEach_eq_of_part hparts]

def taskCalls : List QueryCall :=
  [.linkTo "customerid" "customer" "customerid", .orderBy ⟨"name", .ascending⟩,
    .filter (.condition "name" .like none), .forEntity "task", .page ⟨50, 2, false, none⟩,
    .columns (.add ["name"]), .filter (.named .active), .columns (.addStrict ["name"]),
    .tryLinkWith "ownerid" "user" "userid" [] [.columns (.addStrict ["name", "name"])],
    .filter (.group .or [.named (.isNull "name")]), .linkTo "ownerid" "user" "userid",
    .page .single, .withConsistency .serviceDefault]

def taskCallsByPart : List QueryCall :=
  [Part.consistency, .filter, .joins, .paging, .columns, .sort].flatMap fun part =>
    taskCalls.filter (·.part = part)

theorem plan_projects_calls_taskCalls : ∃ plan,
    (applyEach taskCalls (.withConfig "invoice" {})).render = .ok plan ∧
      (applyEach taskCallsByPart (.withConfig "invoice" {})).render = .ok plan ∧
      plan.entity = "task" ∧ plan.columns = .only ["name"] ∧
      plan.filter = ⟨.and, [Shortcut.active.criterion.toCondition],
        [⟨.or, [⟨"name", .null, []⟩], []⟩]⟩ ∧
      plan.joins.length = 2 ∧ plan.sort = [⟨"name", .ascending⟩] ∧ plan.paging = some .single ∧
      plan.consistency = .serviceDefault := by
  obtain ⟨hprojects, hparts⟩ := plan_projects_calls "invoice" {} taskCalls
  obtain ⟨plan, h⟩ : ∃ plan, (applyEach taskCalls (.withConfig "invoice" {})).render =
      .ok plan := ⟨_, rfl⟩
  obtain ⟨hentity, hcolumns, hfilter, -, hjoins, hsort, hpaging, hconsistency⟩ := hprojects plan h
  have hsame : ∀ part, taskCalls.filter (·.part = part) = taskCallsByPart.filter (·.part = part) := by
    intro part
    cases part <;> rfl
  exact ⟨plan, h, (hparts taskCallsByPart hsame).symm.trans h, hentity, hcolumns, hfilter,
    hjoins.length_eq.symm, hsort, hpaging, hconsistency⟩

end QueryCall

end EntityQuery
