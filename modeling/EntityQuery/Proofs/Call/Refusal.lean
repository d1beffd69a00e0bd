import EntityQuery.Proofs.Call.Columns

/-!
# Links whose callback may fail

A callback is a program of calls, some of which are checked: the conditions, those in groups
included, and the batches of names that must not repeat.  The checks of a program can be listed in
the order in which they are made, through the callbacks of nested links, as long as a failure there
is not ignored.  The first check that is refused gives the error of the whole program, whatever
callbacks stand around it, and then nothing is linked.

Without a refusal a link that may fail does what the link that skips failures does, and the columns
that it asks for come after those of the callback.
-/

namespace EntityQuery

/-- Something that a call checks: a condition, which every filter takes or refuses alike, or a call
on the columns that a join has by then. -/
inductive Check
  | condition (call : FilterCall)
  | columns (call : ColumnCall) (current : ColumnSet)

def Check.refusal? : Check → Option BuildError
  | condition call => call.refusal?
  | columns call current => failure? (call.apply current)

theorem failure?_map {ε α β : Type} (x : Except ε α) (f : α → β) :
    failure? (x.map f) = failure? x := by
  cases x <;> rfl

/-! ## Calls -/

namespace JoinCall

mutual

/-- The checks that a call makes on a draft and whose failure is not ignored, in the order in which
they are made. -/
def checks : JoinCall → JoinDraft → List Check
  | filter call, _ => call.exposed.map .condition
  | columns call, j => [.columns call j.columns]
  | linkNew calls, _ => checksAll calls .empty
  | tryLinkWith localAttribute remoteEntity remoteAttribute _ calls, j =>
      checksAll calls (j.seed localAttribute remoteEntity remoteAttribute)
  | _, _ => []

def checksAll : List JoinCall → JoinDraft → List Check
  | [], _ => []
  | call :: calls, j => call.checks j ++ checksAll calls (keepOnError j (call.apply j))

end

def error? (calls : List JoinCall) (j : JoinDraft) : Option BuildError :=
  (checksAll calls j).findSome? Check.refusal?

theorem failure?_filter (call : FilterCall) (j : JoinDraft) :
    failure? ((filter call).apply j) =
      (call.exposed.map Check.condition).findSome? Check.refusal? := by
  obtain ⟨hrun, -⟩ := call.run_spec j.filter
  rw [apply_filter, failure?_map, List.findSome?_map]
  rw [FilterCall.error?, FilterCall.exposedAll_singleton] at hrun
  refine Eq.trans ?_ hrun
  rcases hcall : call.run j.filter with ⟨f, _ | e⟩
  · rw [Filtered.onFilter_of_none j.filter hcall]
    rfl
  · rw [Filtered.onFilter_of_some j.filter hcall]
    rfl

/-- Calls fail as their checks do, if each of them does. -/
theorem failure?_applyAll_of_forall {calls : List JoinCall} (j : JoinDraft)
    (h : ∀ call ∈ calls, ∀ j,
      failure? (call.apply j) = (call.checks j).findSome? Check.refusal?) :
    failure? (applyAll calls j) = error? calls j := by
  induction calls generalizing j with
  | nil => rfl
  | cons call calls ih =>
      obtain ⟨hcall, hcalls⟩ := List.forall_mem_cons.1 h
      rw [applyAll_cons, error?, checksAll, List.findSome?_append, ← hcall]
      refine failure?_bind _ _ _ fun changed hchanged => ?_
      rw [ih changed hcalls, hchanged]
      rfl

/-- A call fails with the error of the first check that is refused. -/
theorem failure?_apply (call : JoinCall) (j : JoinDraft) :
    failure? (call.apply j) = (call.checks j).findSome? Check.refusal? := by
  induction call using JoinCall.induction generalizing j with
  | step call ih =>
      cases call with
      | filter call => exact failure?_filter call j
      | columns call =>
          rw [apply_columns, failure?_map]
          exact List.findSome?_singleton.symm
      | linkNew calls =>
          rw [apply_linkNew, failure?_map, checks]
          exact failure?_applyAll_of_forall _ ih
      | tryLinkWith localAttribute remoteEntity remoteAttribute batch calls =>
          rw [apply_tryLinkWith, failure?_map, checks]
          exact failure?_applyAll_of_forall _ ih
      | _ => rfl

theorem failure?_applyAll (calls : List JoinCall) (j : JoinDraft) :
    failure? (applyAll calls j) = error? calls j :=
  failure?_applyAll_of_forall j fun call _ => call.failure?_apply

end JoinCall

/-! ## Columns of a link -/

theorem ColumnSet.toList_names (columns : ColumnSet) :
    columns.names.toList = columns.render.names?.getD [] := by
  unfold render
  split
  · rename_i hall
    rw [columns.names_eq_empty hall]
    rfl
  · rfl

/-- A projection with further names, of which those that are there and repetitions are left out. -/
def Projection.extended (columns : Projection) (batch : List String) : Projection :=
  if batch = [] then columns
  else .only (columns.names?.getD [] ++ (batch.removeAll (columns.names?.getD [])).eraseDups)

/-- A link asks for columns after its callback and changes nothing else. -/
theorem Linkable.withColumns_eq (join : JoinDraft) (batch : List String) :
    ∃ columns : ColumnSet, withColumns join batch = { join with columns } ∧
      columns.render = join.columns.render.extended batch := by
  unfold withColumns Projection.extended
  by_cases hbatch : batch = []
  · exact ⟨join.columns, by rw [if_pos hbatch], by rw [if_pos hbatch]⟩
  · refine ⟨join.columns.add batch, by rw [if_neg hbatch]; rfl, ?_⟩
    rw [if_neg hbatch, ← ColumnSet.toList_names, ← Names.toList_extend]
    rfl

/-! ## Links -/

namespace Linkable

/-- A link whose callback is a program of calls fails with the error of the first check that is
refused, and then the draft stays as it was.  Without a refusal it links what the link that skips
failures does: the join that the calls leave, with the further columns after its own. -/
theorem tryLinkWith_of_calls {α : Type} [Linkable α] (draft : α)
    (localAttribute remoteEntity remoteAttribute : String) (batch : List String)
    (calls : List JoinCall) :
    failure? (tryLinkWith draft localAttribute remoteEntity remoteAttribute batch
        (JoinCall.applyAll calls)) =
      JoinCall.error? calls (seed draft localAttribute remoteEntity remoteAttribute) ∧
    (∀ e, JoinCall.error? calls (seed draft localAttribute remoteEntity remoteAttribute) = some e →
      keepOnError draft (tryLinkWith draft localAttribute remoteEntity remoteAttribute batch
        (JoinCall.applyAll calls)) = draft) ∧
    (JoinCall.error? calls (seed draft localAttribute remoteEntity remoteAttribute) = none →
      tryLinkWith draft localAttribute remoteEntity remoteAttribute batch
          (JoinCall.applyAll calls) =
        .ok (linkWith draft localAttribute remoteEntity remoteAttribute batch
          (JoinCall.applyEach calls)) ∧
      ∃ (join : JoinDraft) (columns : ColumnSet),
        JoinCall.applyAll calls (seed draft localAttribute remoteEntity remoteAttribute) =
          .ok join ∧
        linkWith draft localAttribute remoteEntity remoteAttribute batch
            (JoinCall.applyEach calls) = link draft { join with columns }.pending ∧
        columns.render = join.columns.render.extended batch) := by
  have hfailure := JoinCall.failure?_applyAll calls
    (seed draft localAttribute remoteEntity remoteAttribute)
  have hlink := tryLinkWith_eq draft localAttribute remoteEntity remoteAttribute batch
    (JoinCall.applyAll calls)
  refine ⟨?_, fun e he => ?_, fun hnone => ?_⟩
  · rw [hlink, failure?_map, hfailure]
  · rw [he, failure?_eq_some] at hfailure
    rw [hlink, hfailure]
    rfl
  · rw [hnone, failure?_eq_none] at hfailure
    obtain ⟨join, hjoin⟩ := hfailure
    obtain ⟨columns, hcolumns, hrender⟩ := withColumns_eq join batch
    have hwith : linkWith draft localAttribute remoteEntity remoteAttribute batch
        (JoinCall.applyEach calls) = link draft { join with columns }.pending := by
      rw [linkWith_eq, JoinCall.applyEach_of_applyAll hjoin, hcolumns]
    refine ⟨?_, join, columns, hjoin, hwith, hrender⟩
    rw [hlink, hjoin, hwith, ← hcolumns]
    rfl

def refusedCalls : List JoinCall :=
  [.attempt (.columns (.addStrict ["name", "name"])),
    .tryLinkWith "ownerid" "owner" "ownerid" []
      [.columns (.addStrict ["name"]),
        .filter (.group .or [.named .active, .condition "name" .like none])],
    .columns (.addStrict ["name", "name"])]

def namedCalls : List JoinCall :=
  [.withAlias "c", .columns (.addStrict ["name"]), .attempt (.columns (.addStrict ["name"]))]

theorem tryLinkWith_of_calls_customer :
    failure? (tryLinkWith (QueryDraft.new "order") "customerid" "customer" "customerid" ["city"]
        (JoinCall.applyAll refusedCalls)) = some (.operatorArity "name" .like 0) ∧
      keepOnError (QueryDraft.new "order") (tryLinkWith (.new "order") "customerid" "customer"
        "customerid" ["city"] (JoinCall.applyAll refusedCalls)) = .new "order" ∧
      ∃ linked, tryLinkWith (QueryDraft.new "order") "customerid" "customer" "customerid"
          ["city", "name", "city"] (JoinCall.applyAll namedCalls) = .ok linked ∧
        linked.render.toOption.map (fun plan => plan.joins.map Join.columns) =
          some [.only ["name", "city"]] := by
  obtain ⟨hfails, hkept, -⟩ := tryLinkWith_of_calls (QueryDraft.new "order") "customerid" "customer"
    "customerid" ["city"] refusedCalls
  obtain ⟨-, -, hlinks⟩ := tryLinkWith_of_calls (QueryDraft.new "order") "customerid" "customer"
    "customerid" ["city", "name", "city"] namedCalls
  exact ⟨hfails, hkept _ rfl, _, (hlinks rfl).1, rfl⟩

end Linkable

end EntityQuery
