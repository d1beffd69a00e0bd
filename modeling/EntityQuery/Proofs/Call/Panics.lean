import EntityQuery.Proofs.Call.Calculus

/-!
# Programs that do not panic

Only named conditions may panic, and they never do.  So a program of calls on a filter, a join or a
query always comes to an answer, and it is that of the run without panics.
-/

namespace EntityQuery

/-! ## Computations without a panic -/

namespace Building

variable {α β : Type} {x : Building α} {answer : Except BuildError α}

theorem run_bind (x : Building α) (f : α → Building β) :
    (x >>= f).run = match x.run with
      | .ok (.ok a) => (f a).run
      | .ok (.error e) => .ok (.error e)
      | .error panic => .error panic := by
  rw [ExceptT.run_bind]
  rcases x.run with panic | _ | _ <;> rfl

theorem run_map_of_ok (h : x.run = .ok answer) (f : α → β) :
    (f <$> x).run = .ok (answer.map f) := by
  rw [ExceptT.run_map, h]
  rfl

theorem run_liftExcept (answer : Except BuildError α) :
    (liftExcept answer : Building α).run = .ok answer := by
  cases answer <;> rfl

end Building

namespace Filtered

variable {α : Type} [Filtered α]

/-- The test is run once, on the value as it was given, and nothing panics on either outcome. -/
theorem addNamedIf_eq {τ : Type} {m : Type → Type} [ToValue τ] [Monad m] [LawfulMonad m]
    (draft : α) (named : Value → Shortcut) (value : τ) (test : τ → m Bool) :
    addNamedIf draft named value test =
      (fun holds => .ok (if holds then withNamed draft (named (toValue value)) else draft)) <$>
        test value := by
  rw [addNamedIf, ← bind_pure_comp]
  refine bind_congr fun holds => ?_
  cases holds with
  | false => rfl
  | true => rw [if_pos rfl, addNamed_eq, if_pos rfl]

theorem run_onFilterOrPanic (draft : α) {change : FilterDraft → FilterDraft × Option BuildError}
    {changeOrPanic : FilterDraft → Except Panic (FilterDraft × Option BuildError)}
    (h : ∀ f, changeOrPanic f = .ok (change f)) :
    (onFilterOrPanic draft changeOrPanic).run = .ok (onFilter draft change) := by
  rw [onFilterOrPanic, h]
  rcases hchange : change (filter draft) with ⟨f, _ | e⟩
  · rw [onFilter_of_none draft hchange]
    rfl
  · rw [onFilter_of_some draft hchange]
    rfl

end Filtered

namespace Linkable

variable {α : Type} [Linkable α] {draft : α} {localAttribute remoteEntity remoteAttribute : String}
  {columns : List String}

theorem linkTraced_of_ok {configure : JoinDraft → JoinDraft}
    {configureOrPanic : JoinDraft → Except Panic JoinDraft}
    (h : ∀ join, configureOrPanic join = .ok (configure join)) :
    linkTraced draft localAttribute remoteEntity remoteAttribute columns configureOrPanic =
      .ok (linkWith draft localAttribute remoteEntity remoteAttribute columns configure) := by
  rw [linkTraced_of_silent fun _ => rfl, h, linkWith_eq]
  rfl

theorem run_linkTraced_of_ok {configure : JoinDraft → Except BuildError JoinDraft}
    {configureOrPanic : JoinDraft → Building JoinDraft}
    (h : ∀ join, (configureOrPanic join).run = .ok (configure join)) :
    (linkTraced draft localAttribute remoteEntity remoteAttribute columns configureOrPanic).run =
      .ok (tryLinkWith draft localAttribute remoteEntity remoteAttribute columns configure) := by
  rw [linkTraced_of_silent fun _ => rfl, tryLinkWith_eq]
  exact Building.run_map_of_ok (h _) _

end Linkable

/-! ## Programs -/

namespace FilterCall

mutual

theorem runOrPanic_eq (call : FilterCall) (f : FilterDraft) :
    call.runOrPanic f = .ok (call.run f) := by
  match call with
  | condition .. | listCondition .. | push _ => rfl
  | named shortcut =>
      rw [runOrPanic, Filtered.addNamed_eq, run]
      rfl
  | namedIf make value test =>
      rw [runOrPanic, Filtered.addNamedIf_eq, run]
      rfl
  | group combinator calls =>
      rw [runOrPanic, runAllOrPanic_eq calls, run]
      rfl
  | attempt call =>
      rw [runOrPanic, runOrPanic_eq call, run]
      rfl

/-- A program on a filter does not panic. -/
theorem runAllOrPanic_eq (calls : List FilterCall) (f : FilterDraft) :
    runAllOrPanic calls f = .ok (runAll calls f) := by
  match calls with
  | [] => rfl
  | call :: calls =>
      rw [runAllOrPanic, runOrPanic_eq call, runAll]
      rcases call.run f with ⟨changed, _ | e⟩
      · exact runAllOrPanic_eq calls changed
      · rfl

end

end FilterCall

namespace JoinCall

mutual

theorem run_applyOrPanic (call : JoinCall) (j : JoinDraft) :
    (call.applyOrPanic j).run = .ok (call.apply j) := by
  match call with
  | filter call => exact Filtered.run_onFilterOrPanic j call.runOrPanic_eq
  | columns call => exact Building.run_liftExcept _
  | fromEntity .. | toEntity .. | withAlias _ | withKind _ | link _ | linkTo .. => rfl
  | linkNew calls =>
      rw [applyOrPanic, Building.run_bind, run_applyAllOrPanic calls .empty, apply_linkNew]
      cases applyAll calls .empty <;> rfl
  | linkWith localAttribute remoteEntity remoteAttribute batch calls =>
      rw [applyOrPanic, Linkable.linkTraced_of_ok (applyEachOrPanic_eq calls)]
      rfl
  | tryLinkWith localAttribute remoteEntity remoteAttribute batch calls =>
      exact Linkable.run_linkTraced_of_ok (run_applyAllOrPanic calls)
  | attempt call =>
      rw [applyOrPanic, run_applyOrPanic call, apply]
      rfl

/-- A program on a join does not panic. -/
theorem run_applyAllOrPanic (calls : List JoinCall) (j : JoinDraft) :
    (applyAllOrPanic calls j).run = .ok (applyAll calls j) := by
  match calls with
  | [] => rfl
  | call :: calls =>
      rw [applyAllOrPanic, Building.run_bind, run_applyOrPanic call j, applyAll]
      cases call.apply j with
      | ok changed => exact run_applyAllOrPanic calls changed
      | error e => rfl

theorem applyEachOrPanic_eq (calls : List JoinCall) (j : JoinDraft) :
    applyEachOrPanic calls j = .ok (applyEach calls j) := by
  match calls with
  | [] => rfl
  | call :: calls =>
      rw [applyEachOrPanic, run_applyOrPanic call, applyEach]
      exact applyEachOrPanic_eq calls _

end

end JoinCall

namespace QueryCall

theorem run_applyOrPanic (call : QueryCall) (q : QueryDraft) :
    (call.applyOrPanic q).run = .ok (call.apply q) := by
  match call with
  | filter call => exact Filtered.run_onFilterOrPanic q call.runOrPanic_eq
  | columns call => exact Building.run_liftExcept _
  | forEntity _ | withConsistency _ | orderBy _ | page _ | link _ | linkTo .. => rfl
  | linkNew calls =>
      rw [applyOrPanic, Building.run_bind, JoinCall.run_applyAllOrPanic calls .empty,
        apply_linkNew]
      cases JoinCall.applyAll calls .empty <;> rfl
  | linkWith localAttribute remoteEntity remoteAttribute batch calls =>
      rw [applyOrPanic, Linkable.linkTraced_of_ok (JoinCall.applyEachOrPanic_eq calls)]
      rfl
  | tryLinkWith localAttribute remoteEntity remoteAttribute batch calls =>
      exact Linkable.run_linkTraced_of_ok (JoinCall.run_applyAllOrPanic calls)

/-- A program on a query does not panic. -/
theorem run_applyAllOrPanic (calls : List QueryCall) (q : QueryDraft) :
    (applyAllOrPanic calls q).run = .ok (applyAll calls q) := by
  induction calls generalizing q with
  | nil => rfl
  | cons call calls ih =>
      rw [applyAllOrPanic, List.foldlM_cons, Building.run_bind, call.run_applyOrPanic q,
        applyAll, List.foldlM_cons]
      cases call.apply q with
      | ok changed => exact ih changed
      | error e => rfl

theorem applyEachOrPanic_eq (calls : List QueryCall) (q : QueryDraft) :
    applyEachOrPanic calls q = .ok (applyEach calls q) := by
  induction calls generalizing q with
  | nil => rfl
  | cons call calls ih =>
      rw [applyEachOrPanic, List.foldlM_cons, call.run_applyOrPanic q, applyEach_cons]
      exact ih _

end QueryCall

end EntityQuery
