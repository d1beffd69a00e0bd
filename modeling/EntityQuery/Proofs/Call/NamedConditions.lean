import EntityQuery.Proofs.Call.Completeness
import EntityQuery.Proofs.Call.Panics

/-!
# Named conditions as checked calls

A named condition is short for one checked call: each name goes with an operator and passes as many
values as that operator takes.  The checked call is therefore accepted by every draft that has a
filter, whatever is in it; the named condition, which makes that call, does not panic and leaves
what the call leaves.  Under a test a named condition is short for that call or for nothing, as one
run of the test decides.

A program can be spelled out, call by call and through groups and callbacks at any depth.  Where it
is run, and whether it stops at a failure or skips it, the program that is spelled out does what the
short one does.
-/

namespace EntityQuery

/-! ## Calls in a row -/

section Rewriting

variable {α ε κ : Type} {apply : κ → α → Except ε α} {rewrite? : κ → Option κ} {calls : List κ}

/-- Calls that are replaced by one that does the same, or dropped where they do nothing. -/
theorem foldlM_filterMap_of_step
    (h : ∀ call ∈ calls, ∀ a, (rewrite? call).elim (.ok a) (apply · a) = apply call a) (a : α) :
    (calls.filterMap rewrite?).foldlM (fun a call => apply call a) a =
      calls.foldlM (fun a call => apply call a) a := by
  induction calls generalizing a with
  | nil => rfl
  | cons call calls ih =>
      obtain ⟨hcall, hcalls⟩ := List.forall_mem_cons.1 h
      rw [List.foldlM_cons, ← hcall]
      cases hrewrite : rewrite? call with
      | none =>
          rw [List.filterMap_cons_none hrewrite]
          exact ih hcalls a
      | some rewritten =>
          rw [List.filterMap_cons_some hrewrite, List.foldlM_cons]
          exact bind_congr (ih hcalls)

theorem foldl_filterMap_of_step
    (h : ∀ call ∈ calls, ∀ a, (rewrite? call).elim (.ok a) (apply · a) = apply call a) (a : α) :
    (calls.filterMap rewrite?).foldl (fun a call => keepOnError a (apply call a)) a =
      calls.foldl (fun a call => keepOnError a (apply call a)) a := by
  induction calls generalizing a with
  | nil => rfl
  | cons call calls ih =>
      obtain ⟨hcall, hcalls⟩ := List.forall_mem_cons.1 h
      rw [List.foldl_cons, ← hcall]
      cases hrewrite : rewrite? call with
      | none =>
          rw [List.filterMap_cons_none hrewrite]
          exact ih hcalls a
      | some rewritten =>
          rw [List.filterMap_cons_some hrewrite, List.foldl_cons]
          exact ih hcalls _

end Rewriting

/-! ## One condition -/

def Clause.call : Clause → FilterCall
  | ⟨attr, operator, .none⟩ => .condition attr operator none
  | ⟨attr, operator, .one value⟩ => .condition attr operator (some value)
  | ⟨attr, operator, .many values⟩ => .listCondition attr operator values

theorem Clause.run_call (clause : Clause) (f : FilterDraft) :
    clause.call.run f = f.pushChecked clause.check := by
  obtain ⟨attr, operator, _ | value | values⟩ := clause <;> rfl

namespace Shortcut

/-- The checked call that a named condition is short for. -/
def call (shortcut : Shortcut) : FilterCall := shortcut.clause.call

/-- The checked call is never refused: its operator takes the values that it passes. -/
theorem run_call (shortcut : Shortcut) (f : FilterDraft) :
    shortcut.call.run f = (f.push shortcut.criterion, none) := by
  rw [call, Clause.run_call, Clause.check_of_fits shortcut.fits]
  rfl

end Shortcut

namespace Filtered

variable {α : Type} [Filtered α]

theorem onFilter_call (draft : α) (shortcut : Shortcut) :
    onFilter draft shortcut.call.run = .ok (withNamed draft shortcut) := by
  rw [withNamed_eq]
  exact onFilter_of_none draft (shortcut.run_call (filter draft))

/-- One run of the test decides between the checked call, which succeeds, and nothing. -/
theorem map_addNamedIf {τ : Type} {m : Type → Type} [ToValue τ] [Monad m] [LawfulMonad m]
    (draft : α) (named : Value → Shortcut) (value : τ) (test : τ → m Bool) :
    Except.map Except.ok <$> addNamedIf draft named value test =
      (fun holds => .ok (if holds then onFilter draft (named (toValue value)).call.run
        else .ok draft)) <$> test value := by
  rw [addNamedIf_eq, Functor.map_map]
  congr
  funext holds
  cases holds with
  | false => rfl
  | true => rw [if_pos rfl, if_pos rfl, onFilter_call]; rfl

end Filtered

/-! ## Programs on filters -/

namespace FilterCall

mutual

/-- A call with named conditions spelled out, unless a test drops it. -/
def spelled? : FilterCall → Option FilterCall
  | named shortcut => some shortcut.call
  | namedIf make value test => if test value then some (make value).call else none
  | group combinator calls => some (group combinator (spelled calls))
  | attempt call => call.spelled?.map attempt
  | call => some call

def spelled : List FilterCall → List FilterCall
  | [] => []
  | call :: calls => call.spelled?.toList ++ spelled calls

end

mutual

theorem run_spelled? (call : FilterCall) (f : FilterDraft) :
    (call.spelled?.elim (f, none) fun spelled => spelled.run f) = call.run f := by
  match call with
  | condition .. | listCondition .. | push _ => rfl
  | named shortcut =>
      rw [run_named]
      exact shortcut.run_call f
  | namedIf make value test =>
      rw [run_namedIf, spelled?]
      cases test value with
      | false => rfl
      | true => exact (make value).run_call f
  | group combinator calls =>
      rw [spelled?, Option.elim_some, run, run]
      exact congrArg (f.addGroup combinator) (funext fun child => runAll_spelled calls child)
  | attempt call =>
      rw [spelled?, run, ← run_spelled? call f]
      cases call.spelled? <;> rfl

/-- A program on a filter does what it does when it is spelled out. -/
theorem runAll_spelled (calls : List FilterCall) (f : FilterDraft) :
    runAll (spelled calls) f = runAll calls f := by
  match calls with
  | [] => rfl
  | call :: calls =>
      rw [spelled, runAll, ← run_spelled? call f]
      cases call.spelled? with
      | none => exact runAll_spelled calls f
      | some spelledCall =>
          rw [Option.toList_some, List.singleton_append, runAll, Option.elim_some]
          rcases spelledCall.run f with ⟨changed, _ | e⟩
          · exact runAll_spelled calls changed
          · rfl

end

theorem onFilter_spelled? {α : Type} [Filtered α] {draft : α}
    (lawful : Filtered.withFilter draft (Filtered.filter draft) = draft) (call : FilterCall) :
    (call.spelled?.elim (.ok draft) fun spelled => Filtered.onFilter draft spelled.run) =
      Filtered.onFilter draft call.run := by
  have hcall := call.run_spelled? (Filtered.filter draft)
  cases hspelled : call.spelled? with
  | none =>
      rw [hspelled] at hcall
      rw [Filtered.onFilter_of_none draft hcall.symm, lawful]
      rfl
  | some spelled =>
      rw [hspelled] at hcall
      unfold Filtered.onFilter
      rw [← hcall]
      rfl

end FilterCall

/-! ## Programs on joins -/

namespace JoinCall

mutual

def spelled? : JoinCall → Option JoinCall
  | filter call => call.spelled?.map filter
  | linkNew calls => some (linkNew (spelled calls))
  | linkWith localAttribute remoteEntity remoteAttribute batch calls =>
      some (linkWith localAttribute remoteEntity remoteAttribute batch (spelled calls))
  | tryLinkWith localAttribute remoteEntity remoteAttribute batch calls =>
      some (tryLinkWith localAttribute remoteEntity remoteAttribute batch (spelled calls))
  | attempt call => call.spelled?.map attempt
  | call => some call

def spelled : List JoinCall → List JoinCall
  | [] => []
  | call :: calls => call.spelled?.toList ++ spelled calls

end

theorem spelled_eq_filterMap (calls : List JoinCall) :
    spelled calls = calls.filterMap spelled? := by
  induction calls with
  | nil => rfl
  | cons call calls ih => rw [spelled, ih, filterMap_cons_eq_append]

theorem applyEach_eq_foldl (calls : List JoinCall) (j : JoinDraft) :
    applyEach calls j = calls.foldl (fun j call => keepOnError j (call.apply j)) j := by
  induction calls generalizing j with
  | nil => rfl
  | cons call calls ih => exact ih (keepOnError j (call.apply j))

variable {calls : List JoinCall}

/-- A program does what it does when it is spelled out, if each of its calls does. -/
theorem applyAll_spelled_of_forall
    (h : ∀ call ∈ calls, ∀ j, (call.spelled?.elim (.ok j) fun spelled => spelled.apply j) =
      call.apply j) (j : JoinDraft) : applyAll (spelled calls) j = applyAll calls j := by
  rw [applyAll_eq_foldlM, applyAll_eq_foldlM, spelled_eq_filterMap]
  exact foldlM_filterMap_of_step h j

theorem applyEach_spelled_of_forall
    (h : ∀ call ∈ calls, ∀ j, (call.spelled?.elim (.ok j) fun spelled => spelled.apply j) =
      call.apply j) (j : JoinDraft) : applyEach (spelled calls) j = applyEach calls j := by
  rw [applyEach_eq_foldl, applyEach_eq_foldl, spelled_eq_filterMap]
  exact foldl_filterMap_of_step h j

theorem apply_spelled? (call : JoinCall) (j : JoinDraft) :
    (call.spelled?.elim (.ok j) fun spelled => spelled.apply j) = call.apply j := by
  induction call using JoinCall.induction generalizing j with
  | step call ih =>
      match call with
      | filter call =>
          rw [apply, ← FilterCall.onFilter_spelled? rfl, spelled?]
          cases call.spelled? <;> rfl
      | columns _ | fromEntity .. | toEntity .. | withAlias _ | withKind _ | link _ | linkTo .. =>
          rfl
      | linkNew calls =>
          have hcalls : ∀ join, applyAll (spelled calls) join = applyAll calls join :=
            applyAll_spelled_of_forall ih
          rw [spelled?, Option.elim_some, apply_linkNew, apply_linkNew, hcalls]
      | linkWith localAttribute remoteEntity remoteAttribute batch calls =>
          have hcalls : ∀ join, applyEach (spelled calls) join = applyEach calls join :=
            applyEach_spelled_of_forall ih
          rw [spelled?, Option.elim_some, apply_linkWith, apply_linkWith, hcalls]
      | tryLinkWith localAttribute remoteEntity remoteAttribute batch calls =>
          have hcalls : ∀ join, applyAll (spelled calls) join = applyAll calls join :=
            applyAll_spelled_of_forall ih
          rw [spelled?, Option.elim_some, apply_tryLinkWith, apply_tryLinkWith, hcalls]
      | attempt call =>
          rw [apply, ← ih call (List.mem_singleton.2 rfl), spelled?]
          cases call.spelled? <;> rfl

theorem applyAll_spelled (calls : List JoinCall) (j : JoinDraft) :
    applyAll (spelled calls) j = applyAll calls j :=
  applyAll_spelled_of_forall (fun call _ => call.apply_spelled?) j

theorem applyEach_spelled (calls : List JoinCall) (j : JoinDraft) :
    applyEach (spelled calls) j = applyEach calls j :=
  applyEach_spelled_of_forall (fun call _ => call.apply_spelled?) j

end JoinCall

/-! ## Programs on queries -/

namespace QueryCall

def spelled? : QueryCall → Option QueryCall
  | filter call => call.spelled?.map filter
  | linkNew calls => some (linkNew (JoinCall.spelled calls))
  | linkWith localAttribute remoteEntity remoteAttribute batch calls =>
      some (linkWith localAttribute remoteEntity remoteAttribute batch (JoinCall.spelled calls))
  | tryLinkWith localAttribute remoteEntity remoteAttribute batch calls =>
      some (tryLinkWith localAttribute remoteEntity remoteAttribute batch (JoinCall.spelled calls))
  | call => some call

def spelled (calls : List QueryCall) : List QueryCall := calls.filterMap spelled?

theorem apply_spelled? (call : QueryCall) (q : QueryDraft) :
    (call.spelled?.elim (.ok q) fun spelled => spelled.apply q) = call.apply q := by
  match call with
  | filter call =>
      rw [apply, ← FilterCall.onFilter_spelled? rfl, spelled?]
      cases call.spelled? <;> rfl
  | columns _ | forEntity _ | withConsistency _ | orderBy _ | page _ | link _ | linkTo .. => rfl
  | linkNew calls =>
      rw [spelled?, Option.elim_some, apply_linkNew, apply_linkNew, JoinCall.applyAll_spelled]
  | linkWith localAttribute remoteEntity remoteAttribute batch calls =>
      rw [spelled?, Option.elim_some, apply_linkWith, apply_linkWith, JoinCall.applyEach_spelled]
  | tryLinkWith localAttribute remoteEntity remoteAttribute batch calls =>
      rw [spelled?, Option.elim_some, apply_tryLinkWith, apply_tryLinkWith,
        JoinCall.applyAll_spelled]

theorem applyAll_spelled (calls : List QueryCall) (q : QueryDraft) :
    applyAll (spelled calls) q = applyAll calls q :=
  foldlM_filterMap_of_step (fun call _ => call.apply_spelled?) q

theorem applyEach_spelled (calls : List QueryCall) (q : QueryDraft) :
    applyEach (spelled calls) q = applyEach calls q :=
  foldl_filterMap_of_step (fun call _ => call.apply_spelled?) q

/-- A named condition is short for one checked call, which no draft refuses; so it does not panic.
Under a test it is short for that call or for nothing, as one run of the test decides on the value
as it was given.  No program on a filter, on a join or on a query panics, in groups and callbacks at
any depth, and whether it stops at a failure or skips it; it leaves the same draft and fails alike
when all its named conditions are spelled out. -/
theorem named_conditions_spelled_out :
    (∀ {α : Type} [Filtered α] (draft : α) (shortcut : Shortcut), ∃ changed,
      Filtered.addNamed draft shortcut = .ok changed ∧
      Filtered.onFilter draft shortcut.call.run = .ok changed) ∧
    (∀ {α τ : Type} {m : Type → Type} [Filtered α] [ToValue τ] [Monad m] [LawfulMonad m]
        (draft : α) (named : Value → Shortcut) (value : τ) (test : τ → m Bool),
      Except.map Except.ok <$> Filtered.addNamedIf draft named value test =
        (fun holds => .ok (if holds then
          Filtered.onFilter draft (named (toValue value)).call.run else .ok draft)) <$>
            test value) ∧
    (∀ (calls : List FilterCall) (f : FilterDraft),
      FilterCall.runAllOrPanic calls f = .ok (FilterCall.runAll (FilterCall.spelled calls) f)) ∧
    (∀ (calls : List JoinCall) (j : JoinDraft),
      (JoinCall.applyAllOrPanic calls j).run =
        .ok (JoinCall.applyAll (JoinCall.spelled calls) j) ∧
      JoinCall.applyEachOrPanic calls j = .ok (JoinCall.applyEach (JoinCall.spelled calls) j)) ∧
    ∀ (calls : List QueryCall) (q : QueryDraft),
      (applyAllOrPanic calls q).run = .ok (applyAll (spelled calls) q) ∧
      applyEachOrPanic calls q = .ok (applyEach (spelled calls) q) := by
  refine ⟨?accepted, Filtered.map_addNamedIf, ?filters, ?joins, ?queries⟩
  case accepted =>
    intro α _ draft shortcut
    exact ⟨_, Filtered.addNamed_eq draft shortcut, Filtered.onFilter_call draft shortcut⟩
  case filters =>
    intro calls f
    rw [FilterCall.runAllOrPanic_eq, FilterCall.runAll_spelled]
  case joins =>
    intro calls j
    rw [JoinCall.run_applyAllOrPanic, JoinCall.applyEachOrPanic_eq, JoinCall.applyAll_spelled,
      JoinCall.applyEach_spelled]
    exact ⟨rfl, rfl⟩
  case queries =>
    intro calls q
    rw [run_applyAllOrPanic, applyEachOrPanic_eq, applyAll_spelled, applyEach_spelled]
    exact ⟨rfl, rfl⟩

/-- A test that counts how often it is run. -/
def countedNonempty (text : String) : StateM Nat Bool := do
  modify (· + 1)
  return text ≠ ""

/-- Named conditions in a group that is given up, in one that is kept and in the callback of a link,
and under tests of either outcome. -/
def supplierCalls : List QueryCall :=
  [.filter (.named (.isIn "status" [])),
    .filter (.namedIf (.equals "name") (.string "") fun name => name ≠ .string ""),
    .filter (.attempt (.group .and [.named .active, .condition "name" .null (some (.bool true))])),
    .filter (.group .or [.named .createdToday, .named (.like "name" "A%")]),
    .linkWith "contactid" "contact" "contactid" []
      [.filter (.namedIf (.notEquals "city") (.string "Oslo") fun _ => true)]]

def checkedSupplierCalls : List QueryCall :=
  [.filter (.listCondition "status" .isIn []),
    .filter (.attempt (.group .and [.condition "statecode" .equal (some (.int32 0)),
      .condition "name" .null (some (.bool true))])),
    .filter (.group .or [.condition "createdon" .today none,
      .condition "name" .like (some (.string "A%"))]),
    .linkWith "contactid" "contact" "contactid" []
      [.filter (.condition "city" .notEqual (some (.string "Oslo")))]]

theorem named_conditions_spelled_out_supplierCalls :
    (Except.map Except.ok <$>
        Filtered.addNamedIf FilterDraft.empty (.equals "name") "Acme" countedNonempty :
        StateM Nat (Except Panic (Except BuildError FilterDraft))).run 0 =
      (.ok (Filtered.onFilter FilterDraft.empty
        (FilterCall.condition "name" .equal (some (.string "Acme"))).run), 1) ∧
    (∃ changed, Filtered.addNamed (QueryDraft.new "supplier") (.isIn "status" []) = .ok changed ∧
      Filtered.onFilter (QueryDraft.new "supplier")
        (FilterCall.listCondition "status" .isIn []).run = .ok changed) ∧
    applyEachOrPanic supplierCalls (.new "supplier") =
      .ok (applyEach checkedSupplierCalls (.new "supplier")) ∧
    (applyEach checkedSupplierCalls (.new "supplier")).filter.render =
      ⟨.and, [⟨"status", .isIn, []⟩],
        [⟨.or, [⟨"createdon", .today, []⟩, ⟨"name", .like, [.string "A%"]⟩], []⟩]⟩ := by
  obtain ⟨haccepted, htest, -, -, hqueries⟩ := named_conditions_spelled_out
  refine ⟨?_, haccepted _ (.isIn "status" []), (hqueries supplierCalls (.new "supplier")).2, rfl⟩
  rw [htest FilterDraft.empty (.equals "name") "Acme" countedNonempty]
  rfl

end QueryCall

end EntityQuery
