import EntityQuery.Draft.FilterCall
import EntityQuery.Proofs.Draft.Rendering

/-!
# Filters that calls build

A program of filter calls runs in place, may fail in the middle and may give up groups half built.
What it comes to can be read off the program without running it.  Only the calls that no attempt
encloses can make it fail, and the first of them that is refused gives the error.  Up to the call
that fails, each call adds the condition or the group that it stands for, and a group in which a
call fails adds nothing.

The run is compared with that reading by induction on a call, together with lists of calls: the
calls of a group run on a draft of their own, which is kept or dropped as a whole.
-/

namespace EntityQuery

/-! ## Filters that grow at their end -/

namespace Filter

/-- A filter with further conditions and nested filters. -/
def extend (f : Filter) (conditions : List Condition) (subfilters : List Filter) : Filter :=
  { f with
    conditions := f.conditions ++ conditions
    subfilters := f.subfilters ++ subfilters }

theorem extend_nil (f : Filter) : f.extend [] [] = f := by
  cases f
  simp [extend]

theorem extend_extend (f : Filter) (conditions conditions' : List Condition)
    (subfilters subfilters' : List Filter) :
    (f.extend conditions subfilters).extend conditions' subfilters' =
      f.extend (conditions ++ conditions') (subfilters ++ subfilters') := by
  simp [extend]

end Filter

namespace FilterDraft

theorem render_push (f : FilterDraft) (criterion : Criterion) :
    (f.push criterion).render = f.render.extend [criterion.toCondition] [] := by
  simp [render_eq, push, Filter.extend]

theorem pushChecked_spec (f : FilterDraft) (criterion : Except BuildError Criterion) :
    (f.pushChecked criterion).2 = failure? criterion ∧
      (f.pushChecked criterion).1.render =
        f.render.extend (criterion.toOption.map Criterion.toCondition).toList [] := by
  cases criterion with
  | error e => exact ⟨rfl, f.render.extend_nil.symm⟩
  | ok criterion => exact ⟨rfl, f.render_push criterion⟩

end FilterDraft

namespace FilterCall

/-! ## What a program comes to -/

/-- The error of a condition with a number of values that its operator does not take.  Operators
that take a list take it from a list alone. -/
def refusal? : FilterCall → Option BuildError
  | condition attr operator value =>
      if operator.arity ≠ .many ∧ operator.arity.accepts value.toList.length = true then none
      else some (.operatorArity attr operator value.toList.length)
  | listCondition attr operator values =>
      if operator.arity = .many then none
      else some (.operatorArity attr operator values.length)
  | _ => none

/-- The condition that a call adds at its own level. -/
def condition? : FilterCall → Option Condition
  | condition attr operator value =>
      if operator.arity ≠ .many ∧ operator.arity.accepts value.toList.length = true then
        some ⟨attr, operator, value.toList⟩
      else none
  | listCondition attr operator values =>
      if operator.arity = .many then some ⟨attr, operator, values⟩ else none
  | push criterion => some criterion.toCondition
  | named shortcut => some shortcut.criterion.toCondition
  | namedIf make value test =>
      if test value then some (make value).criterion.toCondition else none
  | group _ _ => none
  | attempt call => call.condition?

mutual

/-- The calls, groups opened up, whose failure no attempt ignores, in the order they are made in. -/
def exposed : FilterCall → List FilterCall
  | group _ calls => exposedAll calls
  | attempt _ => []
  | call => [call]

def exposedAll : List FilterCall → List FilterCall
  | [] => []
  | call :: calls => call.exposed ++ exposedAll calls

end

def error? (calls : List FilterCall) : Option BuildError := (exposedAll calls).findSome? refusal?

mutual

/-- The nested filter that a call adds, unless a call of its group fails. -/
def subfilter? : FilterCall → Option Filter
  | group combinator calls =>
      if error? calls = none then
        some ⟨combinator, calls.filterMap condition?, subfilters calls⟩
      else none
  | attempt call => call.subfilter?
  | _ => none

def subfilters : List FilterCall → List Filter
  | [] => []
  | call :: calls => call.subfilter?.toList ++ subfilters calls

end

def made (calls : List FilterCall) : List FilterCall :=
  calls.takeWhile fun call => (error? [call]).isNone

theorem exposedAll_singleton (call : FilterCall) : exposedAll [call] = call.exposed := by
  rw [exposedAll, exposedAll, List.append_nil]

theorem subfilters_eq_filterMap (calls : List FilterCall) :
    subfilters calls = calls.filterMap subfilter? := by
  induction calls with
  | nil => rfl
  | cons call calls ih =>
      rw [subfilters, ih, List.filterMap_eq_flatMap_toList, List.filterMap_eq_flatMap_toList,
        List.flatMap_cons]

theorem error?_cons (call : FilterCall) (calls : List FilterCall) :
    error? (call :: calls) = (error? [call]).or (error? calls) := by
  rw [error?, error?, error?, exposedAll, exposedAll_singleton, List.findSome?_append]

theorem made_cons_of_none {call : FilterCall} (calls : List FilterCall)
    (h : error? [call] = none) : made (call :: calls) = call :: made calls := by
  simp [made, h]

theorem made_cons_of_some {call : FilterCall} {e : BuildError} (calls : List FilterCall)
    (h : error? [call] = some e) : made (call :: calls) = [] := by
  simp [made, h]

theorem made_of_error?_eq_none {calls : List FilterCall} (h : error? calls = none) :
    made calls = calls := by
  induction calls with
  | nil => rfl
  | cons call calls ih =>
      rw [error?_cons, Option.or_eq_none_iff] at h
      rw [made_cons_of_none calls h.1, ih h.2]

/-! ## Conditions -/

theorem failure?_single (attr : String) (operator : Operator) (value : Option Value) :
    failure? (Criterion.single attr operator value) =
      (condition attr operator value).refusal? := by
  unfold Criterion.single refusal?
  by_cases haccepts : operator.arity.accepts value.toList.length = true
  · by_cases hmany : operator.arity = .many
    · simp [hmany, Arity.accepts, failure?]
    · simp [hmany, haccepts, failure?]
  · simp [haccepts, failure?]

theorem condition?_single (attr : String) (operator : Operator) (value : Option Value) :
    (Criterion.single attr operator value).toOption.map Criterion.toCondition =
      (condition attr operator value).condition? := by
  unfold Criterion.single condition?
  by_cases haccepts : operator.arity.accepts value.toList.length = true
  · by_cases hmany : operator.arity = .many
    · simp [hmany, Arity.accepts, Except.toOption]
    · simp [hmany, haccepts, Except.toOption]
  · simp [haccepts, Except.toOption]

theorem failure?_list (attr : String) (operator : Operator) (values : List Value) :
    failure? (Criterion.list attr operator values) =
      (listCondition attr operator values).refusal? := by
  unfold Criterion.list refusal?
  by_cases hmany : operator.arity = .many
  · simp [hmany, failure?]
  · simp [hmany, failure?]

theorem condition?_list (attr : String) (operator : Operator) (values : List Value) :
    (Criterion.list attr operator values).toOption.map Criterion.toCondition =
      (listCondition attr operator values).condition? := by
  unfold Criterion.list condition?
  by_cases hmany : operator.arity = .many
  · simp [hmany, Except.toOption]
  · simp [hmany, Except.toOption]

/-! ## Runs -/

theorem run_of_error {call : FilterCall} {f : FilterDraft} {e : BuildError}
    (h : (call.run f).2 = some e) : (call.run f).1 = f := by
  have hchecked : ∀ criterion : Except BuildError Criterion,
      (f.pushChecked criterion).2 = some e → (f.pushChecked criterion).1 = f := by
    intro criterion hfails
    cases criterion with
    | error _ => rfl
    | ok _ => cases hfails
  match call with
  | condition attr operator value => exact hchecked _ h
  | listCondition attr operator values => exact hchecked _ h
  | push criterion => cases h
  | named shortcut => cases h
  | namedIf make value test => cases h
  | group combinator calls =>
      rw [run, FilterDraft.addGroup] at h ⊢
      cases hgroup : runAll calls (.empty combinator) with
      | mk child failed =>
          rw [hgroup] at h
          cases failed with
          | none => cases h
          | some e' => rfl
  | attempt call => cases h

mutual

/-- A call fails and adds as can be read off it. -/
theorem run_spec (call : FilterCall) (f : FilterDraft) :
    (call.run f).2 = error? [call] ∧
      (call.run f).1.render = f.render.extend call.condition?.toList call.subfilter?.toList := by
  rw [error?, exposedAll_singleton]
  match call with
  | condition attr operator value =>
      obtain ⟨herror, hrender⟩ := f.pushChecked_spec (Criterion.single attr operator value)
      rw [failure?_single] at herror
      rw [condition?_single] at hrender
      exact ⟨herror.trans List.findSome?_singleton.symm, hrender⟩
  | listCondition attr operator values =>
      obtain ⟨herror, hrender⟩ := f.pushChecked_spec (Criterion.list attr operator values)
      rw [failure?_list] at herror
      rw [condition?_list] at hrender
      exact ⟨herror.trans List.findSome?_singleton.symm, hrender⟩
  | push criterion => exact ⟨rfl, f.render_push criterion⟩
  | named shortcut =>
      rw [run_named]
      exact ⟨rfl, f.render_push shortcut.criterion⟩
  | namedIf make value test =>
      rw [run_namedIf]
      refine ⟨rfl, ?_⟩
      rw [condition?]
      split
      · exact f.render_push (make value).criterion
      · exact f.render.extend_nil.symm
  | group combinator calls =>
      obtain ⟨herror, hrender⟩ := runAll_spec calls (.empty combinator)
      rw [run, FilterDraft.addGroup, exposed, subfilter?, condition?, ← error?, ← herror]
      cases hgroup : runAll calls (.empty combinator) with
      | mk child failed =>
          rw [hgroup] at herror hrender
          cases failed with
          | some e => exact ⟨rfl, f.render.extend_nil.symm⟩
          | none =>
              -- Nothing failed, so that the child holds what all calls of the group stand for.
              rw [made_of_error?_eq_none herror.symm] at hrender
              have hchild : child.render =
                  ⟨combinator, calls.filterMap condition?, subfilters calls⟩ := by
                rw [hrender, subfilters_eq_filterMap]
                rfl
              refine ⟨rfl, ?_⟩
              simp [FilterDraft.render_eq, Filter.extend, ← hchild]
  | attempt call =>
      obtain ⟨-, hrender⟩ := run_spec call f
      exact ⟨rfl, hrender⟩

theorem runAll_spec (calls : List FilterCall) (f : FilterDraft) :
    (runAll calls f).2 = error? calls ∧
      (runAll calls f).1.render = f.render.extend ((made calls).filterMap condition?)
        ((made calls).filterMap subfilter?) := by
  match calls with
  | [] => exact ⟨rfl, f.render.extend_nil.symm⟩
  | call :: calls =>
      obtain ⟨herror, hrender⟩ := run_spec call f
      have hkept : ∀ e, (call.run f).2 = some e → (call.run f).1 = f := fun _ => run_of_error
      rw [runAll, error?_cons, ← herror]
      cases hcall : call.run f with
      | mk changed failed =>
          rw [hcall] at herror hrender hkept
          cases failed with
          | some e =>
              have hchanged : changed = f := hkept e rfl
              rw [made_cons_of_some calls herror.symm, hchanged]
              exact ⟨rfl, f.render.extend_nil.symm⟩
          | none =>
              obtain ⟨hlater, hrest⟩ := runAll_spec calls changed
              rw [made_cons_of_none calls herror.symm]
              refine ⟨hlater, ?_⟩
              rw [hrest, hrender, Filter.extend_extend]
              simp only [List.filterMap_eq_flatMap_toList, List.flatMap_cons]

end

/-- A call that fails leaves its draft as it was, however much of a group was built by then.  A
program fails with the error of the first call that is refused and that no attempt encloses.  It
leaves what was in the draft in front, and adds in the order of the calls, up to the one that fails,
the conditions that are accepted and the groups without a failure, which are built alike. -/
theorem runAll_adds_accepted :
    (∀ (call : FilterCall) (f : FilterDraft) (e : BuildError),
      (call.run f).2 = some e → (call.run f).1 = f) ∧
    (∀ (calls : List FilterCall) (f : FilterDraft),
      (runAll calls f).2 = (exposedAll calls).findSome? refusal? ∧
      (runAll calls f).1.render =
        { combinator := f.combinator
          conditions := f.render.conditions ++ (made calls).filterMap condition?
          subfilters := f.render.subfilters ++ (made calls).filterMap subfilter? }) ∧
    ∀ (combinator : Combinator) (calls : List FilterCall),
      (group combinator calls).subfilter? =
        if (exposedAll calls).findSome? refusal? = none then
          some ⟨combinator, calls.filterMap condition?, calls.filterMap subfilter?⟩
        else none := by
  refine ⟨fun call f e => run_of_error, ?_, ?_⟩
  · intro calls f
    obtain ⟨herror, hrender⟩ := runAll_spec calls f
    refine ⟨herror, ?_⟩
    rw [hrender, Filter.extend, FilterDraft.render_eq]
  · intro combinator calls
    rw [subfilter?, subfilters_eq_filterMap]
    rfl

def failingGroup : FilterCall :=
  .group .and [.named .active, .listCondition "status" .equal [.bool true, .bool false]]

/-- A failure that is ignored around a group, one that is ignored inside a group, and one that stops
the calls. -/
def statusCalls : List FilterCall :=
  [.attempt (.group .or [.named .active, failingGroup, .named .createdToday]),
    .group .or [.attempt (.condition "createdon" .today (some (.bool true))),
      .group .and [.listCondition "status" .isIn []]],
    .named (.notNull "name"), failingGroup, .named .inactive]

theorem runAll_adds_accepted_statusCalls :
    (failingGroup.run .empty).1 = .empty ∧
      (runAll statusCalls .empty).2 = some (.operatorArity "status" .equal 2) ∧
      (runAll statusCalls .empty).1.render =
        { combinator := .and
          conditions := [⟨"name", .notNull, []⟩]
          subfilters := [⟨.or, [], [⟨.and, [⟨"status", .isIn, []⟩], []⟩]⟩] } := by
  obtain ⟨hkept, hruns, -⟩ := runAll_adds_accepted
  obtain ⟨herror, hrender⟩ := hruns statusCalls .empty
  exact ⟨hkept failingGroup .empty (.operatorArity "status" .equal 2) rfl, herror, hrender⟩

end FilterCall

end EntityQuery
