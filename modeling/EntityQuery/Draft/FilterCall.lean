import EntityQuery.Draft.Shortcut

/-!
# Calls on filters

The calls that build a filter, as data.  Calls run in place: each leaves the draft as it is
afterwards, and an error if it failed.  A list of calls stops at the first that fails; a call that
is attempted never fails.  A panic is no failure: it ends all calls around it, attempted or not.
Since named conditions do not panic, the calls also have a run that answers in any case.
-/

namespace EntityQuery

inductive FilterCall
  | condition (attr : String) (operator : Operator) (value : Option Value)
  | listCondition (attr : String) (operator : Operator) (values : List Value)
  | push (criterion : Criterion)
  | named (shortcut : Shortcut)
  /-- A named condition on a value, provided that a test of the value succeeds. -/
  | namedIf (named : Value → Shortcut) (value : Value) (test : Value → Bool)
  /-- A group, which is built by calls of its own. -/
  | group (combinator : Combinator) (calls : List FilterCall)
  /-- A call whose failure is ignored. -/
  | attempt (call : FilterCall)

namespace FilterCall

mutual

/-- Run a call in place, which ends in a panic if a named condition panics. -/
def runOrPanic : FilterCall → FilterDraft → Except Panic (FilterDraft × Option BuildError)
  | condition attr operator value, f => return f.addCondition attr operator value
  | listCondition attr operator values, f => return f.addListCondition attr operator values
  | push criterion, f => return (f.push criterion, none)
  | named shortcut, f => return (← Filtered.addNamed f shortcut, none)
  | namedIf make value test, f =>
      return (← Id.run (Filtered.addNamedIf f make value fun v => pure (test v)), none)
  | group combinator calls, f => do
      let built ← runAllOrPanic calls (.empty combinator)
      return f.addGroup combinator fun _ => built
  | attempt call, f => return ((← runOrPanic call f).1, none)

def runAllOrPanic :
    List FilterCall → FilterDraft → Except Panic (FilterDraft × Option BuildError)
  | [], f => return (f, none)
  | call :: calls, f => do
      match ← runOrPanic call f with
      | (f, none) => runAllOrPanic calls f
      | (f, some e) => return (f, some e)

end

mutual

def run : FilterCall → FilterDraft → FilterDraft × Option BuildError
  | condition attr operator value, f => f.addCondition attr operator value
  | listCondition attr operator values, f => f.addListCondition attr operator values
  | push criterion, f => (f.push criterion, none)
  | named shortcut, f => (Filtered.withNamed f shortcut, none)
  | namedIf make value test, f =>
      (if test value then Filtered.withNamed f (make value) else f, none)
  | group combinator calls, f => f.addGroup combinator fun child => runAll calls child
  | attempt call, f => ((run call f).1, none)

def runAll : List FilterCall → FilterDraft → FilterDraft × Option BuildError
  | [], f => (f, none)
  | call :: calls, f =>
      match run call f with
      | (f, none) => runAll calls f
      | (f, some e) => (f, some e)

end

theorem run_named (shortcut : Shortcut) (f : FilterDraft) :
    (named shortcut).run f = (f.push shortcut.criterion, none) := by
  rw [run, Filtered.withNamed_eq]
  rfl

theorem run_namedIf (make : Value → Shortcut) (value : Value) (test : Value → Bool)
    (f : FilterDraft) : (namedIf make value test).run f =
      (if test value then f.push (make value).criterion else f, none) := by
  rw [run, Filtered.withNamed_eq]
  rfl

end FilterCall

end EntityQuery
