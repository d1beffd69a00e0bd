import EntityQuery.Draft.BuildError
import EntityQuery.Plan.Filter

/-!
# Criteria

A criterion is a condition whose operator takes as many values as there are.  Two constructors
check that: `single` for operators with at most one value, and `list` for operators that take a
list.
-/

namespace EntityQuery

/-- A condition with a number of values that its operator takes. -/
structure Criterion extends Condition where
  accepted : operator.arity.accepts values.length = true
deriving DecidableEq

namespace Criterion

instance : BEq Criterion := ⟨fun a b => a.toCondition == b.toCondition⟩

/-- A criterion with at most one value.  Operators that take a list are refused. -/
def single (attr : String) (operator : Operator) (value : Option Value) :
    Except BuildError Criterion :=
  let values := value.toList
  if accepted : operator.arity.accepts values.length = true then
    if operator.arity = .many then .error (.operatorArity attr operator values.length)
    else .ok ⟨⟨attr, operator, values⟩, accepted⟩
  else
    .error (.operatorArity attr operator values.length)

/-- A criterion with a list of values, which may be empty.  Other operators are refused. -/
def list (attr : String) (operator : Operator) (values : List Value) :
    Except BuildError Criterion :=
  if arity_eq : operator.arity = .many then
    .ok ⟨⟨attr, operator, values⟩, by simp [arity_eq, Arity.accepts]⟩
  else
    .error (.operatorArity attr operator values.length)

end Criterion

end EntityQuery
