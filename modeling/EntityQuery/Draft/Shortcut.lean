import EntityQuery.Draft.FilterDraft
import EntityQuery.WellKnown

/-!
# Named conditions

The conditions that have a name of their own.  Each fixes an operator and passes operands to one of
three helpers, which append the condition with the usual check of its number of values.  A named
condition has no error to answer, so a helper panics when the check fails.  It never does: the
operators go with the operands.
-/

namespace EntityQuery

inductive Operands
  | none
  | one (value : Value)
  | many (values : List Value)
deriving DecidableEq

namespace Operands

def toList : Operands → List Value
  | none => []
  | one value => [value]
  | many values => values

def arity : Operands → Arity
  | none => .zero
  | one _ => .one
  | many _ => .many

end Operands

/-- A condition as it is asked for, with no check yet. -/
structure Clause where
  attr : String
  operator : Operator
  operands : Operands
deriving DecidableEq

inductive Shortcut
  | equals (attr : String) (value : Value)
  | notEquals (attr : String) (value : Value)
  | greaterThan (attr : String) (value : Value)
  | greaterEqual (attr : String) (value : Value)
  | lessThan (attr : String) (value : Value)
  | lessEqual (attr : String) (value : Value)
  | like (attr pattern : String)
  | isIn (attr : String) (values : List Value)
  | notIn (attr : String) (values : List Value)
  | isNull (attr : String)
  | notNull (attr : String)
  | isTrue (attr : String)
  | isFalse (attr : String)
  | today (attr : String)
  | yesterday (attr : String)
  | createdToday
  | createdYesterday
  | modifiedToday
  | modifiedYesterday
  | active
  | inactive
  /-- The state of an active record is kept in another attribute, or is another code. -/
  | activeWith (attr : String) (code : Int32)
  | inactiveWith (attr : String) (code : Int32)
deriving DecidableEq

namespace Shortcut

def clause : Shortcut → Clause
  | equals attr value => ⟨attr, .equal, .one value⟩
  | notEquals attr value => ⟨attr, .notEqual, .one value⟩
  | greaterThan attr value => ⟨attr, .greaterThan, .one value⟩
  | greaterEqual attr value => ⟨attr, .greaterEqual, .one value⟩
  | lessThan attr value => ⟨attr, .lessThan, .one value⟩
  | lessEqual attr value => ⟨attr, .lessEqual, .one value⟩
  | like attr pattern => ⟨attr, .like, .one (.string pattern)⟩
  | isIn attr values => ⟨attr, .isIn, .many values⟩
  | notIn attr values => ⟨attr, .notIn, .many values⟩
  | isNull attr => ⟨attr, .null, .none⟩
  | notNull attr => ⟨attr, .notNull, .none⟩
  | isTrue attr => ⟨attr, .equal, .one (.bool true)⟩
  | isFalse attr => ⟨attr, .equal, .one (.bool false)⟩
  | today attr => ⟨attr, .today, .none⟩
  | yesterday attr => ⟨attr, .yesterday, .none⟩
  | createdToday => ⟨WellKnown.createdOn, .today, .none⟩
  | createdYesterday => ⟨WellKnown.createdOn, .yesterday, .none⟩
  | modifiedToday => ⟨WellKnown.modifiedOn, .today, .none⟩
  | modifiedYesterday => ⟨WellKnown.modifiedOn, .yesterday, .none⟩
  | active => ⟨WellKnown.stateCode, .equal, .one (.int32 WellKnown.activeState)⟩
  | inactive => ⟨WellKnown.stateCode, .equal, .one (.int32 WellKnown.inactiveState)⟩
  | activeWith attr code => ⟨attr, .equal, .one (.int32 code)⟩
  | inactiveWith attr code => ⟨attr, .equal, .one (.int32 code)⟩

end Shortcut

namespace Filtered

variable {α : Type} [Filtered α]

/-- The draft after an addition that is not thought to fail. -/
def expectAdded (draft : α) : FilterDraft × Option BuildError → Except Panic α
  | (f, none) => .ok (withFilter draft f)
  | (_, some e) => .error (.unreachable e)

def withValue (draft : α) (attr : String) (operator : Operator) (value : Value) : Except Panic α :=
  expectAdded draft ((filter draft).addCondition attr operator (some value))

def withValues (draft : α) (attr : String) (operator : Operator) (values : List Value) :
    Except Panic α :=
  expectAdded draft ((filter draft).addListCondition attr operator values)

def withoutValue (draft : α) (attr : String) (operator : Operator) : Except Panic α :=
  expectAdded draft ((filter draft).addCondition attr operator none)

/-- Append a condition through the helper for its operands. -/
def addClause (draft : α) : Clause → Except Panic α
  | ⟨attr, operator, .one value⟩ => withValue draft attr operator value
  | ⟨attr, operator, .many values⟩ => withValues draft attr operator values
  | ⟨attr, operator, .none⟩ => withoutValue draft attr operator

def addNamed (draft : α) (shortcut : Shortcut) : Except Panic α := addClause draft shortcut.clause

/--
Add a named condition on a value if a test of that value succeeds.  The test runs once, at once,
and on the value as it was given.
-/
def addNamedIf [Monad m] [ToValue τ] (draft : α) (named : Value → Shortcut) (value : τ)
    (test : τ → m Bool) : m (Except Panic α) := do
  if ← test value then
    return addNamed draft (named (toValue value))
  else
    return .ok draft

end Filtered

/-! ## Named conditions do not panic -/

namespace Clause

def check : Clause → Except BuildError Criterion
  | ⟨attr, operator, .none⟩ => Criterion.single attr operator none
  | ⟨attr, operator, .one value⟩ => Criterion.single attr operator (some value)
  | ⟨attr, operator, .many values⟩ => Criterion.list attr operator values

/-- The operator takes as many values as the operands are. -/
def Fits (clause : Clause) : Prop := clause.operator.arity = clause.operands.arity

variable {clause : Clause}

theorem accepts_of_fits (h : clause.Fits) :
    clause.operator.arity.accepts clause.operands.toList.length = true := by
  rw [h]
  cases clause.operands <;> rfl

def criterion (clause : Clause) (h : clause.Fits) : Criterion :=
  ⟨⟨clause.attr, clause.operator, clause.operands.toList⟩, accepts_of_fits h⟩

theorem check_of_fits (h : clause.Fits) : clause.check = .ok (clause.criterion h) := by
  have haccepted := accepts_of_fits h
  obtain ⟨attr, operator, _ | value | values⟩ := clause
  · have harity : operator.arity = .zero := h
    exact (dif_pos haccepted).trans (if_neg (by simp [harity]))
  · have harity : operator.arity = .one := h
    exact (dif_pos haccepted).trans (if_neg (by simp [harity]))
  · have harity : operator.arity = .many := h
    exact dif_pos harity

end Clause

theorem Shortcut.fits (shortcut : Shortcut) : shortcut.clause.Fits := by
  cases shortcut <;> rfl

def Shortcut.criterion (shortcut : Shortcut) : Criterion :=
  shortcut.clause.criterion shortcut.fits

namespace Filtered

variable {α : Type} [Filtered α]

theorem addClause_eq (draft : α) (clause : Clause) :
    addClause draft clause = expectAdded draft ((filter draft).pushChecked clause.check) := by
  obtain ⟨attr, operator, _ | value | values⟩ := clause <;> rfl

theorem addNamed_eq_pushFilter (draft : α) (shortcut : Shortcut) :
    addNamed draft shortcut = .ok (pushFilter draft shortcut.criterion) := by
  rw [addNamed, addClause_eq, Clause.check_of_fits shortcut.fits]
  rfl

def withNamed (draft : α) (shortcut : Shortcut) : α :=
  (addNamed draft shortcut).toOption.get (by rw [addNamed_eq_pushFilter]; rfl)

theorem withNamed_eq (draft : α) (shortcut : Shortcut) :
    withNamed draft shortcut = pushFilter draft shortcut.criterion := by
  simp [withNamed, addNamed_eq_pushFilter, Except.toOption]

theorem addNamed_eq (draft : α) (shortcut : Shortcut) :
    addNamed draft shortcut = .ok (withNamed draft shortcut) := by
  rw [withNamed_eq, addNamed_eq_pushFilter]

end Filtered

end EntityQuery
