import EntityQuery.Operator

/-!
# Errors of drafts

Why a call on a draft fails, or a draft cannot be rendered.  A failure is an answer of the call, and
its caller may go on; a panic ends the program.
-/

namespace EntityQuery

inductive JoinSide
  | source
  | target
deriving DecidableEq

inductive BuildError
  | operatorArity (attr : String) (operator : Operator) (actual : Nat)
  | incompleteJoin (localAttribute remoteEntity : String) (missing : JoinSide)
  | duplicateColumn (column : String)
deriving DecidableEq

def JoinSide.name : JoinSide → String
  | source => "from"
  | target => "to"

def BuildError.message : BuildError → String
  | operatorArity attr operator actual =>
      "operator " ++ operator.label ++ " on attribute '" ++ attr ++ "' takes " ++
        operator.arity.phrase ++ ", got " ++ toString actual ++ " value(s)"
  | incompleteJoin localAttribute remoteEntity missing =>
      "join '" ++ localAttribute ++ "' -> '" ++ remoteEntity ++ "' is missing its " ++
        missing.name ++ " side"
  | duplicateColumn column => "column '" ++ column ++ "' is already in the column set"

/-- The end of a program at a point that was thought to be out of reach.  No call catches it. -/
structure Panic where
  message : String
deriving DecidableEq

def Panic.unreachable (e : BuildError) : Panic :=
  ⟨"internal error: entered unreachable code: " ++ e.message⟩

/-- Computations that fail, or panic. -/
abbrev Building := ExceptT BuildError (Except Panic)

end EntityQuery
