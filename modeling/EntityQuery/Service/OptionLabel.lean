import EntityQuery.Service.Retrieval

/-!
# Labels of options

A record holds the code of an option; its label is metadata of the attribute, which a service
provides by entity and attribute.
-/

namespace EntityQuery

structure OptionLabel where
  code : Int32
  label : Option String
deriving DecidableEq

/-- A service that knows the options of attributes; `none` for an attribute without options. -/
abbrev OptionProvider (m : Type → Type) :=
  String → String → m (Except ServiceError (Option (List OptionLabel)))

/-- The label of the first option with a code. -/
def labelOf? (options : List OptionLabel) (code : Int32) : Option String :=
  (options.find? (·.code = code)).bind OptionLabel.label

/--
The label of the option that an attribute of a record holds.  The provider is asked for the entity
of the record and the name of the attribute, and only when the attribute holds an option.
-/
def Record.optionLabel? [Monad m] (record : Record) (name : String) (provide : OptionProvider m) :
    m (Except ServiceError (Option String)) :=
  if record.contains name then
    match record.optionCode? name with
    | none => return .error (.record (.typeMismatch name "option set"))
    | some code => do
        match ← provide record.logicalName name with
        | .error e => return .error e
        | .ok none => return .ok none
        | .ok (some options) => return .ok (labelOf? options code)
  else
    return .ok none

end EntityQuery
