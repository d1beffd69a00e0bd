import EntityQuery.Proofs.Record.Reading
import EntityQuery.Service.OptionLabel

/-!
# Where the label of an option is looked up

The code of an option is read through the aliases of a value, but its label is looked up at the
entity of the record, under the name by which the record holds the value.  The innermost alias,
which names the entity and the attribute that the value came from, has no part in it.  So the label
of a joined attribute is looked up where the value came from only if that is the entity of the
record and the attribute has the very name under which the record holds it.
-/

namespace EntityQuery

variable {m : Type → Type} [Monad m]

/-- The entity and the attribute that a value came from, which its innermost alias names. -/
def AttributeValue.origin? : AttributeValue → Option (String × String)
  | aliased entity attr value => value.origin?.or (some (entity, attr))
  | _ => none

/-- The label of an option of an attribute of an entity: none if there are no options or none of
them has the code. -/
def labelAt (provide : OptionProvider m) (entity attr : String) (code : Int32) :
    m (Except ServiceError (Option String)) := do
  match ← provide entity attr with
  | .error e => return .error e
  | .ok none => return .ok none
  | .ok (some options) => return .ok (labelOf? options code)

namespace Record

variable {record : Record} {name : String} {value : AttributeValue} {code : Int32}

/-- The label of a code is looked up at the entity of the record, under the name of the value. -/
theorem optionLabel?_eq_labelAt (h : record.attribute? name = some value)
    (hcode : value.unaliased = .optionSet code) (provide : OptionProvider m) :
    record.optionLabel? name provide = labelAt provide record.logicalName name code := by
  have hcontains : record.contains name = true :=
    contains_iff.2 (Table.mem_keys_iff.2 ⟨value, h⟩)
  have hoption : record.optionCode? name = some code := by
    rw [optionCode?_eq_some_iff, plain?, h, Option.map_some, hcode]
  rw [optionLabel?, hcontains, hoption]
  rfl

end Record

/-! ## Questions -/

/-- A provider that knows no options and keeps what it was asked for. -/
def askedFor : OptionProvider (StateM (List (String × String))) := fun entity attr asked =>
  (.ok none, asked ++ [(entity, attr)])

theorem asked_labelAt (entity attr : String) (code : Int32) :
    (labelAt askedFor entity attr code).run [] = (.ok none, [(entity, attr)]) := rfl

/-- To ask every provider alike is to ask for the same attribute. -/
theorem labelAt_eq_iff {entity attr entity' attr' : String} {code : Int32} :
    (∀ (m : Type → Type) [Monad m] (provide : OptionProvider m),
      labelAt provide entity attr code = labelAt provide entity' attr' code) ↔
      entity = entity' ∧ attr = attr' := by
  constructor
  · intro h
    have hasked := congrArg (fun request => (request.run []).2) (h _ askedFor)
    rw [asked_labelAt, asked_labelAt] at hasked
    simpa using hasked
  · rintro ⟨rfl, rfl⟩ m _ provide
    rfl

namespace Record

variable {record : Record} {name entity attr : String} {value : AttributeValue} {code : Int32}

/-- The label of a joined option is looked up at the entity of the record and under the name of the
value, and where the value came from only if that is the same attribute. -/
theorem looks_up_origin_iff (h : record.attribute? name = some value)
    (hcode : value.unaliased = .optionSet code) (horigin : value.origin? = some (entity, attr)) :
    (∀ (m : Type → Type) [Monad m] (provide : OptionProvider m),
      record.optionLabel? name provide = labelAt provide record.logicalName name code) ∧
    ((∀ (m : Type → Type) [Monad m] (provide : OptionProvider m),
      record.optionLabel? name provide = labelAt provide entity attr code) ↔
        value.origin? = some (record.logicalName, name)) := by
  have hasked (m : Type → Type) [Monad m] (provide : OptionProvider m) :
      record.optionLabel? name provide = labelAt provide record.logicalName name code :=
    optionLabel?_eq_labelAt h hcode provide
  refine ⟨hasked, ?_⟩
  simp only [hasked]
  rw [labelAt_eq_iff, horigin, Option.some.injEq, Prod.mk.injEq]
  exact and_congr eq_comm eq_comm

def joinedInvoice : Record :=
  (new "invoice" .nil).withAliased "customer" "account" "statuscode" (.optionSet 2)

theorem looks_up_origin_iff_joinedInvoice : ∃ value,
    joinedInvoice.attribute? "customer.statuscode" = some value ∧
      value.unaliased = .optionSet 2 ∧ value.origin? = some ("account", "statuscode") ∧
      ∀ (m : Type → Type) [Monad m] (provide : OptionProvider m),
        joinedInvoice.optionLabel? "customer.statuscode" provide =
          labelAt provide "invoice" "customer.statuscode" 2 :=
  ⟨_, rfl, rfl, rfl, (looks_up_origin_iff rfl rfl rfl).1⟩

def accountStates : OptionProvider (StateM (List (String × String))) := fun entity attr asked =>
  (.ok (if entity = "account" ∧ attr = "statuscode" then
    some [⟨1, some "Active"⟩, ⟨2, some "Closed"⟩] else none), asked ++ [(entity, attr)])

/-- The state of the customer has a label, which is not found. -/
theorem label_lost_joinedInvoice :
    (∃ value, joinedInvoice.attribute? "customer.statuscode" = some value ∧
      value.unaliased = .optionSet 2 ∧ value.origin? = some ("account", "statuscode")) ∧
    (labelAt accountStates "account" "statuscode" 2).run [] =
      (.ok (some "Closed"), [("account", "statuscode")]) ∧
    (joinedInvoice.optionLabel? "customer.statuscode" accountStates).run [] =
      (.ok none, [("invoice", "customer.statuscode")]) :=
  ⟨⟨_, rfl, rfl, rfl⟩, rfl, rfl⟩

end Record

end EntityQuery
