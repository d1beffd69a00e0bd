import EntityQuery.Proofs.Scalar.Amount
import EntityQuery.Proofs.Table
import EntityQuery.Record

/-!
# Reads of one attribute

A read takes the aliases off a value before it looks at the kind, so that all it sees of a record is
the value without them.  Every read is an equation in what is seen, and a value that is aliased any
further reads as before, of whatever type.

A read that has to succeed is the read that may fail, with an error that tells which of two things
went wrong.  Where a value has several types, what is read of it in a wider type is the same number,
amount or identifier.
-/

namespace EntityQuery

/-! ## Aliases -/

namespace AttributeValue

/-- A value that came through some further attributes, which are given from the outermost to the
innermost by their entities and names. -/
def through (layers : List (String × String)) (value : AttributeValue) : AttributeValue :=
  layers.foldr (fun layer below => .aliased layer.1 layer.2 below) value

theorem unaliased_through (layers : List (String × String)) (value : AttributeValue) :
    (value.through layers).unaliased = value.unaliased := by
  induction layers with
  | nil => rfl
  | cons layer layers ih => exact ih

theorem unaliased_ne_aliased (value below : AttributeValue) (entity attr : String) :
    value.unaliased ≠ .aliased entity attr below := by
  induction value with
  | aliased _ _ value ih => exact ih
  | _ => exact nofun

/-- Every value is what it is without its aliases, aliased again. -/
theorem exists_through (value : AttributeValue) :
    ∃ layers, value = value.unaliased.through layers := by
  induction value with
  | aliased entity attr value ih =>
      obtain ⟨layers, hlayers⟩ := ih
      exact ⟨(entity, attr) :: layers, congrArg (aliased entity attr) hlayers⟩
  | _ => exact ⟨[], rfl⟩

theorem unaliased_eq_iff {value plain : AttributeValue} (h : plain.unaliased = plain) :
    value.unaliased = plain ↔ ∃ layers, value = plain.through layers := by
  constructor
  · rintro rfl
    exact value.exists_through
  · rintro ⟨layers, rfl⟩
    rw [unaliased_through, h]

end AttributeValue

/-! ## Wider types -/

namespace Value

variable {v : Value}

theorem int64?_of_int32? {n : Int32} (h : v.int32? = some n) : v.int64? = some n.toInt64 := by
  cases v with
  | int32 k =>
      cases h
      rfl
  | _ => cases h

theorem decimal?_of_int64? {n : Int64} (h : v.int64? = some n) :
    v.decimal? = some (.ofInt64 n) := by
  cases v with
  | int32 k =>
      cases h
      exact congrArg some (Decimal.ofInt32_eq k)
  | int64 k =>
      cases h
      rfl
  | _ => cases h

end Value

namespace Reading

variable {value : AttributeValue}

theorem readPlain?_int64_of_int32 {n : Int32} (h : int32.readPlain? value = some n) :
    int64.readPlain? value = some n.toInt64 := by
  cases value with
  | scalar v => exact Value.int64?_of_int32? h
  | _ => cases h

theorem readPlain?_decimal_of_int64 {n : Int64} (h : int64.readPlain? value = some n) :
    decimal.readPlain? value = some (Decimal.ofInt64 n) := by
  cases value with
  | scalar v => exact Value.decimal?_of_int64? h
  | _ => cases h

theorem readPlain?_uuid_of_reference {target : EntityReference}
    (h : reference.readPlain? value = some target) : uuid.readPlain? value = some target.id := by
  cases value with
  | reference _ =>
      cases h
      rfl
  | _ => cases h

end Reading

namespace Record

variable {record : Record} {name : String} {value : AttributeValue}

/-! ## What a read sees -/

def plain? (record : Record) (name : String) : Option AttributeValue :=
  (record.attribute? name).map AttributeValue.unaliased

theorem plain?_eq_none_iff : record.plain? name = none ↔ name ∉ record.attributes.keys := by
  rw [plain?, Option.map_eq_none_iff]
  exact Table.get?_eq_none_iff

theorem plain?_eq_some_iff {plain : AttributeValue} (h : plain.unaliased = plain) :
    record.plain? name = some plain ↔
      ∃ layers, record.attribute? name = some (plain.through layers) := by
  simp only [plain?, Option.map_eq_some_iff, AttributeValue.unaliased_eq_iff h]
  constructor
  · rintro ⟨_, hvalue, layers, rfl⟩
    exact ⟨layers, hvalue⟩
  · rintro ⟨layers, hvalue⟩
    exact ⟨_, hvalue, layers, rfl⟩

/-- A kind of value that is alone in giving a result is what was seen. -/
theorem bind_eq_some_iff_of {β : Type} {f : AttributeValue → Option β} {plain : AttributeValue}
    {b : β} (hf : ∀ value, f value = some b ↔ value = plain) {seen : Option AttributeValue} :
    seen.bind f = some b ↔ seen = some plain := by
  simp only [Option.bind_eq_some_iff, hf, exists_eq_right]

theorem contains_iff : record.contains name = true ↔ name ∈ record.attributes.keys := by
  rw [contains, Table.contains, Option.isSome_iff_ne_none, ne_eq, Table.get?_eq_none_iff, not_not]

theorem get?_eq_plain (record : Record) (reading : Reading) (name : String) :
    record.get? reading name = (record.plain? name).bind reading.readPlain? := by
  rw [get?, plain?, Option.bind_map]
  rfl

theorem get?_anyValue (record : Record) (name : String) :
    record.get? .anyValue name = record.plain? name := by
  rw [get?_eq_plain]
  cases record.plain? name <;> rfl

theorem money?_eq_plain (record : Record) (name : String) :
    record.money? name = (record.plain? name).bind fun
      | .money amount => some amount
      | _ => none := by
  rw [money?, plain?, Option.bind_map]
  rfl

theorem money?_eq_some_iff {amount : Decimal} :
    record.money? name = some amount ↔ record.plain? name = some (.money amount) := by
  rw [money?_eq_plain]
  exact bind_eq_some_iff_of fun value => by cases value <;> simp

theorem optionCode?_eq_plain (record : Record) (name : String) :
    record.optionCode? name = (record.plain? name).bind fun
      | .optionSet code => some code
      | _ => none := by
  rw [optionCode?, plain?, Option.bind_map]
  rfl

theorem optionCode?_eq_some_iff {code : Int32} :
    record.optionCode? name = some code ↔ record.plain? name = some (.optionSet code) := by
  rw [optionCode?_eq_plain]
  exact bind_eq_some_iff_of fun value => by cases value <;> simp

/-- A required read fails for want of a value, or of one of its type. -/
theorem require_eq_plain (record : Record) (reading : Reading) (name : String) :
    record.require reading name =
      match record.plain? name with
      | none => .error (.missingAttribute name record.logicalName record.id)
      | some value =>
          match reading.readPlain? value with
          | none => .error (.typeMismatch name reading.expected)
          | some result => .ok result := by
  rw [require, plain?]
  cases record.attribute? name <;> rfl

/-- To alias the value of an attribute further is not seen under any name. -/
theorem plain?_withAttribute_through (h : record.attribute? name = some value)
    (layers : List (String × String)) (other : String) :
    (record.withAttribute name (value.through layers)).plain? other = record.plain? other := by
  have hwritten : (record.withAttribute name (value.through layers)).attribute? other =
      if other = name then some (value.through layers) else record.attribute? other :=
    Table.get?_insert ..
  rw [plain?, plain?, hwritten]
  split
  · next heq => rw [heq, h, Option.map_some, Option.map_some, AttributeValue.unaliased_through]
  · rfl

/-! ## Required reads -/

section Require

variable {reading : Reading} {attr logicalName expected : String} {id : Uuid}

theorem require_eq_ok_iff {result : reading.Result} :
    record.require reading name = .ok result ↔ record.get? reading name = some result := by
  rw [require_eq_plain, get?_eq_plain]
  cases record.plain? name with
  | none => simp
  | some value =>
      dsimp only [Option.bind_some]
      cases reading.readPlain? value <;> simp

theorem require_eq_missing_iff :
    record.require reading name = .error (.missingAttribute attr logicalName id) ↔
      name ∉ record.attributes.keys ∧
        attr = name ∧ logicalName = record.logicalName ∧ id = record.id := by
  rw [require_eq_plain, ← plain?_eq_none_iff]
  cases record.plain? name with
  | none => simp [eq_comm]
  | some value =>
      dsimp only
      cases reading.readPlain? value <;> simp

theorem require_eq_mismatch_iff :
    record.require reading name = .error (.typeMismatch attr expected) ↔
      name ∈ record.attributes.keys ∧ record.get? reading name = none ∧
        attr = name ∧ expected = reading.expected := by
  have hpresent : name ∈ record.attributes.keys ↔ record.plain? name ≠ none := by
    rw [ne_eq, plain?_eq_none_iff, not_not]
  rw [require_eq_plain, get?_eq_plain, hpresent]
  cases record.plain? name with
  | none => simp
  | some value =>
      dsimp only [Option.bind_some]
      cases reading.readPlain? value <;> simp [eq_comm]

end Require

/-! ## One attribute in several types -/

/-- What every value gives in two types is what every attribute gives in them. -/
theorem get?_of_readPlain? {r s : Reading} {f : r.Result → s.Result} {x : r.Result}
    (hread : ∀ {value x}, r.readPlain? value = some x → s.readPlain? value = some (f x))
    (h : record.get? r name = some x) : record.get? s name = some (f x) := by
  rw [get?_eq_plain, Option.bind_eq_some_iff] at h ⊢
  obtain ⟨value, hvalue, hx⟩ := h
  exact ⟨value, hvalue, hread hx⟩

theorem get?_int64_of_int32 {n : Int32} (h : record.get? .int32 name = some n) :
    record.get? .int64 name = some n.toInt64 :=
  get?_of_readPlain? Reading.readPlain?_int64_of_int32 h

theorem get?_decimal_of_int64 {n : Int64} (h : record.get? .int64 name = some n) :
    record.get? .decimal name = some (Decimal.ofInt64 n) :=
  get?_of_readPlain? Reading.readPlain?_decimal_of_int64 h

theorem get?_uuid_of_reference {target : EntityReference}
    (h : record.get? .reference name = some target) : record.get? .uuid name = some target.id :=
  get?_of_readPlain? Reading.readPlain?_uuid_of_reference h

theorem get?_decimal_of_money? {amount : Decimal} (h : record.money? name = some amount) :
    record.get? .decimal name = some amount := by
  rw [get?_eq_plain, money?_eq_some_iff.1 h]
  rfl

/-! ## Coherence -/

/-- What the reads of an attribute have to do with each other and with what the record holds. -/
structure CoherentAt (record : Record) (name : String) : Prop where
  contains : record.contains name = true ↔ name ∈ record.attributes.keys
  require_ok (reading : Reading) (result : reading.Result) :
    record.require reading name = .ok result ↔ record.get? reading name = some result
  require_missing (reading : Reading) (attr logicalName : String) (id : Uuid) :
    record.require reading name = .error (.missingAttribute attr logicalName id) ↔
      name ∉ record.attributes.keys ∧
        attr = name ∧ logicalName = record.logicalName ∧ id = record.id
  require_mismatch (reading : Reading) (attr expected : String) :
    record.require reading name = .error (.typeMismatch attr expected) ↔
      name ∈ record.attributes.keys ∧ record.get? reading name = none ∧
        attr = name ∧ expected = reading.expected
  /-- Any value will do where none is expected in particular. -/
  no_mismatch (attr expected : String) :
    record.require .anyValue name ≠ .error (.typeMismatch attr expected)
  not_aliased (entity attr : String) (below : AttributeValue) :
    record.get? .anyValue name ≠ some (.aliased entity attr below)
  /-- A value that is aliased any number of times more reads the same, and so do all others. -/
  through (value : AttributeValue) (layers : List (String × String))
    (h : record.attribute? name = some value) (other : String) :
    let further := record.withAttribute name (value.through layers)
    (∀ reading, further.get? reading other = record.get? reading other) ∧
      (∀ reading, further.require reading other = record.require reading other) ∧
      further.money? other = record.money? other ∧
      further.optionCode? other = record.optionCode? other
  /-- Money and options are read of values of their own kind alone. -/
  money (amount : Decimal) : record.money? name = some amount ↔
    ∃ layers, record.attribute? name = some (.through layers (.money amount))
  optionCode (code : Int32) : record.optionCode? name = some code ↔
    ∃ layers, record.attribute? name = some (.through layers (.optionSet code))
  int64_of_int32 (n : Int32) (h : record.get? .int32 name = some n) :
    ∃ wide : Int64, record.get? .int64 name = some wide ∧ wide.toInt = n.toInt
  decimal_of_int32 (n : Int32) (h : record.get? .int32 name = some n) :
    ∃ d : Decimal, record.get? .decimal name = some d ∧ d.scale = 0 ∧ d.amount = n.toInt
  decimal_of_int64 (n : Int64) (h : record.get? .int64 name = some n) :
    ∃ d : Decimal, record.get? .decimal name = some d ∧ d.scale = 0 ∧ d.amount = n.toInt
  decimal_of_money (amount : Decimal) (h : record.money? name = some amount) :
    record.get? .decimal name = some amount
  uuid_of_reference (target : EntityReference) (h : record.get? .reference name = some target) :
    record.get? .uuid name = some target.id

/-- The reads of every attribute of every record fit together. -/
theorem coherentAt (record : Record) (name : String) : CoherentAt record name where
  contains := contains_iff
  require_ok _ _ := require_eq_ok_iff
  require_missing _ _ _ _ := require_eq_missing_iff
  require_mismatch _ _ _ := require_eq_mismatch_iff
  no_mismatch attr expected h := by
    obtain ⟨hmem, hnone, -⟩ := require_eq_mismatch_iff.1 h
    rw [get?_anyValue, plain?_eq_none_iff] at hnone
    exact hnone hmem
  not_aliased entity attr below h := by
    rw [get?_anyValue, plain?, Option.map_eq_some_iff] at h
    obtain ⟨value, -, hplain⟩ := h
    exact value.unaliased_ne_aliased below entity attr hplain
  through value layers h other := by
    have hseen := plain?_withAttribute_through h layers other
    refine ⟨fun reading => ?_, fun reading => ?_, ?_, ?_⟩
    · rw [get?_eq_plain, get?_eq_plain, hseen]
    · rw [require_eq_plain, require_eq_plain, hseen]
      rfl
    · rw [money?_eq_plain, money?_eq_plain, hseen]
    · rw [optionCode?_eq_plain, optionCode?_eq_plain, hseen]
  money _ := money?_eq_some_iff.trans (plain?_eq_some_iff rfl)
  optionCode _ := optionCode?_eq_some_iff.trans (plain?_eq_some_iff rfl)
  int64_of_int32 n h := ⟨n.toInt64, get?_int64_of_int32 h, Int32.toInt_toInt64 n⟩
  decimal_of_int32 n h := by
    refine ⟨_, get?_decimal_of_int64 (get?_int64_of_int32 h), rfl, ?_⟩
    rw [Decimal.amount_ofInt64, Int32.toInt_toInt64]
  decimal_of_int64 n h := ⟨_, get?_decimal_of_int64 h, rfl, Decimal.amount_ofInt64 n⟩
  decimal_of_money _ := get?_decimal_of_money?
  uuid_of_reference _ := get?_uuid_of_reference

def pricedOrder : Record :=
  (new "order" .nil)
    |>.withAttribute "pieces"
      (.through [("line", "amount"), ("item", "pieces")] (.scalar (.int32 3)))
    |>.withAttribute "price" (.money (.ofInt32 5))
    |>.withAttribute "customer" (.reference ⟨"account", .nil, none⟩)

theorem coherentAt_pricedOrder :
    (∃ wide : Int64, pricedOrder.get? .int64 "pieces" = some wide ∧
        wide.toInt = (3 : Int32).toInt) ∧
      (∃ d : Decimal, pricedOrder.get? .decimal "pieces" = some d ∧ d.scale = 0 ∧
        d.amount = (3 : Int32).toInt) ∧
      pricedOrder.require .string "pieces" = .error (.typeMismatch "pieces" "string") ∧
      pricedOrder.require .string "name" = .error (.missingAttribute "name" "order" .nil) ∧
      pricedOrder.get? .decimal "price" = some (.ofInt32 5) ∧
      pricedOrder.get? .uuid "customer" = some .nil ∧
      (pricedOrder.withAttribute "price"
        (AttributeValue.through [("line", "price")] (.money (.ofInt32 5)))).money? "price" =
          some (.ofInt32 5) := by
  have hpieces := coherentAt pricedOrder "pieces"
  have hprice := coherentAt pricedOrder "price"
  refine ⟨hpieces.int64_of_int32 3 rfl, hpieces.decimal_of_int32 3 rfl, ?_, ?_,
    hprice.decimal_of_money _ rfl, (coherentAt pricedOrder "customer").uuid_of_reference _ rfl,
    (hprice.through _ _ rfl "price").2.2.1⟩
  · exact (hpieces.require_mismatch .string _ _).2 ⟨by decide, rfl, rfl, rfl⟩
  · exact ((coherentAt pricedOrder "name").require_missing .string _ _ _).2
      ⟨by decide, rfl, rfl, rfl⟩

end Record

end EntityQuery
