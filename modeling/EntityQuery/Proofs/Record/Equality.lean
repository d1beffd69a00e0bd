import EntityQuery.Proofs.Equality.Parts
import EntityQuery.Proofs.Record.Writing
import EntityQuery.Service.OptionLabel

/-!
# Equality of records

`==` on records goes down to the values of their attributes and looks the names up in one direction
only; it is an equivalence nevertheless, as it is on values and on tables.  What is read of a record
is read of the answers of its tables, in which equal records agree up to `==`.  So every read of
equal records gives equal results, and the same error where it gives one.
-/

namespace EntityQuery

/-! ## Attribute values -/

namespace AttributeValue

variable {a b c : AttributeValue}

/-- Attribute values of one kind that came the same way and are equal below. -/
inductive Matches : AttributeValue → AttributeValue → Prop
  | scalar {v w : Value} (h : Equal v w) : Matches (.scalar v) (.scalar w)
  | reference (target : EntityReference) : Matches (.reference target) (.reference target)
  | optionSet (code : Int32) : Matches (.optionSet code) (.optionSet code)
  | money {x y : Decimal} (h : Equal x y) : Matches (.money x) (.money y)
  | aliased (entity attr : String) {a b : AttributeValue} (h : Matches a b) :
      Matches (.aliased entity attr a) (.aliased entity attr b)

theorem equal_iff_matches : Equal a b ↔ Matches a b := by
  change same a b = true ↔ _
  constructor
  · intro h
    induction a generalizing b with
    | scalar v =>
        cases b with
        | scalar w => exact .scalar h
        | _ => cases h
    | reference target =>
        cases b with
        | reference target' => exact of_decide_eq_true h ▸ .reference target
        | _ => cases h
    | optionSet code =>
        cases b with
        | optionSet code' => exact of_decide_eq_true h ▸ .optionSet code
        | _ => cases h
    | money x =>
        cases b with
        | money y => exact .money h
        | _ => cases h
    | aliased entity attr a ih =>
        cases b with
        | aliased entity' attr' b =>
            simp only [same, Bool.and_eq_true, decide_eq_true_eq] at h
            obtain ⟨⟨rfl, rfl⟩, hbelow⟩ := h
            exact .aliased entity attr (ih hbelow)
        | _ => cases h
  · intro h
    induction h with
    | scalar h => exact h
    | reference target => exact decide_eq_true rfl
    | optionSet code => exact decide_eq_true rfl
    | money h => exact h
    | aliased entity attr _ ih => simp [same, ih]

namespace Matches

theorem refl (a : AttributeValue) : Matches a a := by
  induction a with
  | scalar v => exact .scalar BEq.rfl
  | reference target => exact .reference target
  | optionSet code => exact .optionSet code
  | money x => exact .money BEq.rfl
  | aliased entity attr _ ih => exact .aliased entity attr ih

theorem symm (h : Matches a b) : Matches b a := by
  induction h with
  | scalar h => exact .scalar (BEq.symm h)
  | reference target => exact .reference target
  | optionSet code => exact .optionSet code
  | money h => exact .money (BEq.symm h)
  | aliased entity attr _ ih => exact .aliased entity attr ih

theorem trans (h : Matches a b) (h' : Matches b c) : Matches a c := by
  induction h generalizing c with
  | scalar h =>
      cases h' with
      | scalar h' => exact .scalar (BEq.trans h h')
  | reference target => exact h'
  | optionSet code => exact h'
  | money h =>
      cases h' with
      | money h' => exact .money (BEq.trans h h')
  | aliased entity attr _ ih =>
      cases h' with
      | aliased _ _ h' => exact .aliased entity attr (ih h')

theorem unaliased (h : Matches a b) : Matches a.unaliased b.unaliased := by
  induction h with
  | scalar h => exact .scalar h
  | reference target => exact .reference target
  | optionSet code => exact .optionSet code
  | money h => exact .money h
  | aliased _ _ _ ih => exact ih

end Matches

instance : EquivBEq AttributeValue where
  rfl := equal_iff_matches.2 (.refl _)
  symm h := equal_iff_matches.2 (equal_iff_matches.1 h).symm
  trans h h' := equal_iff_matches.2 ((equal_iff_matches.1 h).trans (equal_iff_matches.1 h'))

end AttributeValue

/-! ## Readings -/

namespace Reading

open AttributeValue (Matches equal_iff_matches)

/-- Amounts and attribute values are compared by `==`, all else that is read as it is. -/
instance : (reading : Reading) → BEq reading.Result
  | bool => inferInstanceAs (BEq Bool)
  | int32 => inferInstanceAs (BEq Int32)
  | int64 => inferInstanceAs (BEq Int64)
  | float64 => inferInstanceAs (BEq Binary64)
  | dateTime => inferInstanceAs (BEq Timestamp)
  | string => inferInstanceAs (BEq String)
  | decimal => inferInstanceAs (BEq Decimal)
  | uuid => inferInstanceAs (BEq Uuid)
  | reference => inferInstanceAs (BEq EntityReference)
  | anyValue => inferInstanceAs (BEq AttributeValue)

instance : (reading : Reading) → EquivBEq reading.Result
  | bool => inferInstanceAs (EquivBEq Bool)
  | int32 => inferInstanceAs (EquivBEq Int32)
  | int64 => inferInstanceAs (EquivBEq Int64)
  | float64 => inferInstanceAs (EquivBEq Binary64)
  | dateTime => inferInstanceAs (EquivBEq Timestamp)
  | string => inferInstanceAs (EquivBEq String)
  | decimal => inferInstanceAs (EquivBEq Decimal)
  | uuid => inferInstanceAs (EquivBEq Uuid)
  | reference => inferInstanceAs (EquivBEq EntityReference)
  | anyValue => inferInstanceAs (EquivBEq AttributeValue)

theorem rel_readPlain? (reading : Reading) {a b : AttributeValue} (h : Matches a b) :
    Option.Rel Equal (reading.readPlain? a) (reading.readPlain? b) := by
  cases h with
  | reference target => exact optionRel_refl _
  | optionSet code => exact optionRel_refl _
  | scalar hvalue =>
      obtain rfl | ⟨x, y, rfl, rfl, hamount⟩ := Value.equal_iff.1 hvalue
      · exact optionRel_refl _
      · cases reading with
        | decimal => exact .some hamount
        | anyValue => exact .some (equal_iff_matches.2 (.scalar hvalue))
        | _ => exact .none
  | money hamount =>
      cases reading with
      | decimal => exact .some hamount
      | anyValue => exact .some (equal_iff_matches.2 (.money hamount))
      | _ => exact .none
  | aliased entity attr hbelow =>
      cases reading with
      | anyValue => exact .some (equal_iff_matches.2 (.aliased entity attr hbelow))
      | _ => exact .none

/-- Equal attribute values are read alike in every type. -/
theorem rel_read? (reading : Reading) {a b : AttributeValue} (h : Equal a b) :
    Option.Rel Equal (reading.read? a) (reading.read? b) :=
  reading.rel_readPlain? (equal_iff_matches.1 h).unaliased

end Reading

/-! ## Records -/

namespace RecordCall

/-- Calls that write the same to every name, in the same order, whatever they write to other names
before, between and after. -/
def SameByName (calls calls' : List RecordCall) : Prop :=
  ∀ name, ((attributes calls).filter fun entry => entry.1 = name) =
      ((attributes calls').filter fun entry => entry.1 = name) ∧
    ((texts calls).filter fun entry => entry.1 = name) =
      ((texts calls').filter fun entry => entry.1 = name)

end RecordCall

namespace Record

open AttributeValue (Matches equal_iff_matches)

variable {r s : Record}

theorem equal_iff : Equal r s ↔ r.logicalName = s.logicalName ∧ r.id = s.id ∧
    Equal r.attributes s.attributes ∧ Equal r.formatted s.formatted := by
  have hparts : (r == s) = (r.logicalName == s.logicalName && (r.id == s.id &&
      (r.attributes == s.attributes && r.formatted == s.formatted))) := rfl
  rw [Equal, hparts, Bool.and_eq_true, Bool.and_eq_true, Bool.and_eq_true, beq_iff_eq, beq_iff_eq]

instance : EquivBEq Record :=
  equivBEq_of_parts (fun record => (record.logicalName, record.id, record.attributes,
    record.formatted)) fun _ _ => Iff.rfl

/-- Writes to different names may be made in any order. -/
theorem equal_applyEach {calls calls' : List RecordCall} (h : RecordCall.SameByName calls calls')
    (record : Record) :
    Equal (RecordCall.applyEach calls record) (RecordCall.applyEach calls' record) := by
  rw [RecordCall.applyEach_eq, RecordCall.applyEach_eq]
  refine equal_iff.2 ⟨rfl, rfl, Table.equal_iff.2 fun name => ?_, Table.equal_iff.2 fun name => ?_⟩
  · rw [Table.get?_insertAll, Table.get?_insertAll, Table.lastValue?, (h name).1]
    exact optionRel_refl _
  · rw [Table.get?_insertAll, Table.get?_insertAll, Table.lastValue?, (h name).2]
    exact optionRel_refl _

/-! ## Reads -/

theorem rel_attribute? (h : Equal r s) (name : String) :
    Option.Rel Equal (r.attribute? name) (s.attribute? name) :=
  Table.equal_iff.1 (equal_iff.1 h).2.2.1 name

theorem contains_eq (h : Equal r s) (name : String) : r.contains name = s.contains name := by
  have hanswer : Option.Rel Equal (r.attributes.get? name) (s.attributes.get? name) :=
    rel_attribute? h name
  rw [contains, contains, Table.contains, Table.contains]
  generalize r.attributes.get? name = x, s.attributes.get? name = y at hanswer
  cases hanswer <;> rfl

theorem rel_get? (h : Equal r s) (reading : Reading) (name : String) :
    Option.Rel Equal (r.get? reading name) (s.get? reading name) :=
  optionRel_bind (rel_attribute? h name) fun _ _ => reading.rel_read?

/-- A read that has to succeed fails alike in equal records: its error tells the record and what was
expected, and not what was found. -/
theorem agree_require (h : Equal r s) (reading : Reading) (name : String) :
    Agree Equal (r.require reading name) (s.require reading name) := by
  obtain ⟨hname, hid, -, -⟩ := equal_iff.1 h
  have hanswer := rel_attribute? h name
  rw [require, require, hname, hid]
  generalize r.attribute? name = x, s.attribute? name = y at hanswer
  cases hanswer with
  | none => exact .error _
  | @some a b hvalue =>
      have hresult := reading.rel_read? hvalue
      dsimp only
      generalize reading.read? a = x, reading.read? b = y at hresult
      cases hresult with
      | none => exact .error _
      | some hresult => exact .ok hresult

theorem rel_money? (h : Equal r s) (name : String) :
    Option.Rel Equal (r.money? name) (s.money? name) := by
  refine optionRel_bind (rel_attribute? h name) fun a b hvalue => ?_
  have hplain := (equal_iff_matches.1 hvalue).unaliased
  generalize a.unaliased = a, b.unaliased = b at hplain
  cases hplain with
  | money hamount => exact .some hamount
  | _ => exact .none

theorem optionCode?_eq (h : Equal r s) (name : String) :
    r.optionCode? name = s.optionCode? name := by
  refine eq_of_optionRel (optionRel_bind (rel_attribute? h name) fun a b hvalue => ?_)
  have hplain := (equal_iff_matches.1 hvalue).unaliased
  generalize a.unaliased = a, b.unaliased = b at hplain
  cases hplain <;> exact optionRel_refl _

/-- Every read of two records gives the same, as far as `==` tells results apart. -/
structure ReadsAlike (r s : Record) : Prop where
  contains (name : String) : r.contains name = s.contains name
  get? (reading : Reading) (name : String) :
    Option.Rel Equal (r.get? reading name) (s.get? reading name)
  require (reading : Reading) (name : String) :
    Agree Equal (r.require reading name) (s.require reading name)
  money? (name : String) : Option.Rel Equal (r.money? name) (s.money? name)
  optionCode? (name : String) : r.optionCode? name = s.optionCode? name
  formatted? (name : String) : r.formatted? name = s.formatted? name
  getAliased? (reading : Reading) (aliasName attr : String) :
    Option.Rel Equal (r.getAliased? reading aliasName attr) (s.getAliased? reading aliasName attr)
  optionLabel? (m : Type → Type) [Monad m] (provide : OptionProvider m) (name : String) :
    r.optionLabel? name provide = s.optionLabel? name provide

theorem readsAlike_of_equal (h : Equal r s) : ReadsAlike r s where
  contains := contains_eq h
  get? := rel_get? h
  require := agree_require h
  money? := rel_money? h
  optionCode? := optionCode?_eq h
  formatted? name := eq_of_optionRel (Table.equal_iff.1 (equal_iff.1 h).2.2.2 name)
  getAliased? reading _ _ := rel_get? h reading _
  optionLabel? m _ provide name := by
    rw [Record.optionLabel?, Record.optionLabel?, contains_eq h, optionCode?_eq h,
      (equal_iff.1 h).1]

/-- Equality of records is an equivalence, which the order of writes to different names does not
matter to and which no read sees through. -/
theorem equivalence_readsAlike : Equivalence (Equal : Record → Record → Prop) ∧
    (∀ (record : Record) (calls calls' : List RecordCall), RecordCall.SameByName calls calls' →
      Equal (RecordCall.applyEach calls record) (RecordCall.applyEach calls' record)) ∧
    ∀ r s : Record, Equal r s → ReadsAlike r s :=
  ⟨⟨fun _ => BEq.rfl, BEq.symm, BEq.trans⟩, fun record _ _ h => equal_applyEach h record,
    fun _ _ => readsAlike_of_equal⟩

def offerCalls (price : Decimal) : List RecordCall :=
  [.withAttribute "price" (.money price), .withFormatted "price" "one",
    .withAttribute "name" (.scalar (.string "Pen"))]

def offerCallsBack (price : Decimal) : List RecordCall := (offerCalls price).reverse

def placedOne : Decimal := ⟨false, 1000, 3, by decide, by decide⟩

theorem equivalence_readsAlike_offerCalls :
    RecordCall.SameByName (offerCalls (.ofInt32 1)) (offerCallsBack (.ofInt32 1)) ∧
      Equal (RecordCall.applyEach (offerCalls (.ofInt32 1)) default)
        (RecordCall.applyEach (offerCallsBack (.ofInt32 1)) default) ∧
      Equal (RecordCall.applyEach (offerCalls (.ofInt32 1)) default)
        (RecordCall.applyEach (offerCallsBack placedOne) default) ∧
      ReadsAlike (RecordCall.applyEach (offerCalls (.ofInt32 1)) default)
        (RecordCall.applyEach (offerCallsBack placedOne) default) := by
  have hsame : RecordCall.SameByName (offerCalls (.ofInt32 1)) (offerCallsBack (.ofInt32 1)) := by
    intro name
    refine ⟨?_, rfl⟩
    by_cases hprice : "price" = name
    · subst hprice
      rfl
    · by_cases hname : "name" = name
      · subst hname
        rfl
      · simp [offerCalls, offerCallsBack, RecordCall.attributes, RecordCall.attribute?,
          List.filterMap_cons, hprice, hname]
  have hequal : Equal (RecordCall.applyEach (offerCalls (.ofInt32 1)) default)
      (RecordCall.applyEach (offerCallsBack placedOne) default) := by
    decide
  exact ⟨hsame, equivalence_readsAlike.2.1 _ _ _ hsame, hequal,
    equivalence_readsAlike.2.2 _ _ hequal⟩

end Record

end EntityQuery
