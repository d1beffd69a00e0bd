import EntityQuery.Proofs.Service.OptionLabel

/-!
# Requests for the label of an option

A request for a label asks the provider nothing if the record has no such attribute or holds no
option there, and otherwise asks a single question.  The answer decides the rest: the provider's own
error is handed on, an attribute without options gives no label, and a list of options gives the
label of the first that has the code, even if that is no label and a later one has it.

The lemmas on `optionLabel?` hold in every monad.  The outcome of a request is read off them for a
provider that is a function of its state, beside which it keeps the questions that it was asked.
-/

namespace EntityQuery

/-! ## Labels -/

/-- The label that a list of options has for a code. -/
inductive LabelFor (code : Int32) : List OptionLabel → Option String → Prop
  | unmatched {options : List OptionLabel} (h : ∀ option ∈ options, option.code ≠ code) :
      LabelFor code options none
  /-- The first option with the code decides, whatever comes after it. -/
  | first {before after : List OptionLabel} {option : OptionLabel} (hcode : option.code = code)
      (hbefore : ∀ earlier ∈ before, earlier.code ≠ code) :
      LabelFor code (before ++ option :: after) option.label

theorem labelOf?_eq_iff {options : List OptionLabel} {code : Int32} {label : Option String} :
    labelOf? options code = label ↔ LabelFor code options label := by
  constructor
  · rintro rfl
    rw [labelOf?]
    cases hfound : options.find? (·.code = code) with
    | none =>
        refine .unmatched fun option hoption => ?_
        simpa using List.find?_eq_none.1 hfound option hoption
    | some option =>
        obtain ⟨hcode, before, after, rfl, hbefore⟩ := List.find?_eq_some_iff_append.1 hfound
        exact .first (of_decide_eq_true hcode) fun earlier hearlier => by
          simpa using hbefore earlier hearlier
  · intro h
    rw [labelOf?]
    cases h with
    | unmatched h =>
        rw [List.find?_eq_none.2 fun option hoption => by simpa using h option hoption]
        rfl
    | @first before after option hcode hbefore =>
        have hfound : (before ++ option :: after).find? (·.code = code) = some option :=
          List.find?_eq_some_iff_append.2 ⟨decide_eq_true hcode, before, after, rfl,
            fun earlier hearlier => by simpa using hbefore earlier hearlier⟩
        rw [hfound]
        rfl

/-! ## Requests as computations -/

namespace Record

variable {record : Record} {name : String} {code : Int32}

/-- The record has an attribute whose value, without its aliases, is the code of an option. -/
def HoldsOption (record : Record) (name : String) (code : Int32) : Prop :=
  ∃ layers, record.attribute? name = some (.through layers (.optionSet code))

theorem holdsOption_iff : record.HoldsOption name code ↔ record.optionCode? name = some code := by
  rw [optionCode?_eq_some_iff, plain?_eq_some_iff rfl]
  rfl

/-- A record has no such attribute, or another value there, or an option. -/
theorem holdsOption_cases (record : Record) (name : String) : name ∉ record.attributes.keys ∨
    (name ∈ record.attributes.keys ∧ ∀ code, ¬ record.HoldsOption name code) ∨
      ∃ code, record.HoldsOption name code := by
  by_cases hmem : name ∈ record.attributes.keys
  · by_cases hoption : ∃ code, record.HoldsOption name code
    · exact .inr (.inr hoption)
    · exact .inr (.inl ⟨hmem, not_exists.1 hoption⟩)
  · exact .inl hmem

theorem mem_keys_of_holdsOption (h : record.HoldsOption name code) :
    name ∈ record.attributes.keys := by
  obtain ⟨layers, hvalue⟩ := h
  exact Table.mem_keys_iff.2 ⟨_, hvalue⟩

section Computations

variable {m : Type → Type} [Monad m] (provide : OptionProvider m)

theorem optionLabel?_of_absent (h : name ∉ record.attributes.keys) :
    record.optionLabel? name provide = pure (.ok none) := by
  rw [optionLabel?, if_neg (mt contains_iff.1 h)]

theorem optionLabel?_of_other (h : name ∈ record.attributes.keys)
    (hother : ∀ code, ¬ record.HoldsOption name code) :
    record.optionLabel? name provide =
      pure (.error (.record (.typeMismatch name "option set"))) := by
  have hnone : record.optionCode? name = none :=
    Option.eq_none_iff_forall_ne_some.2 fun code => mt holdsOption_iff.2 (hother code)
  rw [optionLabel?, if_pos (contains_iff.2 h), hnone]

theorem optionLabel?_of_holdsOption (h : record.HoldsOption name code) :
    record.optionLabel? name provide = labelAt provide record.logicalName name code := by
  obtain ⟨layers, hvalue⟩ := h
  exact optionLabel?_eq_labelAt hvalue (AttributeValue.unaliased_through layers _) provide

end Computations

end Record

/-! ## Outcomes -/

/-- A provider with a state of its own, which answers a question and goes on in a new state. -/
abbrev Metadata (σ : Type) :=
  String → String → σ → Except ServiceError (Option (List OptionLabel)) × σ

/-- What comes of a request for a label: its result, the state that the provider is left in, and
the entities and attributes that it was asked for. -/
structure LabelOutcome (σ : Type) where
  result : Except ServiceError (Option String)
  state : σ
  asked : List (String × String)

namespace Metadata

variable {σ : Type}

def provide (metadata : Metadata σ) : OptionProvider (StateM σ) := metadata

/-- The same metadata when it also keeps what it is asked for. -/
def recorded (metadata : Metadata σ) : Metadata (σ × List (String × String)) :=
  fun entity attr (state, asked) =>
    ((metadata entity attr state).1, (metadata entity attr state).2, asked ++ [(entity, attr)])

def labelOutcome (metadata : Metadata σ) (record : Record) (name : String) (state : σ) :
    LabelOutcome σ :=
  let (result, after, asked) := (record.optionLabel? name metadata.recorded.provide).run (state, [])
  ⟨result, after, asked⟩

def labelResult (code : Int32) :
    Except ServiceError (Option (List OptionLabel)) → Except ServiceError (Option String)
  | .error e => .error e
  | .ok none => .ok none
  | .ok (some options) => .ok (labelOf? options code)

variable {metadata : Metadata σ} {record : Record} {name : String} {state : σ} {code : Int32}

/-- A label is looked up with one question, in the state that there is. -/
theorem run_labelAt (metadata : Metadata σ) (entity attr : String) (code : Int32) (state : σ) :
    (labelAt metadata.provide entity attr code).run state =
      (labelResult code (metadata entity attr state).1, (metadata entity attr state).2) := by
  have hasked : (metadata.provide entity attr).run state = metadata entity attr state := rfl
  rw [labelAt, StateT.run_bind, hasked]
  rcases metadata entity attr state with ⟨e | _ | options, after⟩ <;> rfl

theorem labelOutcome_of_absent (h : name ∉ record.attributes.keys) :
    metadata.labelOutcome record name state = ⟨.ok none, state, []⟩ := by
  rw [labelOutcome, Record.optionLabel?_of_absent _ h]
  rfl

theorem labelOutcome_of_other (h : name ∈ record.attributes.keys)
    (hother : ∀ code, ¬ record.HoldsOption name code) :
    metadata.labelOutcome record name state =
      ⟨.error (.record (.typeMismatch name "option set")), state, []⟩ := by
  rw [labelOutcome, Record.optionLabel?_of_other _ h hother]
  rfl

theorem labelOutcome_of_holdsOption (h : record.HoldsOption name code) :
    metadata.labelOutcome record name state =
      ⟨labelResult code (metadata record.logicalName name state).1,
        (metadata record.logicalName name state).2, [(record.logicalName, name)]⟩ := by
  rw [labelOutcome, Record.optionLabel?_of_holdsOption _ h, run_labelAt]
  rfl

/-- What the provider is asked is kept beside the request and does not change it. -/
theorem run_optionLabel? (metadata : Metadata σ) (record : Record) (name : String) (state : σ) :
    (record.optionLabel? name metadata.provide).run state =
      ((metadata.labelOutcome record name state).result,
        (metadata.labelOutcome record name state).state) := by
  rcases record.holdsOption_cases name with h | ⟨h, hother⟩ | ⟨code, h⟩
  · rw [labelOutcome_of_absent h, Record.optionLabel?_of_absent _ h]
    rfl
  · rw [labelOutcome_of_other h hother, Record.optionLabel?_of_other _ h hother]
    rfl
  · rw [labelOutcome_of_holdsOption h, Record.optionLabel?_of_holdsOption _ h, run_labelAt]

/-- What a request for a label comes to, by what the record holds and what the provider answers. -/
inductive Resolves (metadata : Metadata σ) (record : Record) (name : String) (state : σ) :
    LabelOutcome σ → Prop
  | absent (h : name ∉ record.attributes.keys) :
      Resolves metadata record name state ⟨.ok none, state, []⟩
  | other (h : name ∈ record.attributes.keys) (hother : ∀ code, ¬ record.HoldsOption name code) :
      Resolves metadata record name state
        ⟨.error (.record (.typeMismatch name "option set")), state, []⟩
  | failed {code : Int32} {e : ServiceError} {after : σ} (h : record.HoldsOption name code)
      (hanswer : metadata record.logicalName name state = (.error e, after)) :
      Resolves metadata record name state ⟨.error e, after, [(record.logicalName, name)]⟩
  | noOptions {code : Int32} {after : σ} (h : record.HoldsOption name code)
      (hanswer : metadata record.logicalName name state = (.ok none, after)) :
      Resolves metadata record name state ⟨.ok none, after, [(record.logicalName, name)]⟩
  | options {code : Int32} {options : List OptionLabel} {label : Option String} {after : σ}
      (h : record.HoldsOption name code)
      (hanswer : metadata record.logicalName name state = (.ok (some options), after))
      (hlabel : LabelFor code options label) :
      Resolves metadata record name state ⟨.ok label, after, [(record.logicalName, name)]⟩

theorem resolves_labelOutcome (metadata : Metadata σ) (record : Record) (name : String)
    (state : σ) :
    Resolves metadata record name state (metadata.labelOutcome record name state) := by
  rcases record.holdsOption_cases name with h | ⟨h, hother⟩ | ⟨code, h⟩
  · rw [labelOutcome_of_absent h]
    exact .absent h
  · rw [labelOutcome_of_other h hother]
    exact .other h hother
  · rw [labelOutcome_of_holdsOption h]
    rcases hanswer : metadata record.logicalName name state with ⟨e | _ | options, after⟩
    · exact .failed h hanswer
    · exact .noOptions h hanswer
    · exact .options h hanswer (labelOf?_eq_iff.1 rfl)

theorem labelOutcome_of_resolves {outcome : LabelOutcome σ}
    (h : Resolves metadata record name state outcome) :
    metadata.labelOutcome record name state = outcome := by
  cases h with
  | absent h => exact labelOutcome_of_absent h
  | other h hother => exact labelOutcome_of_other h hother
  | failed h hanswer => rw [labelOutcome_of_holdsOption h, hanswer, labelResult]
  | noOptions h hanswer => rw [labelOutcome_of_holdsOption h, hanswer, labelResult]
  | options h hanswer hlabel =>
      rw [labelOutcome_of_holdsOption h, hanswer, labelResult, labelOf?_eq_iff.2 hlabel]

namespace Resolves

variable {outcome : LabelOutcome σ}

theorem asked_length (h : Resolves metadata record name state outcome) :
    outcome.asked.length ≤ 1 := by
  cases h <;> simp

/-- The provider is asked something exactly where the record holds an option. -/
theorem asked_iff (h : Resolves metadata record name state outcome) :
    outcome.asked ≠ [] ↔ ∃ code, record.HoldsOption name code := by
  cases h with
  | absent h => simpa using fun code hcode => h (Record.mem_keys_of_holdsOption hcode)
  | other _ hother => simpa using hother
  | failed h | noOptions h | options h => simpa using ⟨_, h⟩

end Resolves

/-- A request for a label, in every state that the provider may be in. -/
structure LooksUp (metadata : Metadata σ) (record : Record) (name : String) (state : σ) :
    Prop where
  resolves (outcome : LabelOutcome σ) : metadata.labelOutcome record name state = outcome ↔
    Resolves metadata record name state outcome
  asked_length : (metadata.labelOutcome record name state).asked.length ≤ 1
  asked_iff : (metadata.labelOutcome record name state).asked ≠ [] ↔
    ∃ code, record.HoldsOption name code
  /-- The request for the label comes to the same if nobody keeps what the provider is asked. -/
  unrecorded : (record.optionLabel? name metadata.provide).run state =
    ((metadata.labelOutcome record name state).result,
      (metadata.labelOutcome record name state).state)

/-- A request for a label asks once where the record holds an option, and never elsewhere. -/
theorem looksUp (metadata : Metadata σ) (record : Record) (name : String) (state : σ) :
    LooksUp metadata record name state where
  resolves outcome := by
    constructor
    · rintro rfl
      exact resolves_labelOutcome metadata record name state
    · exact labelOutcome_of_resolves
  asked_length := (resolves_labelOutcome metadata record name state).asked_length
  asked_iff := (resolves_labelOutcome metadata record name state).asked_iff
  unrecorded := run_optionLabel? metadata record name state

/-- Metadata in which the second code has two options, the first of them without a label.  The state
counts the questions. -/
def relabelled : Metadata Nat := fun _ _ questions =>
  (.ok (some ([⟨1, some "Open"⟩] ++ ⟨2, none⟩ :: [⟨2, some "Closed"⟩])), questions + 1)

def closedInvoice : Record :=
  (Record.new "invoice" .nil).withAttribute "state" (.through [("account", "state")] (.optionSet 2))

theorem looksUp_relabelled :
    relabelled.labelOutcome closedInvoice "state" 4 = ⟨.ok none, 5, [("invoice", "state")]⟩ ∧
      relabelled.labelOutcome closedInvoice "name" 4 = ⟨.ok none, 4, []⟩ := by
  have hoption : closedInvoice.HoldsOption "state" 2 := ⟨_, rfl⟩
  constructor
  · exact ((looksUp relabelled closedInvoice "state" 4).resolves _).2
      (.options hoption rfl (.first rfl (by simp)))
  · exact ((looksUp relabelled closedInvoice "name" 4).resolves _).2 (.absent (by decide))

end Metadata

end EntityQuery
