import Mathlib.Data.List.Induction
import EntityQuery.Draft.Call
import EntityQuery.Proofs.Draft.Rendering

/-!
# Batches of columns

A batch of names is added in one of two ways.  The lenient way goes through it name by name and
changes the set as it goes: it keeps an occurrence of a name that is not in the set by then and
skips one that is, with a report.  The strict way leaves the set alone and collects the batch beside
it, against which each name is checked as well, until the first that is refused.

The two checks come to one.  The names in front of a name of the batch are in the set or pending,
and both loops refuse or skip what is among them; so the strict way succeeds exactly if the set
followed by the batch has no repetition, and then both leave that.
-/

namespace EntityQuery

namespace Names

variable {names names' : Names} {name : String} {batch : List String}

theorem ext_toList (h : names.toList = names'.toList) : names = names' := by
  cases names
  cases names'
  cases h
  rfl

theorem insert?_eq_none_iff : names.insert? name = none ↔ name ∈ names.toList := by
  unfold insert?
  split <;> simp_all

theorem toList_of_insert? (h : names.insert? name = some names') :
    name ∉ names.toList ∧ names'.toList = names.toList ++ [name] := by
  unfold insert? at h
  split at h
  · cases h
  · rename_i hnew
    cases h
    exact ⟨hnew, rfl⟩

/-! ## Strict batches -/

section Collect

variable {there : Names} {pending pending' : Pending there}

theorem collect_cons_of_mem (h : name ∈ there.toList ++ pending.toList) (batch : List String) :
    there.collect pending (name :: batch) = .error name := by
  rw [collect, dif_pos (List.mem_append.1 h)]

theorem collect_cons_of_notMem (h : name ∉ there.toList ++ pending.toList) (batch : List String) :
    ∃ more : Pending there, more.toList = pending.toList ++ [name] ∧
      there.collect pending (name :: batch) = there.collect more batch := by
  rw [collect, dif_neg (mt List.mem_append.2 h)]
  exact ⟨_, rfl, rfl⟩

theorem toList_of_collect (h : there.collect pending batch = .ok pending') :
    pending'.toList = pending.toList ++ batch := by
  induction batch generalizing pending with
  | nil =>
      cases h
      exact (List.append_nil _).symm
  | cons name batch ih =>
      by_cases hmem : name ∈ there.toList ++ pending.toList
      · rw [collect_cons_of_mem hmem] at h
        cases h
      · obtain ⟨more, hmore, hcollect⟩ := collect_cons_of_notMem hmem batch
        rw [hcollect] at h
        rw [ih h, hmore, List.append_assoc]
        rfl

theorem exists_collect_iff : (∃ pending', there.collect pending batch = .ok pending') ↔
    (there.toList ++ (pending.toList ++ batch)).Nodup := by
  constructor
  · rintro ⟨pending', h⟩
    rw [← toList_of_collect h]
    exact pending'.nodup
  · intro h
    induction batch generalizing pending with
    | nil => exact ⟨pending, rfl⟩
    | cons name batch ih =>
        have hnew : name ∉ there.toList ++ pending.toList := fun hmem => by
          rw [← List.append_assoc, List.nodup_append] at h
          exact h.2.2 name hmem name List.mem_cons_self rfl
        obtain ⟨more, hmore, hcollect⟩ := collect_cons_of_notMem hnew batch
        rw [hcollect]
        refine ih ?_
        rwa [hmore, List.append_assoc]

/-- A batch is refused for the first name that is there, pending or earlier in the batch. -/
theorem exists_split_of_collect (h : there.collect pending batch = .error name) :
    ∃ before after, batch = before ++ name :: after ∧
      (there.toList ++ (pending.toList ++ before)).Nodup ∧
      name ∈ there.toList ++ (pending.toList ++ before) := by
  induction batch generalizing pending with
  | nil => cases h
  | cons first batch ih =>
      by_cases hmem : first ∈ there.toList ++ pending.toList
      · rw [collect_cons_of_mem hmem] at h
        cases h
        refine ⟨[], batch, rfl, ?_⟩
        rw [List.append_nil]
        exact ⟨pending.nodup, hmem⟩
      · obtain ⟨more, hmore, hcollect⟩ := collect_cons_of_notMem hmem batch
        rw [hcollect] at h
        obtain ⟨before, after, rfl, hnodup, hname⟩ := ih h
        rw [hmore, List.append_assoc] at hnodup hname
        exact ⟨first :: before, after, rfl, hnodup, hname⟩

end Collect

/-! ## Lenient batches -/

theorem extend_cons (names : Names) (name : String) (batch : List String) :
    names.extend (name :: batch) = ((names.insert? name).getD names).extend batch := by
  rw [extend, extendTraced]
  cases names.insert? name <;> rfl

/-- Where nobody listens, a batch is added without reports. -/
theorem extendTraced_of_silent {m : Type → Type} [Monad m] [LawfulMonad m] [MonadTrace m]
    (silent : ∀ e, trace (m := m) e = pure ()) (names : Names) (batch : List String) :
    names.extendTraced (m := m) batch = pure (names.extend batch) := by
  induction batch generalizing names with
  | nil => rfl
  | cons name batch ih =>
      rw [extendTraced, extend_cons]
      cases names.insert? name with
      | some extended => exact ih extended
      | none =>
          rw [silent, pure_bind]
          exact ih names

theorem append_empty (names : Names) : names.append (.empty names) = names :=
  ext_toList (List.append_nil _)

theorem insert?_append {pending more : Pending names}
    (h : name ∉ names.toList ++ pending.toList) (hmore : more.toList = pending.toList ++ [name]) :
    (names.append pending).insert? name = some (names.append more) := by
  rw [insert?, dif_neg (show name ∉ (names.append pending).toList from h)]
  refine congrArg some (ext_toList ?_)
  change names.toList ++ pending.toList ++ [name] = names.toList ++ more.toList
  rw [hmore, List.append_assoc]

/-- Going through a batch beside a set reaches what extending the set does, and then nothing is
reported; or else it stops. -/
theorem extendTraced_of_collect {m : Type → Type} [Monad m] [MonadTrace m]
    {pending pending' : Pending names} (h : names.collect pending batch = .ok pending') :
    (names.append pending).extendTraced (m := m) batch = pure (names.append pending') := by
  induction batch generalizing pending with
  | nil =>
      cases h
      rfl
  | cons name batch ih =>
      by_cases hmem : name ∈ names.toList ++ pending.toList
      · rw [collect_cons_of_mem hmem] at h
        cases h
      · obtain ⟨more, hmore, hcollect⟩ := collect_cons_of_notMem hmem batch
        rw [extendTraced, insert?_append hmem hmore]
        exact ih (hcollect ▸ h)

/-- The names that a batch reports, an occurrence for each time. -/
def skipped : Names → List String → List String
  | _, [] => []
  | names, name :: batch =>
      match names.insert? name with
      | some names => skipped names batch
      | none => name :: skipped names batch

theorem run_extendTraced (names : Names) (batch : List String) (events : List Event) :
    (names.extendTraced batch : Traced Names).run events =
      (names.extend batch, events ++ (names.skipped batch).map .duplicateColumn) := by
  induction batch generalizing names events with
  | nil => exact congrArg (Prod.mk names) (List.append_nil events).symm
  | cons name batch ih =>
      rw [extendTraced, extend_cons, skipped]
      cases names.insert? name with
      | some extended => exact ih extended events
      | none =>
          refine (ih names (events ++ [.duplicateColumn name])).trans ?_
          rw [List.append_assoc]
          rfl

/-- A batch is appended without the names that are there and without repetitions. -/
theorem toList_extend (names : Names) (batch : List String) :
    (names.extend batch).toList =
      names.toList ++ (batch.removeAll names.toList).eraseDups := by
  induction batch generalizing names with
  | nil => exact (List.append_nil _).symm
  | cons name batch ih =>
      rw [extend_cons]
      cases h : names.insert? name with
      | none =>
          have hold : name ∈ names.toList := insert?_eq_none_iff.1 h
          have hskip : (name :: batch).removeAll names.toList = batch.removeAll names.toList := by
            simp [List.removeAll, hold]
          rw [hskip]
          exact ih names
      | some extended =>
          obtain ⟨hnew, hextended⟩ := toList_of_insert? h
          have hkeep : (name :: batch).removeAll names.toList =
              name :: batch.removeAll names.toList := by
            simp [List.removeAll, hnew]
          -- What is left out of the rest for the new name is what it repeats of that name.
          have hrest : batch.removeAll extended.toList =
              (batch.removeAll names.toList).filter fun other => !other == name := by
            simp only [List.removeAll, hextended, List.filter_filter]
            refine List.filter_congr fun other _ => ?_
            by_cases hother : other = name <;> simp [hother]
          have hlater := ih extended
          rw [hrest, hextended] at hlater
          rw [hkeep, List.eraseDups_cons]
          simpa using hlater

/-- A batch sifted after some names.  Each occurrence of a name is kept or skipped, in the order of
the batch: it is kept if the name is neither there nor earlier in the batch. -/
inductive Sifted (there : List String) : (batch kept skipped : List String) → Prop
  | nil : Sifted there [] [] []
  | keep {batch kept skipped : List String} {name : String}
      (before : Sifted there batch kept skipped) (new : name ∉ there) (first : name ∉ batch) :
      Sifted there (batch ++ [name]) (kept ++ [name]) skipped
  | skip {batch kept skipped : List String} {name : String}
      (before : Sifted there batch kept skipped) (repeated : name ∈ there ∨ name ∈ batch) :
      Sifted there (batch ++ [name]) kept (skipped ++ [name])

theorem extend_append (names : Names) (before after : List String) :
    names.extend (before ++ after) = (names.extend before).extend after := by
  induction before generalizing names with
  | nil => rfl
  | cons name before ih =>
      rw [List.cons_append, extend_cons, extend_cons]
      exact ih _

theorem skipped_append (names : Names) (before after : List String) :
    names.skipped (before ++ after) =
      names.skipped before ++ (names.extend before).skipped after := by
  induction before generalizing names with
  | nil => rfl
  | cons name before ih =>
      rw [List.cons_append, skipped, skipped, extend_cons]
      cases names.insert? name with
      | none => exact congrArg (name :: ·) (ih names)
      | some extended => exact ih extended

theorem mem_extend_iff :
    name ∈ (names.extend batch).toList ↔ name ∈ names.toList ∨ name ∈ batch := by
  rw [toList_extend, List.mem_append, List.mem_eraseDups]
  by_cases hold : name ∈ names.toList
  · simp [hold]
  · simp [hold, List.removeAll]

/-- The names that a batch appends and those that it skips are the batch, sifted. -/
theorem exists_sifted (names : Names) (batch : List String) :
    ∃ kept, (names.extend batch).toList = names.toList ++ kept ∧
      Sifted names.toList batch kept (names.skipped batch) := by
  induction batch using List.reverseRecOn with
  | nil => exact ⟨[], (List.append_nil _).symm, .nil⟩
  | append_singleton batch name ih =>
      obtain ⟨kept, hkept, hsifted⟩ := ih
      rw [extend_append, skipped_append, extend_cons, skipped]
      cases hinsert : (names.extend batch).insert? name with
      | none =>
          have hrepeated := mem_extend_iff.1 (insert?_eq_none_iff.1 hinsert)
          exact ⟨kept, hkept, .skip hsifted hrepeated⟩
      | some extended =>
          obtain ⟨hnew, hextended⟩ := toList_of_insert? hinsert
          rw [mem_extend_iff, not_or] at hnew
          refine ⟨kept ++ [name], ?_, ?_⟩
          · change extended.toList = _
            rw [hextended, hkept, List.append_assoc]
          · change Sifted _ _ _ (names.skipped batch ++ [])
            rw [List.append_nil]
            exact .keep hsifted hnew.1 hnew.2

end Names

/-! ## Calls in place -/

namespace ColumnSet

variable {columns : ColumnSet} {batch : List String}

theorem addTraced_of_silent {m : Type → Type} [Monad m] [LawfulMonad m] [MonadTrace m]
    (silent : ∀ e, trace (m := m) e = pure ()) (columns : ColumnSet) (batch : List String) :
    columns.addTraced (m := m) batch = pure (columns.add batch) := by
  rw [addTraced, Names.extendTraced_of_silent silent, pure_bind]
  rfl

theorem addTraced_of_ok {m : Type → Type} [Monad m] [LawfulMonad m] [MonadTrace m]
    {pending : Pending columns.names}
    (h : columns.names.collect (.empty columns.names) batch = .ok pending) :
    columns.addTraced (m := m) batch = pure (only (columns.names.append pending)) := by
  have hnames := Names.extendTraced_of_collect (m := m) h
  rw [Names.append_empty] at hnames
  rw [addTraced, hnames, pure_bind]

theorem addStrict_of_ok {pending : Pending columns.names}
    (h : columns.names.collect (.empty columns.names) batch = .ok pending) :
    columns.addStrict batch = (only (columns.names.append pending), .none) := by
  rw [addStrict, h]

theorem addStrict_of_error {name : String}
    (h : columns.names.collect (.empty columns.names) batch = .error name) :
    columns.addStrict batch = (columns, some (.duplicateColumn name)) := by
  rw [addStrict, h]

theorem contains_iff {name : String} :
    columns.contains name = true ↔ name ∈ columns.names.toList := by
  simp [contains]

theorem exists_addStrict_of_nodup (h : (columns.names.toList ++ batch).Nodup) :
    ∃ names : Names, columns.addStrict batch = (only names, .none) ∧
      names.toList = columns.names.toList ++ batch := by
  have hnodup : (columns.names.toList ++ ((Pending.empty columns.names).toList ++ batch)).Nodup := h
  obtain ⟨pending, hcollect⟩ := Names.exists_collect_iff.2 hnodup
  have hpending : pending.toList = batch := Names.toList_of_collect hcollect
  exact ⟨columns.names.append pending, by rw [addStrict, hcollect],
    congrArg (columns.names.toList ++ ·) hpending⟩

/-- Names that may follow the names of a set are distinct and none is in the set. -/
theorem nodup_append_iff :
    (columns.names.toList ++ batch).Nodup ↔
      batch.Nodup ∧ ∀ name ∈ batch, columns.contains name = false := by
  have hset := columns.names.nodup
  simp only [List.nodup_append, contains, decide_eq_false_iff_not]
  constructor
  · rintro ⟨-, hbatch, hdisjoint⟩
    exact ⟨hbatch, fun name hname hold => hdisjoint name hold name hname rfl⟩
  · rintro ⟨hbatch, hnew⟩
    refine ⟨hset, hbatch, fun name hold other hother heq => hnew other hother ?_⟩
    exact heq ▸ hold

end ColumnSet

/-- What a call on a column set comes to: the set that it leaves, its error and what it reports. -/
structure ColumnOutcome where
  columns : ColumnSet
  error : Option BuildError
  events : List Event

namespace ColumnCall

variable {columns : ColumnSet} {batch : List String}

theorem run_addStrict (columns : ColumnSet) (batch : List String) :
    (addStrict batch).run columns = columns.addStrict batch := rfl

/-- A call that fails leaves the set as it was. -/
theorem run_of_error {call : ColumnCall} {e : BuildError} (h : (call.run columns).2 = some e) :
    (call.run columns).1 = columns := by
  cases call with
  | add batch => cases h
  | addStrict batch =>
      rw [run_addStrict] at h ⊢
      cases hcollect : columns.names.collect (.empty columns.names) batch with
      | ok pending =>
          rw [ColumnSet.addStrict_of_ok hcollect] at h
          cases h
      | error name => rw [ColumnSet.addStrict_of_error hcollect]
  | reset toAll => cases h

def outcome (call : ColumnCall) (columns : ColumnSet) : ColumnOutcome :=
  let ran : Traced (ColumnSet × Option BuildError) := call.runTraced columns
  let ((after, error), events) := ran.run []
  ⟨after, error, events⟩

theorem outcome_add (columns : ColumnSet) (batch : List String) :
    outcome (.add batch) columns =
      ⟨columns.add batch, none, (columns.names.skipped batch).map .duplicateColumn⟩ :=
  congrArg (fun ran : Names × List Event => ColumnOutcome.mk (.only ran.1) none ran.2)
    (columns.names.run_extendTraced batch [])

theorem outcome_addStrict (columns : ColumnSet) (batch : List String) :
    outcome (.addStrict batch) columns =
      ⟨(columns.addStrict batch).1, (columns.addStrict batch).2, []⟩ := rfl

theorem error_addStrict_eq_none_iff : (outcome (.addStrict batch) columns).error = none ↔
    ∃ pending, columns.names.collect (.empty columns.names) batch = .ok pending := by
  cases hcollect : columns.names.collect (.empty columns.names) batch with
  | ok pending => simp [outcome_addStrict, ColumnSet.addStrict_of_ok hcollect]
  | error name => simp [outcome_addStrict, ColumnSet.addStrict_of_error hcollect]

/-- The strict and the lenient way to add a batch to a set of columns.  The strict way succeeds
exactly if the batch has neither a repetition nor a name of the set, and then does what the lenient
way does, which reports nothing of such a batch; otherwise it leaves the set as it was and names the
first occurrence that is in the set or came earlier in the batch.  The lenient way sifts the batch
into the names that it appends and those that it reports; nothing else reports any. -/
theorem strict_and_lenient_batches (columns : ColumnSet) (batch : List String) :
    ((outcome (.addStrict batch) columns).error = none ↔
      batch.Nodup ∧ ∀ name ∈ batch, columns.contains name = false) ∧
    ((outcome (.addStrict batch) columns).error = none →
      outcome (.addStrict batch) columns = outcome (.add batch) columns) ∧
    (∀ e, (outcome (.addStrict batch) columns).error = some e →
      (outcome (.addStrict batch) columns).columns = columns ∧
      ∃ before name after, batch = before ++ name :: after ∧
        (before.Nodup ∧ ∀ other ∈ before, columns.contains other = false) ∧
        (columns.contains name = true ∨ name ∈ before) ∧ e = .duplicateColumn name) ∧
    (∃ kept skipped, Names.Sifted columns.names.toList batch kept skipped ∧
      (outcome (.add batch) columns).error = none ∧
      (outcome (.add batch) columns).columns.render = .only (columns.names.toList ++ kept) ∧
      (outcome (.add batch) columns).events = skipped.map .duplicateColumn) ∧
    (outcome (.addStrict batch) columns).events = [] ∧
    ∀ toAll, (outcome (.reset toAll) columns).events = [] := by
  refine ⟨?succeeds, ?same, ?fails, ?sifted, rfl, fun _ => rfl⟩
  case succeeds =>
    rw [error_addStrict_eq_none_iff, Names.exists_collect_iff]
    exact ColumnSet.nodup_append_iff
  case same =>
    intro hnone
    obtain ⟨pending, hcollect⟩ := error_addStrict_eq_none_iff.1 hnone
    have hadded : outcome (.add batch) columns =
        ⟨.only (columns.names.append pending), none, []⟩ :=
      congrArg (fun added : Traced ColumnSet =>
        ColumnOutcome.mk (added.run []).1 none (added.run []).2) (ColumnSet.addTraced_of_ok hcollect)
    rw [hadded, outcome_addStrict, ColumnSet.addStrict_of_ok hcollect]
  case fails =>
    intro e he
    have hkept : ((addStrict batch).run columns).1 = columns := run_of_error he
    refine ⟨hkept, ?_⟩
    cases hcollect : columns.names.collect (.empty columns.names) batch with
    | ok pending =>
        rw [outcome_addStrict, ColumnSet.addStrict_of_ok hcollect] at he
        cases he
    | error name =>
        rw [outcome_addStrict, ColumnSet.addStrict_of_error hcollect] at he
        cases he
        obtain ⟨before, after, hsplit, hnodup, hmem⟩ := Names.exists_split_of_collect hcollect
        refine ⟨before, name, after, hsplit, ColumnSet.nodup_append_iff.1 hnodup, ?_, rfl⟩
        exact (List.mem_append.1 hmem).imp_left ColumnSet.contains_iff.2
  case sifted =>
    obtain ⟨kept, hkept, hsifted⟩ := columns.names.exists_sifted batch
    rw [outcome_add]
    exact ⟨kept, columns.names.skipped batch, hsifted, rfl, congrArg Projection.only hkept, rfl⟩

def nameAndCity : ColumnSet := .only ⟨["name", "city"], by decide⟩

theorem strict_and_lenient_batches_nameAndCity :
    outcome (.addStrict ["zip", "street"]) nameAndCity =
      outcome (.add ["zip", "street"]) nameAndCity ∧
    (outcome (.addStrict ["zip", "city", "zip"]) nameAndCity).columns = nameAndCity :=
  ⟨(strict_and_lenient_batches nameAndCity ["zip", "street"]).2.1 rfl,
    ((strict_and_lenient_batches nameAndCity ["zip", "city", "zip"]).2.2.1
      (.duplicateColumn "city") rfl).1⟩

end ColumnCall

end EntityQuery
