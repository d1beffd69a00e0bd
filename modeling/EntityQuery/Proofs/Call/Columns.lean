import Mathlib.Data.List.DropRight
import EntityQuery.Proofs.Call.Projection
import EntityQuery.Proofs.Draft.Batches

/-!
# Columns since the last reset

What a column set comes to is decided by the calls since it last started over.  A call that adds
names leaves all-columns mode for good, even without names, and appends those that are new.  A batch
that is refused changes nothing; one that is not is added like any other.  So the set shows the
mode it started over in or, once a batch has been added, the first occurrences of the names in all
batches.
-/

namespace EntityQuery

/-! ## Column sets -/

namespace ColumnSet

theorem isAll_add (columns : ColumnSet) (batch : List String) :
    (columns.add batch).isAll = false := rfl

theorem toList_add (columns : ColumnSet) (batch : List String) :
    (columns.add batch).names.toList =
      columns.names.toList ++ (batch.removeAll columns.names.toList).eraseDups :=
  columns.names.toList_extend batch

theorem render_eq_all_iff {columns : ColumnSet} : columns.render = .all ↔ columns.isAll = true := by
  simp [render]

theorem contains_of_isAll {columns : ColumnSet} (h : columns.isAll = true) (name : String) :
    columns.contains name = false := by
  rw [contains, columns.names_eq_empty h]
  rfl

end ColumnSet

namespace ColumnCall

variable {call : ColumnCall} {columns : ColumnSet} {batch : List String}

/-- The names that a call adds, if it succeeds. -/
def batch? : ColumnCall → Option (List String)
  | add batch => some batch
  | addStrict batch => some batch
  | reset _ => none

def reset? : ColumnCall → Option Bool
  | reset toAll => some toAll
  | _ => none

/-! ## Calls -/

theorem run_reset (toAll : Bool) (columns : ColumnSet) :
    (reset toAll).run columns = (.reset toAll, none) := rfl

theorem run_of_batch (hbatch : call.batch? = some batch) (h : (call.run columns).2 = none) :
    (call.run columns).1 = columns.add batch := by
  cases call with
  | add names =>
      cases hbatch
      rfl
  | addStrict names =>
      cases hbatch
      rw [run_addStrict] at h ⊢
      cases hcollect : columns.names.collect (.empty columns.names) batch with
      | ok pending =>
          rw [ColumnSet.addStrict_of_ok hcollect]
          exact (ColumnSet.addTraced_of_ok (m := Id) hcollect).symm
      | error column =>
          rw [ColumnSet.addStrict_of_error hcollect] at h
          cases h
  | reset toAll => cases hbatch

/-! ## Lists of calls -/

/-- Those of some calls that succeed, each on the set that the calls before it leave. -/
def succeeding : List ColumnCall → ColumnSet → List ColumnCall
  | [], _ => []
  | call :: calls, columns =>
      (if (call.run columns).2.isNone then [call] else []) ++
        succeeding calls (call.run columns).1

/-- The batches that are added after the last reset. -/
def batchesSinceReset (calls : List ColumnCall) (columns : ColumnSet) : List (List String) :=
  ((succeeding calls columns).rtakeWhile fun call => call.reset?.isNone).filterMap batch?

/-- Whether the last reset, or else the start, was with all columns. -/
def lastReset (calls : List ColumnCall) (toAll : Bool) : Bool :=
  (calls.filterMap reset?).getLast?.getD toAll

theorem applyEach_concat (calls : List ColumnCall) (call : ColumnCall) (columns : ColumnSet) :
    applyEach (calls ++ [call]) columns = (call.run (applyEach calls columns)).1 :=
  List.foldl_concat ..

theorem succeeding_concat (calls : List ColumnCall) (call : ColumnCall) (columns : ColumnSet) :
    succeeding (calls ++ [call]) columns = succeeding calls columns ++
      if (call.run (applyEach calls columns)).2.isNone then [call] else [] := by
  induction calls generalizing columns with
  | nil => exact List.append_nil _
  | cons first calls ih =>
      rw [List.cons_append, succeeding, ih, succeeding, List.append_assoc]
      rfl

theorem batchesSinceReset_concat_reset (calls : List ColumnCall) (toAll : Bool)
    (columns : ColumnSet) : batchesSinceReset (calls ++ [reset toAll]) columns = [] := by
  have hsucceeds : succeeding (calls ++ [reset toAll]) columns =
      succeeding calls columns ++ [reset toAll] := succeeding_concat calls (reset toAll) columns
  rw [batchesSinceReset, hsucceeds, List.rtakeWhile_concat]
  rfl

theorem batchesSinceReset_concat_of_none {calls : List ColumnCall}
    (hbatch : call.batch? = some batch) (h : (call.run (applyEach calls columns)).2 = none) :
    batchesSinceReset (calls ++ [call]) columns = batchesSinceReset calls columns ++ [batch] := by
  have hreset : call.reset?.isNone = true := by
    cases call with
    | reset toAll => cases hbatch
    | _ => rfl
  have hsucceeds : succeeding (calls ++ [call]) columns = succeeding calls columns ++ [call] := by
    rw [succeeding_concat, h]
    rfl
  rw [batchesSinceReset, hsucceeds, List.rtakeWhile_concat, if_pos hreset, List.filterMap_append]
  simp [batchesSinceReset, hbatch]

theorem batchesSinceReset_concat_of_some {calls : List ColumnCall} {e : BuildError}
    (h : (call.run (applyEach calls columns)).2 = some e) :
    batchesSinceReset (calls ++ [call]) columns = batchesSinceReset calls columns := by
  have hfails : succeeding (calls ++ [call]) columns = succeeding calls columns := by
    rw [succeeding_concat, h]
    exact List.append_nil _
  rw [batchesSinceReset, hfails]
  rfl

theorem lastReset_concat_of_batch (calls : List ColumnCall) (hbatch : call.batch? = some batch)
    (toAll : Bool) : lastReset (calls ++ [call]) toAll = lastReset calls toAll := by
  have hreset : call.reset? = none := by
    cases call with
    | reset toAll => cases hbatch
    | _ => rfl
  simp [lastReset, hreset]

theorem lastReset_concat_reset (calls : List ColumnCall) (again toAll : Bool) :
    lastReset (calls ++ [reset again]) toAll = again := by
  simp [lastReset, reset?]

/-- The mode and the names of a set are those of its calls since the last reset. -/
theorem applyEach_spec (calls : List ColumnCall) (toAll : Bool) :
    (applyEach calls (.reset toAll)).isAll =
        (lastReset calls toAll && (batchesSinceReset calls (.reset toAll)).isEmpty) ∧
      (applyEach calls (.reset toAll)).names.toList =
        (batchesSinceReset calls (.reset toAll)).flatten.eraseDups := by
  induction calls using List.reverseRecOn with
  | nil => exact ⟨(Bool.and_true toAll).symm, rfl⟩
  | append_singleton calls call ih =>
      obtain ⟨hmode, hnames⟩ := ih
      cases hbatch : call.batch? with
      | none =>
          obtain ⟨again, rfl⟩ : ∃ again, call = reset again := by
            cases call with
            | reset again => exact ⟨again, rfl⟩
            | _ => cases hbatch
          rw [applyEach_concat, run_reset, batchesSinceReset_concat_reset, lastReset_concat_reset]
          exact ⟨(Bool.and_true again).symm, rfl⟩
      | some batch =>
          rw [applyEach_concat, lastReset_concat_of_batch calls hbatch]
          cases hcall : (call.run (applyEach calls (.reset toAll))).2 with
          | some e =>
              rw [batchesSinceReset_concat_of_some hcall, run_of_error hcall]
              exact ⟨hmode, hnames⟩
          | none =>
              rw [batchesSinceReset_concat_of_none hbatch hcall, run_of_batch hbatch hcall]
              constructor
              · simp [ColumnSet.isAll_add]
              · -- To leave out names that are there is to leave out all that have occurred.
                have hold :
                    batch.removeAll (batchesSinceReset calls (.reset toAll)).flatten.eraseDups =
                      batch.removeAll (batchesSinceReset calls (.reset toAll)).flatten := by
                  simp only [List.removeAll, List.elem_eq_mem, List.mem_eraseDups]
                rw [ColumnSet.toList_add, hnames, hold, List.flatten_append,
                  List.flatten_singleton, List.eraseDups_append]

/-- A set shows all columns if it last started over with all of them and no batch, not even an empty
one, has been added since.  Otherwise it shows the names of all batches added since then, each where
it came first.  It contains the names that it shows, and none if it shows all columns. -/
theorem render_applyEach_reset (toAll : Bool) (calls : List ColumnCall) :
    ((applyEach calls (.reset toAll)).render = .all ↔
      lastReset calls toAll = true ∧ batchesSinceReset calls (.reset toAll) = []) ∧
    ((applyEach calls (.reset toAll)).render ≠ .all →
      (applyEach calls (.reset toAll)).render =
        .only (batchesSinceReset calls (.reset toAll)).flatten.eraseDups) ∧
    (∀ name, (applyEach calls (.reset toAll)).contains name = true ↔
      name ∈ (batchesSinceReset calls (.reset toAll)).flatten.eraseDups) ∧
    ((applyEach calls (.reset toAll)).isAll = true →
      ∀ name, (applyEach calls (.reset toAll)).contains name = false) := by
  obtain ⟨hmode, hnames⟩ := applyEach_spec calls toAll
  refine ⟨?_, fun hrender => ?_, fun name => ?_, ColumnSet.contains_of_isAll⟩
  · rw [ColumnSet.render_eq_all_iff, hmode, Bool.and_eq_true, List.isEmpty_iff]
  · rw [ne_eq, ColumnSet.render_eq_all_iff, Bool.not_eq_true] at hrender
    rw [ColumnSet.render, hrender, hnames]
    rfl
  · rw [ColumnSet.contains_iff, hnames]

/-- A reset between batches, then a refused batch, a repetition and an empty batch. -/
example : (applyEach [.add ["id"], .reset true, .addStrict ["name", "name"],
    .add ["name", "city", "name"], .addStrict ["city"], .addStrict []] .all).render =
      .only ["name", "city"] := by
  decide

end ColumnCall

end EntityQuery
