import ChainPlanner.Proofs.Wire.Data
import ChainPlanner.Wire.Record
import ChainPlanner.Wire.Solution

/-!
# ChainPlanner.Proofs.Wire.Written

The written form of a record as data.

Ids, times and priorities are words, so all numbers in it are whole up to those in the data that a
task or a reported task carries (`whole_ofTask`, `whole_ofRecord`).  A change nests two levels more
than the data of its task (`fits_ofMutation`).
-/

namespace ChainPlanner.Wire

open ChainPlanner.Json

variable {α : Type} {write : α → Value} {room : Nat}

/-! ## numbers -/

theorem isWord_int64 (x : Int64) : Value.isWord x.toInt = true := by
  rw [Value.isWord, int64?_toInt, Option.isSome_some, Bool.true_or]

theorem isWord_int32 (x : Int32) : Value.isWord x.toInt = true := by
  have := x.le_toInt
  have := x.toInt_lt
  rw [Value.isWord, int64?, if_pos (by omega), Option.isSome_some, Bool.true_or]

theorem isWord_minutes (m : Minutes) : Value.isWord m.toNat = true := by
  have hmax := m.toNat_le_max
  rw [Minutes.max] at hmax
  rw [Value.isWord, int64?, if_pos (by omega), Option.isSome_some, Bool.true_or]

theorem isWord_priority (p : Priority) : Value.isWord p.value = true := by
  have := p.le_ten
  rw [Value.isWord, int64?, if_pos (by omega), Option.isSome_some, Bool.true_or]

/-! ## data that are carried -/

/-- The data of the task that a change is about, if the change tells the whole task. -/
def taskData : Mutation → List Payload
  | .add task | .assign task _ => [task.payload]
  | .remove _ | .release _ => []

/-! ## members -/

/-- What holds of every written value holds of one that may be missing. -/
theorem all_ofPresent {p : Value → Bool} (h : ∀ a, p (write a) = true) (name : String)
    (o : Option α) : (ofPresent name write o).all (fun m => p m.2) = true := by
  cases o with
  | none => rfl
  | some a => simp [ofPresent, h a]

/-- A value that may be missing is written under its name only. -/
theorem keys_ofPresent (name : String) (write : α → Value) (o : Option α) :
    ((ofPresent name write o).map Prod.fst).Sublist [name] := by
  cases o with
  | none => exact List.nil_sublist _
  | some a => exact List.Sublist.refl _

/-- The members of a task are some of its fields, in order. -/
theorem keys_ofTask {t : Task} {ms : List (String × Value)} (h : ofTask t = .object ms) :
    (ms.map Prod.fst).Sublist taskFields := by
  have hkeys := (List.Sublist.refl (taskFields.take 10)).append
    (keys_ofPresent "previous" ofAnchor t.previous)
    |>.append (keys_ofPresent "next" ofTaskId t.next)
    |>.append (keys_ofPresent "start_time" ofMinutes t.startTime)
    |>.append (keys_ofPresent "end_time" ofMinutes t.endTime)
  cases h
  simpa [taskFields] using hkeys

/-! ## whole numbers -/

section Whole

open Value

/-- A value that may be missing is whole if it is whenever it is there. -/
theorem whole_ofNullable (h : ∀ a, (write a).whole = true) (o : Option α) :
    (ofNullable write o).whole = true := by
  cases o with
  | none => rfl
  | some a => exact h a

theorem whole_ofTaskId (id : TaskId) : (ofTaskId id).whole = true := isWord_int64 id.val

theorem whole_ofMinutes (m : Minutes) : (ofMinutes m).whole = true := isWord_minutes m

theorem whole_ofAnchor (a : Anchor) : (ofAnchor a).whole = true := by
  cases a <;> simp [ofAnchor, whole, wholeMembers, whole_ofTaskId]

theorem whole_ofUser (u : User) : (ofUser u).whole = true := by
  have hnext := all_ofPresent whole_ofTaskId "next" u.next
  simp [ofUser, whole, wholeMembers_eq_all, wholeItems_eq_all, hnext]

/-- The numbers of a task that might not be whole are those in its data. -/
theorem whole_ofTask (t : Task) : (ofTask t).whole = (Value.object t.payload).whole := by
  have hprevious := all_ofPresent whole_ofAnchor "previous" t.previous
  have hnext := all_ofPresent whole_ofTaskId "next" t.next
  have hstart := all_ofPresent whole_ofMinutes "start_time" t.startTime
  have hend := all_ofPresent whole_ofMinutes "end_time" t.endTime
  simp [ofTask, ofOwner, whole, wholeMembers_eq_all, wholeItems_eq_all, whole_ofTaskId,
    whole_ofMinutes, isWord_int64, isWord_priority, hprevious, hnext, hstart, hend]

theorem whole_ofParameters (p : PlanningParameters) : (ofParameters p).whole = true := by
  simp [ofParameters, whole, wholeMembers, isWord_int32]

theorem whole_ofResult (r : PlanningResult) : (ofResult r).whole = true := by
  simp [ofResult, whole, wholeMembers, whole_ofTaskId, isWord_int64, whole_ofParameters]

/-- A record is whole if its data is. -/
theorem whole_ofRecord (r : TaskRecord) :
    (ofRecord r).whole = (Value.object r.inputData).whole := by
  have howner : (ofNullable (fun id : UserId => .string id.name) r.actualOwner).whole = true :=
    whole_ofNullable (fun _ => rfl) r.actualOwner
  have hparameters := whole_ofNullable whole_ofParameters r.planningParameters
  simp [ofRecord, ofStatus, ofOwner, whole, wholeMembers, wholeItems_eq_all, whole_ofTaskId,
    isWord_int64, isWord_int32, howner, hparameters]

theorem whole_ofDirectoryUser (u : DirectoryUser) : (ofDirectoryUser u).whole = true := by
  simp [ofDirectoryUser, whole, wholeMembers, wholeItems_eq_all]

/-- A change is whole if the data of its task is. -/
theorem whole_ofMutation {m : Mutation}
    (h : ∀ data ∈ taskData m, (Value.object data).whole = true) : (ofMutation m).whole = true := by
  cases m with
  | add task | assign task user =>
    have htask := (whole_ofTask task).trans (h task.payload List.mem_cons_self)
    simp [ofMutation, whole, wholeMembers, htask]
  | remove task | release task => simp [ofMutation, whole, wholeMembers, whole_ofTaskId]

/-- A solution is whole if the data of its tasks is. -/
theorem whole_ofSolution {s : Solution}
    (h : ∀ t ∈ s.tasks.values, (Value.object t.payload).whole = true) :
    (ofSolution s).whole = true := by
  have htasks : ∀ e ∈ s.tasks.entries, (ofTask e.2).whole = true := fun e he =>
    (whole_ofTask e.2).trans (h e.2 (List.mem_map_of_mem he))
  have husers : ∀ e ∈ s.users.entries, (ofUser e.2).whole = true := fun e _ => whole_ofUser e.2
  simp only [ofSolution, whole, wholeMembers_eq_all, List.all_cons, List.all_nil, List.all_map,
    Bool.and_true, Bool.and_eq_true, List.all_eq_true, Function.comp_apply]
  exact ⟨husers, htasks⟩

end Whole

/-! ## nesting -/

section Fits

open Value

/-- An object fits if its members do in one level less and no name occurs twice. -/
theorem fits_object {ms : List (String × Value)} : (object ms).fits (room + 1) = true ↔
    fitsMembers room ms = true ∧ (ms.map Prod.fst).Nodup := by
  simp [fits]

/-- The data of a task nest one level less than the task. -/
theorem fits_ofTask {t : Task} (h : (Value.object t.payload).fits (room + 1) = true) :
    (ofTask t).fits (room + 2) = true := by
  have hanchor : ∀ a, (ofAnchor a).fits (room + 1) = true := by
    intro a
    cases a <;> simp [ofAnchor, ofTaskId, fits, fitsMembers]
  have hid : ∀ id, (ofTaskId id).fits (room + 1) = true := fun _ => rfl
  have hminutes : ∀ m, (ofMinutes m).fits (room + 1) = true := fun _ => rfl
  have hprevious := all_ofPresent hanchor "previous" t.previous
  have hnext := all_ofPresent hid "next" t.next
  have hstart := all_ofPresent hminutes "start_time" t.startTime
  have hend := all_ofPresent hminutes "end_time" t.endTime
  rw [fits_object, fitsMembers_eq_all] at h
  refine fits_object.mpr ⟨?_, (keys_ofTask rfl).nodup (by decide)⟩
  simp [ofOwner, fits, fitsMembers_eq_all, fitsItems_eq_all, hid, hminutes, hprevious, hnext,
    hstart, hend, h]

/-- The data of a task nest two levels less than the change that it is in. -/
theorem fits_ofMutation {m : Mutation}
    (h : ∀ data ∈ taskData m, (Value.object data).fits (room + 1) = true) :
    (ofMutation m).fits (room + 3) = true := by
  cases m with
  | add task | assign task user =>
    have htask := fits_ofTask (h task.payload List.mem_cons_self)
    simp [ofMutation, fits, fitsMembers, htask]
  | remove task | release task => simp [ofMutation, ofTaskId, fits, fitsMembers]

end Fits

end ChainPlanner.Wire
