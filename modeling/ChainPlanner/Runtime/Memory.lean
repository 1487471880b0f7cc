import ChainPlanner.Record
import ChainPlanner.Runtime.Error

/-!
# ChainPlanner.Runtime.Memory

A task runtime and a directory that live in memory.  Storing a published placement delegates the
task: a ready or reserved task becomes reserved by the planned worker.  Both can be told to fail,
and the runtime can hold placements at a gate until they are let through one by one.
-/

namespace ChainPlanner

/-- A call for tasks. -/
structure FetchCall where
  statuses : List TaskStatus
  page : UInt32
  pageSize : UInt32

/-- A call that stored placements. -/
structure ApplyCall where
  results : List PlanningResult
  actingUser : String

/-- Where calls that store placements wait.  A new gate gets a number of its own. -/
structure Gate where
  number : Nat
  permits : Nat

/-- A task runtime in memory, with the calls made so far. -/
structure MemoryRuntime where
  tasks : List TaskRecord
  fetches : List FetchCall
  /-- How many of the next fetches fail. -/
  fetchFailures : Nat
  /-- How many calls have come in to store placements, waiting ones included. -/
  appliesStarted : Nat
  applies : List ApplyCall
  /-- Why storing fails, if it does. -/
  applyFailure : Option String
  gate : Option Gate
  /-- How many gates there have been. -/
  gateCount : Nat

namespace MemoryRuntime

/-- A runtime that holds some tasks and has not been called. -/
def ofTasks (tasks : List TaskRecord) : MemoryRuntime where
  tasks
  fetches := []
  fetchFailures := 0
  appliesStarted := 0
  applies := []
  applyFailure := none
  gate := none
  gateCount := 0

/-! ## reading tasks -/

/-- One page of the tasks in some statuses. -/
def page (tasks : List TaskRecord) (call : FetchCall) : List TaskRecord :=
  ((tasks.filter (·.status ∈ call.statuses)).drop (call.page.toNat * call.pageSize.toNat)).take
    call.pageSize.toNat

/-- Answer a call for tasks. -/
def fetch (r : MemoryRuntime) (call : FetchCall) :
    Except RuntimeError (List TaskRecord) × MemoryRuntime :=
  let r := { r with fetches := r.fetches ++ [call] }
  if r.fetchFailures = 0 then (.ok (page r.tasks call), r)
  else (.error (.fetch "injected failure"), { r with fetchFailures := r.fetchFailures - 1 })

/-! ## storing placements -/

/-- A task with a placement stored. -/
def stored (t : TaskRecord) (p : PlanningParameters) : TaskRecord :=
  let t := { t with planningParameters := some p }
  if p.published && (t.status = .ready || t.status = .reserved) then
    { t with status := .reserved, actualOwner := some p.assignedUser }
  else t

/-- Change the first task with a given number. -/
def changeFirst (id : TaskId) (f : TaskRecord → TaskRecord) : List TaskRecord → List TaskRecord
  | [] => []
  | t :: ts => if t.taskId = id then f t :: ts else t :: changeFirst id f ts

/-- The tasks after placements have been stored one after another. -/
def storeAll (results : List PlanningResult) (tasks : List TaskRecord) : List TaskRecord :=
  results.foldl (fun ts r => changeFirst r.taskId (stored · r.parameters) ts) tasks

/-- A call to store placements comes in; the answer is the gate that it has to pass. -/
def enterApply (r : MemoryRuntime) : Option Nat × MemoryRuntime :=
  (r.gate.map (·.number), { r with appliesStarted := r.appliesStarted + 1 })

/-- Let a call through the gate that it came to, if it can pass. -/
def passGate? (r : MemoryRuntime) (gate : Option Nat) : Option MemoryRuntime :=
  match gate, r.gate with
  | none, _ => some r
  | some number, some g =>
    if g.number = number ∧ 0 < g.permits then
      some { r with gate := some { g with permits := g.permits - 1 } }
    else none
  | some _, none => none

/-- Store the placements of a call that is past its gate. -/
def finishApply (r : MemoryRuntime) (call : ApplyCall) :
    Except RuntimeError Unit × MemoryRuntime :=
  match r.applyFailure with
  | some reason => (.error (.apply reason), r)
  | none =>
    (.ok (), { r with tasks := storeAll call.results r.tasks, applies := r.applies ++ [call] })

/-! ## control -/

/-- Replace the tasks. -/
def setTasks (r : MemoryRuntime) (tasks : List TaskRecord) : MemoryRuntime := { r with tasks }

/-- Replace the first task with the same number, or add the task. -/
def upsert (r : MemoryRuntime) (t : TaskRecord) : MemoryRuntime :=
  if r.tasks.any (·.taskId = t.taskId) then
    { r with tasks := changeFirst t.taskId (fun _ => t) r.tasks }
  else { r with tasks := r.tasks ++ [t] }

/-- Put up a new gate without permits. -/
def holdApplies (r : MemoryRuntime) : MemoryRuntime :=
  { r with gate := some ⟨r.gateCount, 0⟩, gateCount := r.gateCount + 1 }

/-- Give the gate, if there is one, one more permit. -/
def releaseApply (r : MemoryRuntime) : MemoryRuntime :=
  { r with gate := r.gate.map fun g => { g with permits := g.permits + 1 } }

end MemoryRuntime

/-- A directory in memory. -/
structure MemoryDirectory where
  users : List DirectoryUser
  /-- How often it has been looked into. -/
  calls : Nat
  /-- How many of the next looks fail. -/
  failures : Nat

namespace MemoryDirectory

/-- A directory that nobody has looked into. -/
def ofUsers (users : List DirectoryUser) : MemoryDirectory := ⟨users, 0, 0⟩

/-- Look all workers up. -/
def findAll (d : MemoryDirectory) : Except DirectoryError (List DirectoryUser) × MemoryDirectory :=
  let d := { d with calls := d.calls + 1 }
  if d.failures = 0 then (.ok d.users, d)
  else (.error (.lookup "injected failure"), { d with failures := d.failures - 1 })

end MemoryDirectory

end ChainPlanner
