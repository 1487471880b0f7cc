import ChainPlanner.Owner
import ChainPlanner.Task

/-!
# ChainPlanner.Record

What is exchanged with the task runtime and the directory: tasks as the runtime reports them,
the placements to be stored with them, and workers as the directory lists them.
-/

namespace ChainPlanner

/-- The life of a task in the runtime. -/
inductive TaskStatus where
  | created | ready | reserved | inProgress | suspended
  | completed | failed | error | exited | obsolete
  deriving DecidableEq

namespace TaskStatus

/-- The name of a status. -/
def text : TaskStatus → String
  | created => "Created"
  | ready => "Ready"
  | reserved => "Reserved"
  | inProgress => "InProgress"
  | suspended => "Suspended"
  | completed => "Completed"
  | failed => "Failed"
  | error => "Error"
  | exited => "Exited"
  | obsolete => "Obsolete"

/-- Every status. -/
def all : List TaskStatus :=
  [created, ready, reserved, inProgress, suspended, completed, failed, error, exited, obsolete]

/-- The status of a name. -/
def ofText? (s : String) : Option TaskStatus := all.find? fun status => status.text = s

/-- A status is read back from its name. -/
theorem ofText?_text (status : TaskStatus) : ofText? status.text = some status := by
  cases status <;> decide

/-- The statuses that the planner keeps track of. -/
def plannable : List TaskStatus := [ready, reserved, inProgress, suspended]

/-- No further work will happen on the task. -/
def isTerminal : TaskStatus → Bool
  | completed | failed | error | exited | obsolete => true
  | _ => false

end TaskStatus

/-- A placement as it is stored with a task. -/
structure PlanningParameters where
  assignedUser : UserId
  /-- The position in the chain of the assigned worker; negative when unknown. -/
  index : Int32
  pinned : Bool
  published : Bool
  deriving DecidableEq

/-- A task as the runtime reports it. -/
structure TaskRecord where
  taskId : TaskId
  processInstanceId : Int64
  processId : String
  containerId : String
  name : String
  /-- Any number; the planner refuses those that are no priority. -/
  priority : Int32
  status : TaskStatus
  actualOwner : Option UserId
  potentialOwners : List OwnerRef
  inputData : Payload
  planningParameters : Option PlanningParameters
  deriving DecidableEq

/-- A placement to store with a task. -/
structure PlanningResult where
  containerId : String
  taskId : TaskId
  processInstanceId : Int64
  parameters : PlanningParameters
  deriving DecidableEq

/-- A worker as the directory lists it. -/
structure DirectoryUser where
  id : UserId
  groups : List GroupId
  deriving DecidableEq

/-- The worker that the directory lists, with an empty chain. -/
def DirectoryUser.toUser (u : DirectoryUser) : User := ⟨u.id, .ofList u.groups, none⟩

end ChainPlanner
