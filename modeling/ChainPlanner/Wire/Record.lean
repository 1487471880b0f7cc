import ChainPlanner.Record
import ChainPlanner.Wire.Task

/-!
# ChainPlanner.Wire.Record

The JSON forms of what is exchanged with the task runtime and the directory.  Every field is
written, and one without a value is `null`.
-/

namespace ChainPlanner.Wire

open ChainPlanner.Json

/-- A status, by name. -/
def ofStatus (status : TaskStatus) : Value := .string status.text

/-- Read a status. -/
def status? (t : Tree) : Option TaskStatus := (name? t).bind TaskStatus.ofText?

/-- A stored placement. -/
def ofParameters (p : PlanningParameters) : Value :=
  .object
    [("assigned_user", .string p.assignedUser.name), ("index", .int p.index.toInt),
      ("pinned", .bool p.pinned), ("published", .bool p.published)]

/-- Read a stored placement. -/
def parameters? (t : Tree) : Option PlanningParameters := do
  let fs ← fields? ["assigned_user", "index", "pinned", "published"] t
  return {
    assignedUser := ← fs.required "assigned_user" userId?
    index := ← fs.required "index" word32?
    pinned := ← fs.required "pinned" Tree.bool?
    published := ← fs.required "published" Tree.bool? }

/-- A placement to store. -/
def ofResult (r : PlanningResult) : Value :=
  .object
    [("container_id", .string r.containerId), ("task_id", ofTaskId r.taskId),
      ("process_instance_id", .int r.processInstanceId.toInt),
      ("parameters", ofParameters r.parameters)]

/-- Read a placement to store. -/
def result? (t : Tree) : Option PlanningResult := do
  let fs ← fields? ["container_id", "task_id", "process_instance_id", "parameters"] t
  return {
    containerId := ← fs.required "container_id" Tree.text?
    taskId := ← fs.required "task_id" taskId?
    processInstanceId := ← fs.required "process_instance_id" word64?
    parameters := ← fs.required "parameters" parameters? }

/-- A reported task. -/
def ofRecord (r : TaskRecord) : Value :=
  .object
    [("task_id", ofTaskId r.taskId), ("process_instance_id", .int r.processInstanceId.toInt),
      ("process_id", .string r.processId), ("container_id", .string r.containerId),
      ("name", .string r.name), ("priority", .int r.priority.toInt),
      ("status", ofStatus r.status),
      ("actual_owner", ofNullable (fun id => .string id.name) r.actualOwner),
      ("potential_owners", .array (r.potentialOwners.map ofOwner)),
      ("input_data", .object r.inputData),
      ("planning_parameters", ofNullable ofParameters r.planningParameters)]

/-- The fields of a reported task in order. -/
def recordFields : List String :=
  ["task_id", "process_instance_id", "process_id", "container_id", "name", "priority", "status",
    "actual_owner", "potential_owners", "input_data", "planning_parameters"]

/-- Read a reported task. -/
def record? (t : Tree) : Option TaskRecord := do
  let fs ← fields? recordFields t
  return {
    taskId := ← fs.required "task_id" taskId?
    processInstanceId := ← fs.required "process_instance_id" word64?
    processId := ← fs.required "process_id" Tree.text?
    containerId := ← fs.required "container_id" Tree.text?
    name := ← fs.required "name" Tree.text?
    priority := ← fs.required "priority" word32?
    status := ← fs.required "status" status?
    actualOwner := ← fs.optional "actual_owner" none (nullable? userId?)
    potentialOwners := ← fs.optional "potential_owners" [] (list? owner?)
    inputData := ← fs.optional "input_data" [] (payload? (Value.maxDepth - 1))
    planningParameters := ← fs.optional "planning_parameters" none (nullable? parameters?) }

/-- A worker of the directory. -/
def ofDirectoryUser (u : DirectoryUser) : Value :=
  .object
    [("id", .string u.id.name), ("groups", .array (u.groups.map fun g => .string g.name))]

/-- Read a worker of the directory. -/
def directoryUser? (t : Tree) : Option DirectoryUser := do
  let fs ← fields? ["id", "groups"] t
  return {
    id := ← fs.required "id" userId?
    groups := ← fs.optional "groups" [] (list? groupId?) }

end ChainPlanner.Wire
