import ChainPlanner.ChainError
import ChainPlanner.Record

/-!
# ChainPlanner.Assembly.Error

Tasks made from records, and why a solution cannot be made or compared with records.
-/

namespace ChainPlanner

/-- Why records do not fit into a solution. -/
inductive AssemblyError where
  | invalidPriority (task : TaskId) (error : PriorityError)
  | chain (error : ChainError)
  deriving DecidableEq

/-- What is wrong, in words. -/
def AssemblyError.message : AssemblyError → String
  | invalidPriority task error => s!"task {task.text} has an invalid priority: {error.message}"
  | chain error => error.message

/-- The task that a record is about, in no chain and unpinned. -/
def TaskRecord.task? (r : TaskRecord) : Except AssemblyError Task :=
  match Priority.ofInt? r.priority.toInt with
  | .error e => .error (.invalidPriority r.taskId e)
  | .ok priority => .ok
    { Task.ofId r.taskId r.name priority with
      processInstanceId := r.processInstanceId
      processId := r.processId
      containerId := r.containerId
      potentialOwners := r.potentialOwners
      payload := r.inputData }

end ChainPlanner
