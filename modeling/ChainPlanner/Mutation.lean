import ChainPlanner.Solution.Links

/-!
# ChainPlanner.Mutation

Changes that come from outside and that a running optimizer applies to its working copy.  Each
goes through the chain operations, so links and times agree after every one.
-/

namespace ChainPlanner

/-- A change from outside. -/
inductive Mutation where
  /-- Add a task in no chain. -/
  | add (task : Task)
  /-- Pin a task to a worker behind its leading pinned tasks; the task is added if it is absent. -/
  | assign (task : Task) (user : UserId)
  /-- Drop a task. -/
  | remove (task : TaskId)
  /-- Take a task out of its chain, unpinned, for the optimizer to place. -/
  | release (task : TaskId)
  deriving DecidableEq

/-- Why a change is rejected. -/
inductive MutationError where
  | duplicateTask (task : TaskId)
  | unknownUser (user : UserId)
  | chain (error : ChainError)
  deriving DecidableEq

/-- What is wrong, in words. -/
def MutationError.message : MutationError → String
  | duplicateTask task => s!"a task with the given identifier id: {task.text} already exists"
  | unknownUser user => s!"expected user {user.name} was not found in the working solution"
  | chain error => error.message

namespace Mutation

/-- The task that a change is about. -/
def taskId : Mutation → TaskId
  | add task => task.id
  | assign task _ => task.id
  | remove task => task
  | release task => task

/-- The change in words. -/
def text : Mutation → String
  | add task => s!"add task {task.id.text}"
  | assign task user => s!"assign task {task.id.text} to {user.name}"
  | remove task => s!"remove task {task.text}"
  | release task => s!"release task {task.text}"

/-- A chain operation as a part of a change. -/
def chainEdit {α : Type} (e : Edit ChainError α) : Edit MutationError α := e.adapt .chain

/-- Make the change. -/
def apply : Mutation → Edit MutationError Unit
  | add task => do
    if (← get).containsTask task.id then throw (.duplicateTask task.id)
    chainEdit (Edit.attempt (·.addTask task))
  | assign task user => do
    if !(← get).containsUser user then throw (.unknownUser user)
    if (← get).containsTask task.id then
      let _ ← chainEdit (Solution.unlink task.id)
    else chainEdit (Edit.attempt (·.addTask task))
    let position ← chainEdit (Edit.ask (·.pinnedRunEnd user))
    chainEdit (Edit.attempt (·.linkAfter position task.id))
    chainEdit (Edit.attempt (·.setPinned task.id true))
  | remove task => do
    let _ ← chainEdit (Solution.removeTask task)
  | release task => do
    if (← get).containsTask task then
      let _ ← chainEdit (Solution.unlink task)
      chainEdit (Edit.attempt (·.setPinned task false))

/-- Make changes in order, up to the first that is rejected. -/
def applyAll : List Mutation → Edit MutationError Unit
  | [] => pure ()
  | m :: ms => do
    m.apply
    applyAll ms

/-- The solution after a change, made or rejected. -/
def run (m : Mutation) (s : Solution) : Solution := (m.apply s).2

/-- The solution after changes in order, the rejected ones skipped. -/
def replay (ms : List Mutation) (s : Solution) : Solution := ms.foldl (fun s m => m.run s) s

end Mutation

end ChainPlanner
