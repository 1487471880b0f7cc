import ChainPlanner.Id
import ChainPlanner.Text.Quoted

/-!
# ChainPlanner.Anchor

What a task can be linked after: a worker, at the head of the chain, or another task.
-/

namespace ChainPlanner

/-- A position to link a task after. -/
inductive Anchor where
  | user (id : UserId)
  | task (id : TaskId)
  deriving DecidableEq

namespace Anchor

/-- The kind and the id, parted by a colon. -/
def text : Anchor → String
  | user id => s!"user:{id.name}"
  | task id => s!"task:{id.text}"

/-- A possible anchor as diagnostics spell it out. -/
def debugText : Option Anchor → String
  | none => "None"
  | some (user id) => s!"Some(User(UserId({Text.quote id.name})))"
  | some (task id) => s!"Some(Task(TaskId({id.text})))"

end Anchor

end ChainPlanner
