import ChainPlanner.Anchor
import ChainPlanner.Minutes

/-!
# ChainPlanner.ChainError

Why a chain cannot be edited, and what can be wrong with one.
-/

namespace ChainPlanner

/-- A refused edit of a chain, or a fault found in one. -/
inductive ChainError where
  | unknownTask (task : TaskId)
  | unknownUser (user : UserId)
  | duplicateTask (task : TaskId)
  | alreadyLinked (task : TaskId)
  | selfLink (task : TaskId)
  /-- The task to link after is in no chain itself. -/
  | detachedAnchor (task : TaskId)
  | cycle (user : UserId) (task : TaskId)
  | brokenBackLink (task : TaskId) (recorded : Option Anchor) (actual : Anchor)
  | orphaned (task : TaskId)
  | staleTimes (task : TaskId) (expectedStart : Minutes) (found : Option Minutes)
  deriving DecidableEq

namespace ChainError

/-- A possible time as diagnostics spell it out. -/
def timeText : Option Minutes → String
  | none => "None"
  | some m => s!"Some({m.toNat})"

/-- What is wrong, in words. -/
def message : ChainError → String
  | unknownTask task => s!"task {task.text} is not in the solution"
  | unknownUser user => s!"user {user.name} is not in the solution"
  | duplicateTask task => s!"a task with id {task.text} already exists"
  | alreadyLinked task => s!"task {task.text} is already linked, unlink it first"
  | selfLink task => s!"task {task.text} cannot be linked after itself"
  | detachedAnchor task => s!"cannot link after task {task.text}, it is not in any chain"
  | cycle user task => s!"chain of user {user.name} revisits task {task.text}"
  | brokenBackLink task recorded actual =>
    s!"task {task.text} records predecessor {Anchor.debugText recorded}" ++
      s!" but is linked from {actual.text}"
  | orphaned task => s!"task {task.text} is linked but not reachable from any user"
  | staleTimes task expectedStart found =>
    s!"task {task.text} has stale times: expected start {expectedStart.toNat}" ++
      s!", found {timeText found}"

end ChainError

end ChainPlanner
