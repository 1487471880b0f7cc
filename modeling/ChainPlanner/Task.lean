import ChainPlanner.Anchor
import ChainPlanner.Owner
import ChainPlanner.Priority
import ChainPlanner.Json.Value

/-!
# ChainPlanner.Task

Tasks as the planner sees them: what the runtime says about them, and their place in a chain.
The links and the times belong to the chain operations of a solution.
-/

namespace ChainPlanner

/-- Named data that travels with a task, in the order in which the names first came.  It is only
looked up by name, so the order is seen where the data is listed and nowhere else. -/
abbrev Payload := List (String × Json.Value)

/-- A piece of work. -/
structure Task where
  id : TaskId
  name : String
  priority : Priority
  duration : Minutes
  processInstanceId : Int64
  processId : String
  containerId : String
  potentialOwners : List OwnerRef
  /-- Whether the optimizer must leave it where it is. -/
  pinned : Bool
  payload : Payload
  /-- What it is linked after. -/
  previous : Option Anchor
  /-- What is linked after it. -/
  next : Option TaskId
  startTime : Option Minutes
  endTime : Option Minutes
  deriving DecidableEq

namespace Task

/-- The duration of a task for which the runtime gives none. -/
def defaultDuration : Minutes := .ofNat 1

/-- A task in no chain, unpinned and without owners. -/
def ofId (id : TaskId) (name : String) (priority : Priority) : Task where
  id
  name
  priority
  duration := defaultDuration
  processInstanceId := 0
  processId := ""
  containerId := ""
  potentialOwners := []
  pinned := false
  payload := []
  previous := none
  next := none
  startTime := none
  endTime := none

/-- Filler that keeps the chain of the fallback user non-empty. -/
def placeholder : Task :=
  { ofId .placeholder "placeholder" .lowest with potentialOwners := [.user .fallback] }

/-- Whether this is the filler. -/
def isPlaceholder (t : Task) : Bool := t.id.isPlaceholder

/-- In no chain. -/
def isUnassigned (t : Task) : Bool := t.previous.isNone

/-- Whether a worker may work on the task, by name or through a group. -/
def isEligible (t : Task) (u : User) : Bool := t.potentialOwners.any (·.covers u)

/-- Whether a worker is named as an owner. -/
def hasDirectOwner (t : Task) (id : UserId) : Bool := t.potentialOwners.contains (.user id)

/-- The task without its place in a chain. -/
def detached (t : Task) : Task :=
  { t with previous := none, next := none, startTime := none, endTime := none }

/-- The task with the times of one that starts at a given time. -/
def startingAt (t : Task) (start : Minutes) : Task :=
  { t with startTime := some start, endTime := some (start + t.duration) }

end Task

end ChainPlanner
