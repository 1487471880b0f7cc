import ChainPlanner.Id
import ChainPlanner.SortedSet

/-!
# ChainPlanner.Published

The tasks whose placement the runtime has been told.  A task leaves the set when it is released
back to the optimizer.
-/

namespace ChainPlanner

/-- A set of published tasks. -/
abbrev PublishedTasks := SortedSet TaskId

namespace PublishedTasks

/-- Add a task, and tell whether it was new. -/
def mark (p : PublishedTasks) (id : TaskId) : Bool × PublishedTasks :=
  (decide (id ∉ p), p.insert id)

/-- Take a task out, and tell whether it was there. -/
def forget (p : PublishedTasks) (id : TaskId) : Bool × PublishedTasks :=
  (decide (id ∈ p), p.erase id)

end PublishedTasks

end ChainPlanner
