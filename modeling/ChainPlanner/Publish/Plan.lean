import ChainPlanner.Published
import ChainPlanner.Record
import ChainPlanner.Solution.Basic

/-!
# ChainPlanner.Publish.Plan

What a solution says to the task runtime: one placement for each task in a chain but the
placeholder, numbered along the chain.  Of each worker's tasks a window is published: those that
are published already count, and the first ones that are not fill it up.
-/

namespace ChainPlanner

/-- Placements to store, and the tasks that they publish for the first time. -/
structure PublishPlan where
  results : List PlanningResult
  newlyPublished : List TaskId
  deriving DecidableEq

namespace PublishPlan

/-- The placement of a task at a position of a worker's chain. -/
def placement (published : PublishedTasks) (user : UserId) (t : Task) (index : Nat) :
    PlanningResult where
  containerId := t.containerId
  taskId := t.id
  processInstanceId := t.processInstanceId
  parameters :=
    { assignedUser := user
      index := .ofNat index
      pinned := t.pinned
      published := t.id ∈ published }

/-- The placements of a worker's tasks, before the window is filled up. -/
def placements (s : Solution) (published : PublishedTasks) (user : UserId) :
    List PlanningResult :=
  ((s.chain user).filter fun t => !t.isPlaceholder).zipIdx.map fun t =>
    placement published user t.1 t.2

/-- The placement of a task that is published for the first time. -/
def exposed (pin : Bool) (r : PlanningResult) : PlanningResult :=
  { r with parameters :=
    { r.parameters with published := true, pinned := pin || r.parameters.pinned } }

/-- Publish the first `room` tasks that are not published. -/
def fill (pin : Bool) (room : Nat) : List PlanningResult → PublishPlan
  | [] => ⟨[], []⟩
  | r :: rs =>
    if r.parameters.published then
      let p := fill pin room rs
      { p with results := r :: p.results }
    else match room with
      | 0 => ⟨r :: rs, []⟩
      | room + 1 =>
        let p := fill pin room rs
        ⟨exposed pin r :: p.results, r.taskId :: p.newlyPublished⟩

/-- The plan for one worker. -/
def ofUser (window : Nat) (pin : Bool) (s : Solution) (published : PublishedTasks)
    (user : UserId) : PublishPlan :=
  let rs := placements s published user
  fill pin (window - (rs.filter (·.parameters.published)).length) rs

/-- The plan for all workers in stored order. -/
def ofSolution (window : Nat) (pin : Bool) (s : Solution) (published : PublishedTasks) :
    PublishPlan :=
  let plans := s.users.values.map fun u => ofUser window pin s published u.id
  ⟨plans.flatMap (·.results), plans.flatMap (·.newlyPublished)⟩

end PublishPlan

end ChainPlanner
