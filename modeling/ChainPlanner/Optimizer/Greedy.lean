import ChainPlanner.Optimizer.Basic
import ChainPlanner.Placement

/-!
# ChainPlanner.Optimizer.Greedy

The built-in optimizer: it applies the submitted changes to its working copy, places every task
that has no place, reports, and waits for more.  It moves nothing that has a place.

Others submit batches and ask it to stop at any moment, so the loop is cut into the steps between
which that can happen (`Search.step`).
-/

namespace ChainPlanner

/-- Where the loop is. -/
inductive SearchStage where
  /-- About to take what is queued.  A `dirty` working copy has yet to be reported. -/
  | polling (dirty : Bool)
  /-- About to apply the batches it took. -/
  | holding (batches : List Batch) (dirty : Bool)
  /-- About to look at the queue and make a report. -/
  | placed
  /-- About to deliver a report. -/
  | reporting (event : BestSolution)
  | stopped

/-- The optimizer: its queue, and the loop with its working copy. -/
structure Search where
  working : Solution
  queue : List Batch
  terminated : Bool
  stage : SearchStage

namespace Search

/-- A loop about to begin from a solution. -/
def ofSolution (s : Solution) (queue : List Batch) (terminated : Bool) : Search :=
  ⟨s, queue, terminated, .polling true⟩

/-- Queue a batch. -/
def submit (s : Search) (batch : Batch) : Search := { s with queue := s.queue ++ [batch] }

/-- Ask the loop to stop. -/
def terminate (s : Search) : Search := { s with terminated := true }

/-- The report on the working copy. -/
def report (s : Search) : BestSolution where
  solution := s.working
  allMutationsProcessed := s.queue.isEmpty
  initialized := s.working.unassigned.isEmpty

/-- One step of the loop, and the report that it delivers if it does. -/
def step (s : Search) : Search × Option BestSolution :=
  match s.stage with
  | .polling dirty =>
    if s.terminated then ({ s with stage := .stopped }, none)
    else ({ s with queue := [], stage := .holding s.queue dirty }, none)
  | .holding batches dirty =>
    if dirty || !batches.isEmpty then
      let working := (Mutation.replay batches.flatten s.working).placeUnassigned.1
      ({ s with working, stage := .placed }, none)
    else ({ s with stage := .polling false }, none)
  | .placed => ({ s with stage := .reporting s.report }, none)
  | .reporting event => ({ s with stage := .polling false }, some event)
  | .stopped => (s, none)

/-- Steps up to the next report, at most `steps` of them. -/
def advance (s : Search) : (steps : Nat) → Search × Option BestSolution
  | 0 => (s, none)
  | steps + 1 => match s.step with
    | (s, some event) => (s, some event)
    | (s, none) => s.advance steps

/-- One round of the loop: take, apply, report. -/
def round (s : Search) : Search × Option BestSolution := s.advance 4

/-- The reports to a listener that answers them in turn with batches of its own and has the loop
stopped once it has no answer left or the answer is empty. -/
def converse (s : Search) (answers : List (List Batch)) : List BestSolution :=
  match s.round with
  | (_, none) => []
  | (s, some event) => match answers with
    | [] => [event]
    | [] :: _ => [event]
    | answer :: answers => event :: (answer.foldl submit s).converse answers

end Search

end ChainPlanner
