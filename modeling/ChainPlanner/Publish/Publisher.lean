import ChainPlanner.Config.Basic
import ChainPlanner.Publish.Plan
import ChainPlanner.Runtime.Memory

/-!
# ChainPlanner.Publish.Publisher

The loop that stores plans with the task runtime.  It takes one job at a time, waits at the gate
of the runtime if there is one, and reports what became of the job before it takes the next.
Cancelling stops it wherever it is.
-/

namespace ChainPlanner

/-- A solution to publish, with the tasks that were published when it was handed over. -/
structure PublishJob where
  solution : Solution
  published : PublishedTasks

/-- What became of a job. -/
structure PublishOutcome where
  /-- The tasks published for the first time; none if storing failed. -/
  newlyPublished : List TaskId
  /-- How many placements were stored. -/
  result : Except RuntimeError Nat

/-- Where the loop is. -/
inductive PublisherStage where
  /-- Nobody runs the loop yet; jobs can be sent. -/
  | unstarted
  /-- Between jobs. -/
  | idle
  /-- A plan is being stored; it may wait at a gate. -/
  | applying (plan : PublishPlan) (gate : Option Nat)
  /-- Nobody will take jobs any more. -/
  | stopped

/-- The loop and the jobs sent to it. -/
structure Publisher where
  window : Nat
  pinOnPublish : Bool
  actingUser : String
  jobs : List PublishJob
  stage : PublisherStage

namespace Publisher

/-- A loop that nobody runs yet. -/
def ofConfig (c : Config) : Publisher where
  window := c.publishWindow.toNat
  pinOnPublish := c.pinOnPublish
  actingUser := c.actingUser
  jobs := []
  stage := .unstarted

/-- Whether a job that is sent will be taken or kept for the loop. -/
def isOpen (p : Publisher) : Bool :=
  match p.stage with
  | .stopped => false
  | _ => true

/-- Run the loop. -/
def start (p : Publisher) : Publisher := { p with stage := .idle }

/-- Send a job; a loop that has stopped drops it. -/
def send (p : Publisher) (job : PublishJob) : Publisher :=
  if p.isOpen then { p with jobs := p.jobs ++ [job] } else p

/-- Stop the loop, and drop all that it has not finished. -/
def cancel (p : Publisher) : Publisher := { p with jobs := [], stage := .stopped }

/-- The plan of a job. -/
def plan (p : Publisher) (job : PublishJob) : PublishPlan :=
  .ofSolution p.window p.pinOnPublish job.solution job.published

/-- What became of a plan whose storing gave a given answer. -/
def outcome (plan : PublishPlan) : Except RuntimeError Unit → PublishOutcome
  | .ok () => ⟨plan.newlyPublished, .ok plan.results.length⟩
  | .error e => ⟨[], .error e⟩

/-- What the loop does next, if it can do anything: take a job to the runtime, or have it stored
and report on it. -/
def step? (p : Publisher) (r : MemoryRuntime) :
    Option (Publisher × MemoryRuntime × Option PublishOutcome) :=
  match p.stage, p.jobs with
  | .idle, job :: jobs =>
    let (gate, r) := r.enterApply
    some ({ p with jobs, stage := .applying (p.plan job) gate }, r, none)
  | .applying plan gate, _ => do
    let r ← r.passGate? gate
    let (answer, r) := r.finishApply ⟨plan.results, p.actingUser⟩
    some ({ p with stage := .idle }, r, some (outcome plan answer))
  | _, _ => none

/-- Let the loop do what it can, in at most `steps` steps, and collect its reports. -/
def settle (p : Publisher) (r : MemoryRuntime) :
    (steps : Nat) → Publisher × MemoryRuntime × List PublishOutcome
  | 0 => (p, r, [])
  | steps + 1 => match p.step? r with
    | none => (p, r, [])
    | some (p, r, report) =>
      let (p, r, reports) := p.settle r steps
      (p, r, report.toList ++ reports)

/-- Send a job and let the loop do what it can. -/
def publish (p : Publisher) (r : MemoryRuntime) (job : PublishJob) :
    Publisher × MemoryRuntime × List PublishOutcome :=
  let p := p.send job
  p.settle r (2 * p.jobs.length)

end Publisher

end ChainPlanner
