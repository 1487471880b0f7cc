import ChainPlanner.Optimizer.Greedy
import ChainPlanner.Optimizer.Recorder
import ChainPlanner.Planner.Coordination
import ChainPlanner.Sync.Basic
import ChainPlanner.Text.Duration

/-!
# ChainPlanner.Planner.Basic

A planner: the driver of an optimizer, the loop that publishes, and the loop that looks at the
task runtime once in every period, around the state that they share.

The loops move in small steps — a loop takes its permit, the optimizer reports, the publisher
takes or stores a plan — and `settle` takes such steps until none is left.  Time moves only
when it is told to.
-/

namespace ChainPlanner

/-- Why a call of the planner fails. -/
inductive PlannerError where
  | config (error : ConfigError)
  | driver (error : DriverError)
  | alreadyStarted
  | destroyed
  /-- The loops did not stop within so many milliseconds. -/
  | shutdownTimeout (milliseconds : UInt64)

/-- The optimizer of a planner. -/
inductive PlannerOptimizer where
  /-- The built-in one: the batches that it has not taken before it begins to solve, and then
  its loop. -/
  | greedy (queue : List Batch) (search : Option Search)
  /-- One that records its use. -/
  | recorder (r : Recorder)

/-- Where the loop of the driver is. -/
inductive DriverLoop where
  | absent | waiting | solving | finished
  deriving DecidableEq

/-- A planner, what it works on, and a log of what has happened. -/
structure Planner where
  config : Config
  runtime : MemoryRuntime
  directory : MemoryDirectory
  optimizer : PlannerOptimizer
  /-- Why no optimizer can be built, if none can. -/
  buildFailure : Option String
  driver : Driver
  driverLoop : DriverLoop
  coordination : Coordination
  publisher : Publisher
  /-- When the next look at the runtime is due, while the loop runs. -/
  syncDue : Option Nat
  /-- The time in milliseconds. -/
  now : Nat
  cancelled : Bool
  /-- Whether there are loops that nobody has waited for. -/
  unjoined : Bool
  /-- The batches submitted so far. -/
  batches : List Batch
  /-- The reports of the built-in optimizer so far. -/
  events : List BestSolution

namespace Planner

/-- A planner that nobody has used. -/
def new (config : Config) (runtime : MemoryRuntime) (directory : MemoryDirectory)
    (optimizer : PlannerOptimizer) (buildFailure : Option String) : Planner where
  config
  runtime
  directory
  optimizer
  buildFailure
  driver := .created
  driverLoop := .absent
  coordination := .initial
  publisher := .ofConfig config
  syncDue := none
  now := 0
  cancelled := false
  unjoined := false
  batches := []
  events := []

/-! ## small steps -/

/-- Send a job, if there is one, to the publisher. -/
def sendJob (p : Planner) : Option PublishJob → Planner
  | none => p
  | some job => { p with publisher := p.publisher.send job }

/-- A report of the optimizer passes the driver. -/
def forward (p : Planner) (event : BestSolution) : Planner :=
  if p.driver.forwards then
    let (coordination, job) := p.coordination.bestSolution event p.publisher.isOpen
    { p with coordination }.sendJob job
  else p

/-- A report of the publisher arrives. -/
def processed (p : Planner) (outcome : PublishOutcome) : Planner :=
  let (coordination, job) := p.coordination.publishProcessed outcome p.publisher.isOpen
  { p with coordination }.sendJob job

/-- The optimizer begins to solve. -/
def beginSolving (p : Planner) (initial : Solution) : Planner :=
  match p.optimizer with
  | .greedy queue _ =>
    { p with
      optimizer := .greedy [] (some (.ofSolution initial queue false))
      driverLoop := .solving }
  | .recorder r =>
    let (lasts, r) := r.solve initial
    { p with optimizer := .recorder r, driverLoop := if lasts then .solving else .finished }

/-- The loop of the driver takes its permit. -/
def takePermit (p : Planner) : Planner :=
  match p.driverLoop with
  | .waiting => match p.driver.release? with
    | none => p
    | some (.quit, driver) => { p with driver, driverLoop := .finished }
    | some (.solve initial, driver) => { p with driver }.beginSolving initial
  | _ => p

/-- One round of the built-in optimizer, if it solves. -/
def searchRound (p : Planner) : Planner :=
  match p.optimizer with
  | .greedy queue (some search) => match search.round with
    | (search, none) => { p with optimizer := .greedy queue (some search) }
    | (search, some event) =>
      { p with
        optimizer := .greedy queue (some search)
        events := p.events ++ [event] }.forward event
  | _ => p

/-- One step of the publisher, if it can make one. -/
def publishStep? (p : Planner) : Option Planner := do
  let (publisher, runtime, report) ← p.publisher.step? p.runtime
  let p := { p with publisher, runtime }
  match report with
  | none => return p
  | some outcome => return p.processed outcome

/-- Steps of the publisher, at most `steps` of them. -/
def publishSteps (p : Planner) : (steps : Nat) → Planner
  | 0 => p
  | steps + 1 => match p.publishStep? with
    | none => p
    | some p => p.publishSteps steps

/-- Let everything settle.  A plan under way, a job sent and a solution kept as the next one take
two steps each. -/
def settle (p : Planner) : Planner :=
  let p := p.takePermit.searchRound
  p.publishSteps (2 * p.publisher.jobs.length + 4)

/-! ## looking at the runtime -/

/-- Submit changes to the optimizer and note them, unless it does not run. -/
def submit (p : Planner) (ms : List Mutation) : Except PlannerError Nat × Planner :=
  match p.driver.submit with
  | .ok () =>
    let optimizer := match p.optimizer with
      | .greedy queue none => .greedy (queue ++ [ms]) none
      | .greedy queue (some search) => .greedy queue (some (search.submit ms))
      | .recorder r => .recorder (r.submit ms)
    (.ok ms.length,
      { p with
        optimizer
        batches := p.batches ++ [ms]
        coordination := p.coordination.noteSubmitted ms })
  | .error .notStarted => (.ok 0, p)
  | .error .destroyed => (.ok 0, p)
  | .error e => (.error (.driver e), p)

/-- Compare new records with the latest solution; the answer is the number of changes submitted,
or none if the comparison or the submission failed. -/
def refresh (records : List TaskRecord) (p : Planner) : Option Nat × Planner :=
  match p.coordination.compare records with
  | (.error _, coordination) => (none, { p with coordination })
  | (.ok [], coordination) => (some 0, { p with coordination })
  | (.ok ms, coordination) => match { p with coordination }.submit ms with
    | (.ok n, p) => (some n, p)
    | (.error _, p) => (none, p)

/-- Try to start the optimizer; the answer is whether there was anything to start on, or none if
something failed. -/
def bootstrap (records : List TaskRecord) (users : List DirectoryUser) (p : Planner) :
    Option Bool × Planner :=
  match p.coordination.firstSolution records users with
  | (.error _, _) => (none, p)
  | (.ok s, published) =>
    if s.hasRealTasks then
      match p.driver.start s with
      | (.error _, driver) => (none, { p with driver })
      | (.ok (), driver) =>
        (some true, { p with driver, coordination := p.coordination.recover published })
    else (some false, p)

/-- The planner as the receiver of what a look at the runtime has fetched. -/
def syncHandler : SyncHandler Planner where
  isStarted p := p.driver.isStarted
  bootstrap := bootstrap
  refresh := refresh

/-- Look at the runtime once. -/
def syncCycle (p : Planner) : Planner :=
  let (_, w) := syncHandler.cycle p.config.pageSize ⟨p.runtime, p.directory, p⟩
  { w.handler with runtime := w.runtime, directory := w.directory }

/-! ## calls -/

/-- Check the settings and build the optimizer. -/
def init (p : Planner) : Except PlannerError Unit × Planner :=
  match p.config.validate with
  | .error e => (.error (.config e), p)
  | .ok () =>
    let (answer, driver) := p.driver.init p.buildFailure
    (answer.mapError .driver, { p with driver })

/-- Run the loops. -/
def start (p : Planner) : Except PlannerError Unit × Planner :=
  if p.cancelled then (.error .destroyed, p)
  else if p.driver.state = .created then (.error (.driver .notInitialized), p)
  else match p.publisher.stage with
    | .unstarted =>
      (.ok (), { p with
        driverLoop := .waiting
        publisher := p.publisher.start
        syncDue := some (p.now + p.config.syncPeriod.toNat)
        unjoined := true }.settle)
    | _ => (.error .alreadyStarted, p)

/-- Let time pass.  However much it is, at most one look at the runtime falls due, and the next
one is a full period later. -/
def advance (p : Planner) (milliseconds : Nat) : Planner :=
  let p := { p with now := p.now + milliseconds }
  match p.syncDue with
  | some due =>
    if due ≤ p.now then
      { p.syncCycle with syncDue := some (p.now + p.config.syncPeriod.toNat) }.settle
    else p.settle
  | none => p.settle

/-- The optimizer is asked to stop. -/
def terminateOptimizer (p : Planner) : Planner :=
  match p.optimizer with
  | .greedy queue search =>
    { p with
      optimizer := .greedy queue (search.map (·.terminate))
      driverLoop := if p.driverLoop = .solving then .finished else p.driverLoop }
  | .recorder r =>
    { p with
      optimizer := .recorder r.terminate
      driverLoop :=
        if p.driverLoop = .solving ∧ r.temper = .obedient then .finished else p.driverLoop }

/-- Stop all loops and wait for them, if nobody has.  With no time to wait, loops that were
running do not stop in time; nor does an optimizer that will not stop. -/
def destroy (p : Planner) : Except PlannerError Unit × Planner :=
  let (stop, driver) := p.driver.destroy
  let p := { p with
    driver
    cancelled := true
    publisher := p.publisher.cancel
    syncDue := none }
  let p : Planner := if stop then p.terminateOptimizer else p
  let p := p.settle
  let late := p.unjoined && (p.config.shutdownTimeout == 0 || p.driverLoop == .solving)
  let answer := if late then .error (.shutdownTimeout p.config.shutdownTimeout) else .ok ()
  (answer, { p with unjoined := false })

/-- A recording optimizer reports, if anybody listens to it; the answer is whether somebody
does. -/
def emit (p : Planner) (event : BestSolution) : Bool × Planner :=
  match p.optimizer with
  | .recorder r => if r.hasListener then (true, (p.forward event).settle) else (false, p)
  | .greedy _ _ => (false, p)

/-- Change the runtime or the directory from outside. -/
def outside (p : Planner) (f : MemoryRuntime → MemoryRuntime)
    (g : MemoryDirectory → MemoryDirectory) : Planner :=
  { p with runtime := f p.runtime, directory := g p.directory }.settle

end Planner

/-- What is wrong with a call of the planner, in words. -/
def PlannerError.message? : PlannerError → Option String
  | config error => error.message?
  | driver error => some error.message
  | alreadyStarted => some "planner was already started"
  | destroyed => some "planner was destroyed"
  | shutdownTimeout ms =>
    some s!"planner loops did not stop within {Text.durationText ms.toNat}"

end ChainPlanner
