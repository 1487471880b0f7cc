import ChainPlanner.Assembly.Build
import ChainPlanner.Assembly.Resync
import ChainPlanner.Optimizer.Driver
import ChainPlanner.Publish.Publisher

/-!
# ChainPlanner.Planner.Coordination

The state that the loops of a planner share, and its critical sections.

At most one solution is on its way to the task runtime.  A publishable solution that arrives in
the meantime is kept as the next one, and a newer one replaces it.  Changes that were submitted
and are not yet known to be in a solution are kept too, so that a comparison with new records
does not find them again.
-/

namespace ChainPlanner

/-- What the loops of a planner share. -/
structure Coordination where
  /-- The solution last handed over for publishing. -/
  current : Option Solution
  /-- The latest solution that arrived while one was on its way. -/
  next : Option Solution
  published : PublishedTasks
  /-- Whether a solution is on its way. -/
  processing : Bool
  /-- The changes submitted since the last publishable solution. -/
  submitted : List Mutation

namespace Coordination

/-- Nothing has happened yet. -/
def initial : Coordination := ⟨none, none, ∅, false, []⟩

/-! ## solutions on their way -/

/-- Make a solution the current one and hand it over, if there is anybody to take it. -/
def handOver (c : Coordination) (s : Solution) (isOpen : Bool) : Coordination × Option PublishJob :=
  let c := { c with current := some s }
  if isOpen then (c, some ⟨s, c.published⟩) else ({ c with processing := false }, none)

/-- A better solution arrives. -/
def bestSolution (c : Coordination) (event : BestSolution) (isOpen : Bool) :
    Coordination × Option PublishJob :=
  if event.isPublishable then
    let c := { c with submitted := [] }
    if c.processing then ({ c with next := some event.solution }, none)
    else { c with processing := true }.handOver event.solution isOpen
  else (c, none)

/-- A report on a published solution arrives: go on with the next one, if there is one. -/
def publishProcessed (c : Coordination) (outcome : PublishOutcome) (isOpen : Bool) :
    Coordination × Option PublishJob :=
  let c := match outcome.result with
    | .ok _ => { c with published := c.published.insertMany outcome.newlyPublished }
    | .error _ => c
  match c.next with
  | some s => { c with next := none }.handOver s isOpen
  | none => ({ c with processing := false }, none)

/-! ## starting -/

/-- The first solution for records and workers, with the published tasks that they show.  The
published tasks of the state itself do not change. -/
def firstSolution (c : Coordination) (records : List TaskRecord) (users : List DirectoryUser) :
    Except AssemblyError Solution × PublishedTasks :=
  Assembly.build records users c.published

/-- Enter the published tasks that the first solution showed. -/
def recover (c : Coordination) (published : PublishedTasks) : Coordination :=
  { c with published := c.published.union published }

/-! ## comparing -/

/-- The latest solution. -/
def latest? (c : Coordination) : Option Solution := c.next <|> c.current

/-- The latest solution with the changes that it may not contain yet. -/
def expected? (c : Coordination) : Option Solution := c.latest?.map (Mutation.replay c.submitted)

/-- The changes that records ask for; none before the first solution. -/
def compare (c : Coordination) (records : List TaskRecord) :
    Except AssemblyError (List Mutation) × Coordination :=
  match c.expected? with
  | none => (.ok [], c)
  | some s =>
    let (answer, published) := Assembly.resync s records c.published
    (answer, { c with published })

/-- Note that changes have been submitted. -/
def noteSubmitted (c : Coordination) (ms : List Mutation) : Coordination :=
  { c with submitted := c.submitted ++ ms }

end Coordination

end ChainPlanner
