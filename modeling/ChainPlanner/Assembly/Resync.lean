import ChainPlanner.Assembly.Error
import ChainPlanner.Mutation
import ChainPlanner.Published

/-!
# ChainPlanner.Assembly.Resync

The changes that bring a solution in line with new records.  A task that is where its record says
needs no change.  Owned tasks are entered into the set of published tasks, released ones leave it;
both happen record by record and stay even if a later record makes the comparison fail.  Only the
first record of a task counts, a record in a terminal status counts as none, and a task without
a record is removed.
-/

namespace ChainPlanner.Assembly

/-- What the records have shown so far. -/
structure Comparison where
  /-- The tasks of the solution that no record has named. -/
  remaining : List TaskId
  /-- The tasks that a record has named. -/
  seen : List TaskId
  published : PublishedTasks
  mutations : List Mutation

namespace Comparison

/-- A comparison before its first record. -/
def start (s : Solution) (published : PublishedTasks) : Comparison where
  remaining := ((s.tasks.values.map (·.id)).filter fun id => !id.isPlaceholder).eraseDups
  seen := []
  published
  mutations := []

/-- What a record of a ready task asks for.  A pinned or published task that is ready again was
released from outside. -/
def judgeReady (known : Option Task) (r : TaskRecord) (published : PublishedTasks) :
    PublishedTasks × Except AssemblyError (Option Mutation) :=
  match known with
  | none => (published, r.task?.map fun t => some (.add t))
  | some t =>
    if t.pinned || r.taskId ∈ published then
      (published.erase r.taskId, .ok (some (.release r.taskId)))
    else (published, .ok none)

/-- What a record of an owned task asks for. -/
def judgeOwned (s : Solution) (known : Option Task) (r : TaskRecord) (owner : UserId) :
    Except AssemblyError (Option Mutation) :=
  match known with
  | none =>
    r.task?.map fun t => some (if s.containsUser owner then .assign t owner else .add t)
  | some t =>
    .ok <|
      if s.containsUser owner then
        if s.assignedUser? r.taskId = some owner then none else some (.assign t.detached owner)
      else if t.isUnassigned then none else some (.release r.taskId)

/-- What a record asks for, and the published tasks after it. -/
def judge (s : Solution) (known : Option Task) (r : TaskRecord) (published : PublishedTasks) :
    PublishedTasks × Except AssemblyError (Option Mutation) :=
  match r.status, r.actualOwner with
  | .ready, _ => judgeReady known r published
  | .reserved, some owner | .inProgress, some owner | .suspended, some owner =>
    (published.insert r.taskId, judgeOwned s known r owner)
  | _, _ => (published, .ok none)

/-- Take a record into account. -/
def add (s : Solution) (c : Comparison) (r : TaskRecord) : Comparison × Except AssemblyError Unit :=
  if r.taskId ∈ c.seen then (c, .ok ())
  else if r.status.isTerminal then ({ c with seen := r.taskId :: c.seen }, .ok ())
  else
    let known := if r.taskId ∈ c.remaining then s.task? r.taskId else none
    let (published, answer) := judge s known r c.published
    let c := { c with
      remaining := c.remaining.erase r.taskId
      seen := r.taskId :: c.seen
      published }
    match answer with
    | .error e => (c, .error e)
    | .ok none => (c, .ok ())
    | .ok (some m) => ({ c with mutations := c.mutations ++ [m] }, .ok ())

/-- Take records into account, up to the first that does not fit. -/
def addAll (s : Solution) (c : Comparison) :
    List TaskRecord → Comparison × Except AssemblyError Unit
  | [] => (c, .ok ())
  | r :: rs => match c.add s r with
    | (c, .ok ()) => c.addAll s rs
    | (c, .error e) => (c, .error e)

end Comparison

/-- The changes that bring a solution in line with records, and the published tasks afterwards. -/
def resync (s : Solution) (records : List TaskRecord) (published : PublishedTasks) :
    Except AssemblyError (List Mutation) × PublishedTasks :=
  match (Comparison.start s published).addAll s records with
  | (c, .error e) => (.error e, c.published)
  | (c, .ok ()) => (.ok (c.mutations ++ c.remaining.map .remove), c.published)

end ChainPlanner.Assembly
