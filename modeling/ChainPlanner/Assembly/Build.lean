import ChainPlanner.Assembly.Error
import ChainPlanner.Assembly.Order
import ChainPlanner.Published
import ChainPlanner.Solution.Links

/-!
# ChainPlanner.Assembly.Build

The first solution, from the records of the runtime and the workers of the directory.  Owned tasks
go into the chains of their owners, in recorded order where the recorded worker is still the
owner; tasks that are ready, or whose owner the directory does not know, are left for the
optimizer.  The records that show a published task are entered into the set of published tasks,
and stay there even if a later record makes the build fail.
-/

namespace ChainPlanner.Assembly

/-- What the records have contributed so far. -/
structure Draft where
  /-- The slots of each worker. -/
  chains : KeyedList UserId (List Slot)
  unassigned : List Task
  published : PublishedTasks

namespace Draft

/-- How an owned record stands in the plan: whether it is published, whether its task is pinned,
and its position. -/
def standing (r : TaskRecord) (owner : UserId) : Bool × Bool × Int32 :=
  let inProgress := r.status = .inProgress
  match r.planningParameters with
  | some p =>
    let published := inProgress || p.published
    (published, published || p.pinned, if p.assignedUser = owner then p.index else -1)
  | none => (inProgress, inProgress, -1)

/-- Enter an owned record. -/
def addOwned (d : Draft) (r : TaskRecord) (owner : UserId) (task : Task) : Draft :=
  let (isPublished, pinned, index) := standing r owner
  let published := if isPublished then d.published.insert task.id else d.published
  if d.chains.contains owner then
    { d with published, chains := d.chains.modify owner (insertInOrder { task, index, pinned }) }
  else { d with published, unassigned := d.unassigned ++ [task] }

/-- Enter a record. -/
def add (d : Draft) (r : TaskRecord) : Except AssemblyError Draft :=
  match r.status with
  | .ready => do
    let task ← r.task?
    return { d with unassigned := d.unassigned ++ [task] }
  | .reserved | .inProgress | .suspended => match r.actualOwner with
    | none => .ok d
    | some owner => do return d.addOwned r owner (← r.task?)
  | _ => .ok d

/-- Enter records up to the first that does not fit. -/
def addAll (d : Draft) : List TaskRecord → Draft × Except AssemblyError Unit
  | [] => (d, .ok ())
  | r :: rs => match d.add r with
    | .ok d' => d'.addAll rs
    | .error e => (d, .error e)

end Draft

/-- Add a task and link it at the end of a chain. -/
def append (s : Solution) (user : UserId) (t : Task) : Except ChainError Solution := do
  let tail := s.chainTail user
  let s ← s.addTask t
  s.linkAfter tail t.id

/-- The workers of the directory and the fallback user, with empty chains. -/
def workers (directory : List DirectoryUser) : Solution :=
  (Solution.ofUsers (directory.map (·.toUser))).addUser .fallback

/-- The solution of a draft: the placeholder, then the chains, then the other tasks. -/
def Draft.solution? (d : Draft) (start : Solution) : Except ChainError Solution := do
  let s ← start.addTask { Task.placeholder with pinned := true }
  let s ← s.linkAfter (.user .fallback) .placeholder
  let s ← d.chains.entries.foldlM (fun s entry =>
    entry.2.foldlM (fun s slot => append s entry.1 { slot.task with pinned := slot.pinned }) s) s
  d.unassigned.foldlM Solution.addTask s

/-- An empty draft for the workers of a solution. -/
def Draft.start (s : Solution) (published : PublishedTasks) : Draft where
  chains := .ofList (s.users.values.map fun u => (u.id, []))
  unassigned := []
  published

/-- The solution that records and a directory describe, and the published tasks afterwards. -/
def build (records : List TaskRecord) (directory : List DirectoryUser)
    (published : PublishedTasks) : Except AssemblyError Solution × PublishedTasks :=
  let start := workers directory
  match (Draft.start start published).addAll records with
  | (d, .error e) => (.error e, d.published)
  | (d, .ok ()) => ((d.solution? start).mapError .chain, d.published)

end ChainPlanner.Assembly
