import ChainPlanner.ChainError
import ChainPlanner.KeyedList
import ChainPlanner.Task

/-!
# ChainPlanner.Solution.Basic

A solution: the workers, the tasks, and one chain of tasks for each worker.

A chain is stored in its links.  The worker names its first task, each task names what it is
linked after and what is linked after it, and the times of a task are stored with it.  Stored
links can disagree — a document may hold any — so every walk is bounded by the number of tasks.
-/

namespace ChainPlanner

/-- Workers and tasks in stored order, the tasks linked into one chain for each worker. -/
structure Solution where
  users : KeyedList UserId User
  tasks : KeyedList TaskId Task
  deriving DecidableEq

namespace Solution

/-- Nobody and nothing to do. -/
def empty : Solution := ⟨∅, ∅⟩

instance : EmptyCollection Solution := ⟨empty⟩

/-! ## views -/

/-- The worker under an id. -/
def user? (s : Solution) (id : UserId) : Option User := s.users.get? id

/-- The task under an id. -/
def task? (s : Solution) (id : TaskId) : Option Task := s.tasks.get? id

/-- The owner of last resort, if it is there. -/
def fallbackUser? (s : Solution) : Option User := s.user? .fallback

/-- Whether there is a worker under an id. -/
def containsUser (s : Solution) (id : UserId) : Bool := s.users.contains id

/-- Whether there is a task under an id. -/
def containsTask (s : Solution) (id : TaskId) : Bool := s.tasks.contains id

/-- Whether any task but the placeholder is there. -/
def hasRealTasks (s : Solution) : Bool := s.tasks.keys.any fun id => !id.isPlaceholder

/-- The tasks in no chain, in stored order. -/
def unassigned (s : Solution) : List Task := s.tasks.values.filter (·.isUnassigned)

/-- The workers that may work on a task, in stored order. -/
def eligibleUsers (s : Solution) (t : Task) : List User := s.users.values.filter t.isEligible

/-- The tasks that follow one another from a given one, at most `steps` of them. -/
def follow (s : Solution) (steps : Nat) (cursor : Option TaskId) : List Task :=
  match steps, cursor with
  | 0, _ => []
  | _, none => []
  | steps + 1, some id => match s.task? id with
    | none => []
    | some t => t :: s.follow steps t.next

/-- The tasks of a worker in chain order; none for an unknown worker. -/
def chain (s : Solution) (user : UserId) : List Task :=
  s.follow s.tasks.size ((s.user? user).bind (·.next))

/-- The ids of a worker's tasks in chain order. -/
def chainIds (s : Solution) (user : UserId) : List TaskId := (s.chain user).map (·.id)

/-- The last position of a chain: the worker itself if the chain is empty. -/
def chainTail (s : Solution) (user : UserId) : Anchor :=
  match (s.chain user).getLast? with
  | some t => .task t.id
  | none => .user user

/-- When the last task of a chain ends; zero for an empty chain. -/
def chainEndTime (s : Solution) (user : UserId) : Minutes :=
  ((s.chain user).getLast?.bind (·.endTime)).getD 0

/-- The worker reached by walking back from an anchor in fewer than `steps` steps. -/
def climb (s : Solution) (steps : Nat) (cursor : Option Anchor) : Option UserId :=
  match steps, cursor with
  | 0, _ => none
  | _, none => none
  | _, some (.user u) => some u
  | steps + 1, some (.task id) => match s.task? id with
    | none => none
    | some t => s.climb steps t.previous

/-- The worker whose chain holds a task. -/
def assignedUser? (s : Solution) (id : TaskId) : Option UserId :=
  (s.task? id).bind fun t => s.climb (s.tasks.size + 1) t.previous

/-- The position behind the leading run of pinned tasks of a chain. -/
def pinnedRunEnd (s : Solution) (user : UserId) : Except ChainError Anchor :=
  if s.containsUser user then
    match ((s.chain user).takeWhile (·.pinned)).getLast? with
    | some t => .ok (.task t.id)
    | none => .ok (.user user)
  else .error (.unknownUser user)

/-! ## workers and tasks -/

/-- Add a worker with an empty chain; of a worker that is there only the groups change. -/
def addUser (s : Solution) (u : User) : Solution :=
  if s.containsUser u.id then
    { s with users := s.users.modify u.id fun old => { old with groups := u.groups } }
  else { s with users := s.users.insert u.id { u with next := none } }

/-- The workers of a list, each with an empty chain, and no tasks. -/
def ofUsers (us : List User) : Solution := us.foldl addUser ∅

/-- Add a task in no chain. -/
def addTask (s : Solution) (t : Task) : Except ChainError Solution :=
  if s.containsTask t.id then .error (.duplicateTask t.id)
  else .ok { s with tasks := s.tasks.insert t.id t.detached }

/-- Change the task under an id. -/
def modifyTask (s : Solution) (id : TaskId) (f : Task → Task) : Solution :=
  { s with tasks := s.tasks.modify id f }

/-- Set whether the optimizer must leave a task where it is. -/
def setPinned (s : Solution) (id : TaskId) (pinned : Bool) : Except ChainError Solution :=
  if s.containsTask id then .ok (s.modifyTask id fun t => { t with pinned })
  else .error (.unknownTask id)

end Solution

end ChainPlanner
