import ChainPlanner.Solution.Basic

/-!
# ChainPlanner.Solution.Links

Editing chains.  Linking, unlinking and relinking write the links on both sides of an edit and
then bring the times up to date from there to the end of the chain.

An edit that can fail half way has the type `Edit`: its answer comes with the solution as it then
stands, whether the answer is an error or not.
-/

namespace ChainPlanner

/-- A change of a solution that may stop at an error, keeping what it has changed so far. -/
abbrev Edit (ε α : Type) : Type := ExceptT ε (StateM Solution) α

/-- A change that is made whole or not at all. -/
def Edit.attempt {ε : Type} (f : Solution → Except ε Solution) : Edit ε Unit := fun s =>
  match f s with
  | .ok s' => (.ok (), s')
  | .error e => (.error e, s)

/-- What can be told from a solution, or an error. -/
def Edit.ask {ε α : Type} (f : Solution → Except ε α) : Edit ε α := fun s => (f s, s)

namespace Solution

/-! ## times -/

/-- When a task linked after a given position starts. -/
def startAfter (s : Solution) : Anchor → Minutes
  | .user _ => 0
  | .task id => ((s.task? id).bind (·.endTime)).getD 0

/-- Bring the times up to date from a task on, over at most `steps` tasks. -/
def retimeFrom (s : Solution) (steps : Nat) (cursor : Option TaskId) : Solution :=
  match steps, cursor with
  | 0, _ => s
  | _, none => s
  | steps + 1, some id => match s.task? id with
    | none => s
    | some t => match t.previous with
      | none => s
      | some previous =>
        let start := s.startAfter previous
        (s.modifyTask id (·.startingAt start)).retimeFrom steps t.next

/-- Bring the times up to date from a task to the end of its chain. -/
def retime (s : Solution) (id : TaskId) : Solution := s.retimeFrom s.tasks.size (some id)

/-! ## links -/

/-- What is linked after a position that a task can be linked after. -/
def nextOf (s : Solution) : Anchor → Except ChainError (Option TaskId)
  | .user id => match s.user? id with
    | none => .error (.unknownUser id)
    | some u => .ok u.next
  | .task id => match s.task? id with
    | none => .error (.unknownTask id)
    | some t => if t.previous.isNone then .error (.detachedAnchor id) else .ok t.next

/-- The error for a position that is not there. -/
def missing? (s : Solution) : Anchor → Option ChainError
  | .user id => if s.containsUser id then none else some (.unknownUser id)
  | .task id => if s.containsTask id then none else some (.unknownTask id)

/-- Write what is linked after a position. -/
def setNext (s : Solution) (anchor : Anchor) (next : Option TaskId) : Solution :=
  match anchor with
  | .user id => { s with users := s.users.modify id fun u => { u with next } }
  | .task id => s.modifyTask id fun t => { t with next }

/-- Write what a task, if there is one, is linked after. -/
def setPrevious (s : Solution) (task : Option TaskId) (anchor : Anchor) : Solution :=
  match task with
  | none => s
  | some id => s.modifyTask id fun t => { t with previous := some anchor }

/-- Link a task that is in no chain right after a position, before what follows that position. -/
def linkAfter (s : Solution) (anchor : Anchor) (id : TaskId) : Except ChainError Solution :=
  if anchor = .task id then .error (.selfLink id)
  else match s.task? id with
    | none => .error (.unknownTask id)
    | some t =>
      if t.previous.isSome || t.next.isSome then .error (.alreadyLinked id)
      else match s.nextOf anchor with
        | .error e => .error e
        | .ok successor =>
          let s := s.modifyTask id fun t => { t with previous := some anchor, next := successor }
          .ok (((s.setNext anchor (some id)).setPrevious successor (.task id)).retime id)

/-- Take a task out of its chain and join its neighbours; the answer is what it was linked after,
or `none` if it was in no chain. -/
def unlink (id : TaskId) : Edit ChainError (Option Anchor) := fun s =>
  match s.task? id with
  | none => (.error (.unknownTask id), s)
  | some t => match t.previous with
    | none => (.ok none, s)
    | some previous =>
      let s := s.modifyTask id (·.detached)
      match s.missing? previous with
      | some e => (.error e, s)
      | none =>
        let s := (s.setNext previous t.next).setPrevious t.next previous
        (.ok (some previous), s.retimeFrom s.tasks.size t.next)

/-- Take a task out of its chain, if it is in one, and link it after a position. -/
def relink (id : TaskId) (anchor : Anchor) : Edit ChainError Unit := do
  if anchor = .task id then throw (.selfLink id)
  let _ ← unlink id
  Edit.attempt fun s => s.linkAfter anchor id

/-- Take a task out of its chain and drop it; the answer is the task as it was then. -/
def removeTask (id : TaskId) : Edit ChainError (Option Task) := do
  if (← get).containsTask id then
    let _ ← unlink id
    let dropped := (← get).task? id
    modify fun s => { s with tasks := s.tasks.erase id }
    return dropped
  else return none

end Solution

end ChainPlanner
