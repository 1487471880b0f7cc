import ChainPlanner.Solution.Basic

/-!
# ChainPlanner.Solution.Layout

Chains as plain lists.  `Layout s lists` says that the stored links and times of `s` are those of
one list of tasks for each worker: the lists are disjoint and without repetition, neighbours in a
list are linked to each other, times are running sums, and a task in no list has no links.
-/

namespace ChainPlanner.Solution

/-- The links from `cursor` on are those of the list `ids`, whose first task is linked after
`previous` and starts at `start`. -/
def Linked (s : Solution) (previous : Anchor) (start : Minutes) (cursor : Option TaskId) :
    List TaskId → Prop
  | [] => cursor = none
  | id :: ids => cursor = some id ∧ ∃ t, s.task? id = some t ∧ t.previous = some previous ∧
      t.startTime = some start ∧ t.endTime = some (start + t.duration) ∧
      s.Linked (.task id) (start + t.duration) t.next ids

/-- Every key is the id stored under it. -/
structure Keyed (s : Solution) : Prop where
  user_id : ∀ {id u}, s.user? id = some u → u.id = id
  task_id : ∀ {id t}, s.task? id = some t → t.id = id

/-- The stored links and times are those of one list of tasks for each worker. -/
structure Layout (s : Solution) (lists : UserId → List TaskId) : Prop where
  linked : ∀ {id u}, s.user? id = some u → s.Linked (.user id) 0 u.next (lists id)
  nodup : ∀ {id}, s.containsUser id = true → (lists id).Nodup
  disjoint : ∀ {u v}, s.containsUser u = true → s.containsUser v = true → u ≠ v →
    ∀ t ∈ lists u, t ∉ lists v
  unlinked : ∀ {id t}, s.task? id = some t →
    (∀ u, s.containsUser u = true → id ∉ lists u) → t.previous = none ∧ t.next = none

end ChainPlanner.Solution
