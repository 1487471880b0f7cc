import ChainPlanner.Solution.Basic

/-!
# ChainPlanner.Solution.Check

Judging a solution: whether its links and times agree (`validate`), who is given work that is not
theirs (`violations`), and what finishing times cost (`penalty`).

`validate` follows every chain and keeps the tasks it has met.  A task met twice is an error, so
each step leaves fewer tasks unmet and the walk ends on any links whatever.
-/

namespace ChainPlanner.Solution

/-- A task met for the first time leaves fewer tasks unmet. -/
theorem length_filter_unseen_lt {keys seen : List TaskId} {id : TaskId} (hk : id ∈ keys)
    (hs : id ∉ seen) :
    (keys.filter fun k => k ∉ id :: seen).length < (keys.filter fun k => k ∉ seen).length := by
  have hsub : (keys.filter fun k => k ∉ id :: seen) =
      (keys.filter fun k => k ∉ seen).filter fun k => k ≠ id := by
    rw [List.filter_filter]
    congr 1
    funext k
    by_cases h : k = id <;> simp [h]
  rw [hsub]
  refine List.length_filter_lt_length_iff_exists.2 ⟨id, ?_, by simp⟩
  simp [hk, hs]

/-- Follow a chain from `cursor`, whose task should be linked after `previous` and start at
`start`.  The answer is `seen` with the tasks of the chain. -/
def checkFrom (s : Solution) (user : UserId) (seen : List TaskId) (previous : Anchor)
    (start : Minutes) (cursor : Option TaskId) : Except ChainError (List TaskId) :=
  match cursor with
  | none => .ok seen
  | some id =>
    if _ : id ∈ seen then .error (.cycle user id)
    else match _ : s.task? id with
      | none => .error (.unknownTask id)
      | some t =>
        if t.previous ≠ some previous then
          .error (.brokenBackLink id t.previous previous)
        else if t.startTime ≠ some start ∨ t.endTime ≠ some (start + t.duration) then
          .error (.staleTimes id start t.startTime)
        else s.checkFrom user (id :: seen) (.task id) (start + t.duration) t.next
termination_by (s.tasks.keys.filter fun k => k ∉ seen).length
decreasing_by
  rename_i met found _ _
  exact length_filter_unseen_lt (KeyedList.mem_keys_of_get? found) met

/-- Follow the chain of each worker in turn; the answer is every task met. -/
def checkChains (s : Solution) : Except ChainError (List TaskId) :=
  s.users.values.foldlM (fun seen u => s.checkFrom u.id seen (.user u.id) 0 u.next) []

/-- Whether the links agree on both ends, no chain meets itself or another, every linked task is
in a chain, and the times are the running sums of the durations. -/
def validate (s : Solution) : Except ChainError Unit := do
  let seen ← s.checkChains
  match s.tasks.values.find? fun t =>
      t.id ∉ seen && (t.previous.isSome || t.next.isSome) with
  | some t => throw (.orphaned t.id)
  | none => pure ()

/-- A placement against the rules of eligibility. -/
inductive Violation where
  /-- On a worker that is neither an owner nor in an owning group. -/
  | notEligible (task : TaskId) (user : UserId)
  /-- On the fallback user although another worker is eligible. -/
  | fallbackWhileEligible (task : TaskId) (eligible : UserId)
  deriving DecidableEq

/-- What is against the rules in one placement. -/
def violation? (s : Solution) (u : User) (t : Task) : Option Violation :=
  if u.isFallback then
    ((s.eligibleUsers t).find? fun v => !v.isFallback).map fun v =>
      .fallbackWhileEligible t.id v.id
  else if t.isEligible u then none
  else some (.notEligible t.id u.id)

/-- The placements against the rules, by worker in stored order and along each chain. -/
def violations (s : Solution) : List Violation :=
  s.users.values.flatMap fun u => (s.chain u.id).filterMap (s.violation? u)

/-- What all finishing times cost together. -/
def penalty (s : Solution) : Int :=
  (s.tasks.values.filterMap fun t => t.endTime.map t.priority.penalty).foldl (· + ·) 0

end ChainPlanner.Solution
