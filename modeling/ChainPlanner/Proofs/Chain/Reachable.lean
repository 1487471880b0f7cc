import ChainPlanner.Placement
import ChainPlanner.Proofs.Chain.Mutations
import ChainPlanner.Proofs.Chain.Validation

/-!
# ChainPlanner.Proofs.Chain.Reachable

The solutions that operations can reach.  An `Operation` is one call with its arguments; running it
gives the solution as it stands afterwards, whether the call succeeded or not.  Every operation
keeps a solution arranged (`Arranged.exists_run`), the empty solution is arranged, and so is
whatever a sequence of operations leaves.
-/

namespace ChainPlanner

namespace Solution

variable {s s' : Solution} {lists : UserId → List TaskId}

/-! ## placing -/

/-- A placed task is linked to the end of the chain of the worker picked for it. -/
theorem linkAfter_of_place? {id : TaskId} (h : s.place? id = some s') :
    ∃ u, s.pickUser? id = some u ∧ s.linkAfter (s.chainTail u) id = .ok s' := by
  simp only [place?, bind, Option.bind_eq_some_iff] at h
  obtain ⟨u, hu, hlink⟩ := h
  cases hok : s.linkAfter (s.chainTail u) id with
  | error e => simp [hok, Except.toOption] at hlink
  | ok s₁ =>
    have hsame : s₁ = s' := by simpa [hok, Except.toOption] using hlink
    exact ⟨u, hu, hsame ▸ hok⟩

/-- Placing keeps a solution arranged. -/
theorem Arranged.exists_placeEach (h : s.Arranged lists) (ids : List TaskId) :
    ∃ lists', (s.placeEach ids).1.Arranged lists' := by
  induction ids generalizing s lists with
  | nil => exact ⟨lists, h⟩
  | cons id ids ih =>
    rw [placeEach]
    cases hplace : s.place? id with
    | none => exact ih h
    | some s' =>
      obtain ⟨u, -, hlink⟩ := linkAfter_of_place? hplace
      exact ih (h.linkAfter hlink).1

end Solution

/-! ## operations -/

/-- A call on a solution, with its arguments. -/
inductive Operation where
  | addUser (user : User)
  | addTask (task : Task)
  | removeTask (id : TaskId)
  | setPinned (id : TaskId) (pinned : Bool)
  | linkAfter (anchor : Anchor) (id : TaskId)
  | unlink (id : TaskId)
  | relink (id : TaskId) (anchor : Anchor)
  | apply (mutation : Mutation)
  | applyAll (mutations : List Mutation)
  | placeUnassigned

namespace Operation

/-- The solution after a call, whether the call succeeds or fails. -/
def run : Operation → Solution → Solution
  | addUser user, s => s.addUser user
  | addTask task, s => (Edit.attempt (·.addTask task) s).2
  | removeTask id, s => (Solution.removeTask id s).2
  | setPinned id pinned, s => (Edit.attempt (·.setPinned id pinned) s).2
  | linkAfter anchor id, s => (Edit.attempt (·.linkAfter anchor id) s).2
  | unlink id, s => (Solution.unlink id s).2
  | relink id anchor, s => (Solution.relink id anchor s).2
  | apply mutation, s => (mutation.apply s).2
  | applyAll mutations, s => (Mutation.applyAll mutations s).2
  | placeUnassigned, s => s.placeUnassigned.1

/-- The solution after calls in order. -/
def runAll (ops : List Operation) (s : Solution) : Solution := ops.foldl (fun s op => op.run s) s

end Operation

namespace Solution

variable {s s' : Solution} {lists : UserId → List TaskId}

/-- Every operation keeps a solution arranged. -/
theorem Arranged.exists_run (h : s.Arranged lists) (op : Operation) :
    ∃ lists', (op.run s).Arranged lists' := by
  cases op with
  | addUser u => exact ⟨lists, h.addUser u⟩
  | addTask t =>
    cases ht : s.task? t.id with
    | none =>
      have hadd : s.addTask t = .ok (s.withTask t) := by
        rw [addTask_eq, if_neg (by simp [containsTask_eq_false.2 ht])]
      rw [Operation.run, Edit.attempt_of_ok hadd]
      exact ⟨lists, h.withTask ht⟩
    | some w =>
      have hadd : s.addTask t = .error (.duplicateTask t.id) := by
        rw [addTask_eq, if_pos (containsTask_iff.2 ⟨w, ht⟩)]
      rw [Operation.run, Edit.attempt_of_error hadd]
      exact ⟨lists, h⟩
  | removeTask id =>
    obtain ⟨r, s', hok, harr, -⟩ := h.exists_removeTask id
    rw [Operation.run, hok]
    exact ⟨_, harr⟩
  | setPinned id pinned =>
    by_cases hid : s.containsTask id = true
    · rw [Operation.run, Edit.attempt_of_ok (if_pos hid)]
      exact ⟨lists, h.setPinned id pinned⟩
    · rw [Operation.run, Edit.attempt_of_error (if_neg hid)]
      exact ⟨lists, h⟩
  | linkAfter p id =>
    cases hlink : s.linkAfter p id with
    | error e =>
      rw [Operation.run, Edit.attempt_of_error hlink]
      exact ⟨lists, h⟩
    | ok s' =>
      rw [Operation.run, Edit.attempt_of_ok hlink]
      exact ⟨_, (h.linkAfter hlink).1⟩
  | unlink id =>
    cases ht : s.task? id with
    | none =>
      rw [Operation.run, unlink_of_task?_eq_none ht]
      exact ⟨lists, h⟩
    | some t =>
      obtain ⟨s', hok, harr, -⟩ := h.exists_unlink ht
      rw [Operation.run, hok]
      exact ⟨_, harr⟩
  | relink id p =>
    -- a relink that fails half way has unlinked, and the solution is arranged then too
    obtain ⟨herr, -⟩ | ⟨herr, -⟩ | ⟨s₁, harr, -, ⟨e, herr⟩ | ⟨s', hok, hlink⟩⟩ :=
      h.relink_cases id p
    · rw [Operation.run, herr]
      exact ⟨lists, h⟩
    · rw [Operation.run, herr]
      exact ⟨lists, h⟩
    · rw [Operation.run, herr]
      exact ⟨_, harr⟩
    · rw [Operation.run, hok]
      exact ⟨_, (harr.linkAfter hlink).1⟩
  | apply m => exact Mutation.exists_arranged_apply h m
  | applyAll ms => exact Mutation.exists_arranged_applyAll h ms
  | placeUnassigned => exact h.exists_placeEach s.pending

/-- The empty solution is arranged. -/
theorem arranged_empty : (∅ : Solution).Arranged fun _ => [] where
  keyed := ⟨fun h => (nomatch h), fun h => (nomatch h)⟩
  joined _ := rfl
  nodup _ := List.nodup_nil
  disjoint _ _ h := absurd h List.not_mem_nil
  free h := nomatch h
  timed _ := trivial

/-- Whatever operations leave is arranged. -/
theorem exists_arranged_runAll (ops : List Operation) :
    ∃ lists, (Operation.runAll ops ∅).Arranged lists := by
  have hrun : ∀ {s : Solution} {lists}, s.Arranged lists →
      ∃ lists', (Operation.runAll ops s).Arranged lists' := by
    induction ops with
    | nil => exact fun h => ⟨_, h⟩
    | cons op ops ih =>
      intro s lists h
      obtain ⟨lists', harr⟩ := h.exists_run op
      exact ih harr
  exact hrun arranged_empty

/-- What a sequence of operations can make of the empty solution. -/
def Reachable (s : Solution) : Prop := ∃ ops, Operation.runAll ops ∅ = s

/-- One more operation reaches a solution too. -/
theorem Reachable.run (h : s.Reachable) (op : Operation) : (op.run s).Reachable := by
  obtain ⟨ops, rfl⟩ := h
  exact ⟨ops ++ [op], List.foldl_append⟩

/-- What can be reached is arranged. -/
theorem Reachable.arranged (h : s.Reachable) : s.Arranged s.chainIds := by
  obtain ⟨ops, rfl⟩ := h
  obtain ⟨lists, harr⟩ := exists_arranged_runAll ops
  rw [harr.chainIds_eq]
  exact harr

/-- Whatever operations have been called on the empty solution, and whether they succeeded or not,
the solution is valid, its keys are the ids stored under them, each task is at most once in at most
one chain, walking back from a task reaches the worker whose chain holds it, a task in no chain has
neither links nor times, and the times along a chain are the sums of the durations, cut off at the
longest time. -/
theorem consistent_runAll (ops : List Operation) :
    let s := Operation.runAll ops ∅
    s.validate = .ok () ∧
      ((∀ u w, s.user? u = some w → w.id = u) ∧ ∀ x t, s.task? x = some t → t.id = x) ∧
      (∀ u, (s.chainIds u).Nodup) ∧
      (∀ u v, u ≠ v → ∀ x ∈ s.chainIds u, x ∉ s.chainIds v) ∧
      (∀ x u, s.assignedUser? x = some u ↔ x ∈ s.chainIds u) ∧
      (∀ x t, s.task? x = some t → ((∀ u, x ∉ s.chainIds u) ↔
        t.previous = none ∧ t.next = none ∧ t.startTime = none ∧ t.endTime = none)) ∧
      ∀ u k t, (s.chain u)[k]? = some t →
        t.startTime.map Minutes.toNat =
          some (min (4294967295) (((s.chain u).take k).map (·.duration.toNat)).sum) ∧
        t.endTime.map Minutes.toNat = some (min (4294967295)
          ((((s.chain u).take k).map (·.duration.toNat)).sum + t.duration.toNat)) := by
  intro s
  have h : s.Arranged s.chainIds := Reachable.arranged ⟨ops, rfl⟩
  have htimes : ∀ u k t, (s.chain u)[k]? = some t →
      t.startTime.map Minutes.toNat =
        some (min (4294967295) (((s.chain u).take k).map (·.duration.toNat)).sum) ∧
      t.endTime.map Minutes.toNat = some (min (4294967295)
        ((((s.chain u).take k).map (·.duration.toNat)).sum + t.duration.toNat)) := by
    intro u k t ht
    obtain ⟨hstart, hend⟩ := h.getElem?_chain ht
    have htake : (s.chain u).take (k + 1) = (s.chain u).take k ++ [t] := by
      rw [List.take_add_one, ht, Option.toList_some]
    rw [hstart, hend, htake, Option.map_some, Option.map_some, Minutes.toNat_ofNat,
      Minutes.toNat_ofNat, totalDuration, totalDuration, List.map_append, List.sum_append,
      Nat.min_comm _ Minutes.max, Nat.min_comm _ Minutes.max]
    exact ⟨rfl, by simp [Minutes.max]⟩
  exact ⟨h.layout.validate h.keyed, ⟨fun u w => h.keyed.user_id, fun x t => h.keyed.task_id⟩,
    h.nodup, fun u v => h.disjoint, fun x u => h.assignedUser?_eq_some_iff,
    fun x t => h.forall_not_mem_iff, htimes⟩

end Solution

end ChainPlanner
