import ChainPlanner.Proofs.Replay.Ahead

/-!
# ChainPlanner.Proofs.Replay.Simulation

A replay of changes stands for the working copy of an optimizer that makes the same changes and
places tasks in between.

What is done with a working copy is a list of `WorkStep`s.  Whatever is asked of a solution from a
distance is worked out on the replay of `WorkStep.changes`, which knows nothing of the placements;
`replay_simulates_working_copy` says what that loses: nothing of the workers and the tasks, no
answer to a change, and of the chains only what the optimizer has put at their ends.

The two start from one solution, in which no task may be without a place.  A loose task of it could
be pinned, and once it has been placed the end of a leading run of pinned tasks would lie behind it
in the one and before it in the other.
-/

namespace ChainPlanner

open Solution

/-- What is done with a working copy. -/
inductive WorkStep where
  | change (mutation : Mutation)
  | place
  deriving DecidableEq

namespace WorkStep

/-- The working copy after a step; a rejected change leaves it as it is. -/
def run : WorkStep → Solution → Solution
  | change m, s => m.run s
  | place, s => s.placeUnassigned.1

/-- The working copy after steps in order. -/
def runAll (steps : List WorkStep) (s : Solution) : Solution :=
  steps.foldl (fun s step => step.run s) s

/-- The changes among steps. -/
def changes (steps : List WorkStep) : List Mutation :=
  steps.filterMap fun
    | change m => some m
    | place => none

variable {steps steps' : List WorkStep} {m : Mutation} {s w r L : Solution}

/-- Steps can be taken in two parts. -/
theorem runAll_append (steps steps' : List WorkStep) (s : Solution) :
    runAll (steps ++ steps') s = runAll steps' (runAll steps s) :=
  List.foldl_append

/-- The changes come in the order of the steps. -/
theorem changes_append (steps steps' : List WorkStep) :
    changes (steps ++ steps') = changes steps ++ changes steps' :=
  List.filterMap_append

@[simp] theorem changes_map_change (ms : List Mutation) : changes (ms.map change) = ms := by
  induction ms with
  | nil => rfl
  | cons m ms ih => exact congrArg (m :: ·) ih

/-- Steps without placing are a replay. -/
theorem runAll_map_change (ms : List Mutation) (s : Solution) :
    runAll (ms.map change) s = Mutation.replay ms s := by
  rw [runAll, List.foldl_map]
  rfl

/-- Whatever is done with a copy, operations could have done. -/
theorem reachable_runAll (h : L.Reachable) (steps : List WorkStep) :
    (runAll steps L).Reachable := by
  induction steps generalizing L with
  | nil => exact h
  | cons step steps ih =>
    cases step with
    | change m => exact ih (h.run (.apply m))
    | place => exact ih (h.run .placeUnassigned)

/-! ## the working copy stays ahead -/

/-- After any steps the working copy is ahead of a replay of its changes. -/
theorem ahead_runAll (h : w.Ahead r) (hadds : ∀ t, change (.add t) ∈ steps → t.pinned = false) :
    (runAll steps w).Ahead (Mutation.replay (changes steps) r) := by
  induction steps generalizing w r with
  | nil => exact h
  | cons step steps ih =>
    have hrest : ∀ t, change (.add t) ∈ steps → t.pinned = false := fun t ht =>
      hadds t (List.mem_cons_of_mem step ht)
    cases step with
    | change m =>
      have hm : ∀ t, m = .add t → t.pinned = false := fun t he =>
        hadds t (he ▸ List.mem_cons_self)
      exact ih (h.apply m hm).2 hrest
    | place => exact ih h.placeUnassigned hrest

end WorkStep

namespace Solution.Ahead

variable {w r : Solution}

/-- A chain of the solution ahead is the chain of the other one and unpinned tasks that have no
place there. -/
theorem chainIds_eq (h : w.Ahead r) (u : UserId) :
    ∃ extra, w.chainIds u = r.chainIds u ++ extra ∧
      ∀ x ∈ extra, ∃ t, r.task? x = some t ∧ t.isUnassigned = true ∧ t.pinned = false := by
  obtain ⟨extra, hlists, hextra⟩ := h.trails.lists u
  have hchain : w.chainIds u = r.chainIds u ++ extra := hlists
  refine ⟨extra, hchain, fun x hx => ?_⟩
  have hmem : x ∈ w.chainIds u := hchain ▸ List.mem_append_right _ hx
  have hthere : r.containsTask x = true := by
    rw [← h.containsTask_eq]
    exact containsTask_iff.2 (h.ahead.mem_tasks hmem)
  obtain ⟨t, ht⟩ := containsTask_iff.1 hthere
  obtain ⟨hloose, hpinned⟩ := hextra x hx
  rw [isPinned_roster, ht, Option.any_some] at hpinned
  have hprev := ((h.behind.forall_not_mem_iff ht).1 hloose).1
  exact ⟨t, ht, by rw [Task.isUnassigned, hprev]; rfl, hpinned⟩

/-- The same tasks are pinned in both. -/
theorem pinned_eq (h : w.Ahead r) (x : TaskId) :
    (w.task? x).map (·.pinned) = (r.task? x).map (·.pinned) := by
  have hbare : (w.bare.task? x).map (·.pinned) = (r.bare.task? x).map (·.pinned) := by
    rw [h.bare_eq]
  rw [task?_bare, task?_bare, Option.map_map, Option.map_map] at hbare
  exact hbare

/-- Both have the same workers and tasks, in the same order. -/
theorem keys_eq (h : w.Ahead r) : w.users.keys = r.users.keys ∧ w.tasks.keys = r.tasks.keys :=
  keys_of_bare h.bare_eq

end Solution.Ahead

/-- Two copies of a valid solution in which no task is loose: the one with changes made and tasks
placed in any order, the other with the same changes replayed.  They have the same workers and the
same tasks, up to links and times; each change is answered in the one as in the other; and each
chain of the working copy is that of the replay, followed by unpinned tasks that have no place in
the replay.

Validity takes it for granted that workers and tasks are keyed by the ids stored in them: the end of
a chain is named by the id stored in its last task. -/
theorem replay_simulates_working_copy {L : Solution} (hkeyed : L.Keyed)
    (hvalid : L.validate = .ok ()) (hplaced : L.unassigned = []) {steps : List WorkStep}
    (hadds : ∀ t, .change (.add t) ∈ steps → t.pinned = false) :
    let W := WorkStep.runAll steps L
    let R := Mutation.replay (WorkStep.changes steps) L
    W.bare = R.bare ∧ W.users.keys = R.users.keys ∧ W.tasks.keys = R.tasks.keys ∧
      (∀ x, (W.task? x).map (·.pinned) = (R.task? x).map (·.pinned)) ∧
      (∀ before m after, steps = before ++ .change m :: after →
        (m.apply (WorkStep.runAll before L)).1 =
          (m.apply (Mutation.replay (WorkStep.changes before) L)).1) ∧
      ∀ u, ∃ extra, W.chainIds u = R.chainIds u ++ extra ∧
        ∀ x ∈ extra, ∃ t, R.task? x = some t ∧ t.isUnassigned = true ∧ t.pinned = false := by
  intro W R
  obtain ⟨lists, harr⟩ := exists_arranged_of_validate hkeyed hvalid hplaced
  have hstart : L.Ahead L := .refl harr hplaced
  have hend : W.Ahead R := WorkStep.ahead_runAll hstart hadds
  have hanswers : ∀ before m after, steps = before ++ .change m :: after →
      (m.apply (WorkStep.runAll before L)).1 =
        (m.apply (Mutation.replay (WorkStep.changes before) L)).1 := by
    intro before m after hsplit
    have hbefore : ∀ t, .change (.add t) ∈ before → t.pinned = false := fun t ht =>
      hadds t (hsplit ▸ List.mem_append_left _ ht)
    have hm : ∀ t, m = .add t → t.pinned = false := fun t he =>
      hadds t (by simp [hsplit, he])
    exact ((WorkStep.ahead_runAll hstart hbefore).apply m hm).1
  exact ⟨hend.bare_eq, hend.keys_eq.1, hend.keys_eq.2, hend.pinned_eq, hanswers,
    hend.chainIds_eq⟩

/-- Calls that leave a worker with a chain of two tasks, the first of them pinned. -/
def callsForPinned : List Operation :=
  let task (n : Int64) : Task := .ofId ⟨n⟩ "" .lowest
  [.addUser (.ofId ⟨"ann"⟩), .apply (.assign (task 1) ⟨"ann"⟩), .addTask (task 2),
    .linkAfter (.task ⟨1⟩) ⟨2⟩]

/-- A new task is placed behind the chain and another one pinned into it; the first is then added
again, in vain. -/
theorem replay_simulates_working_copy_of_two :
    let L := Operation.runAll callsForPinned ∅
    let owned (n : Int64) : Task :=
      { Task.ofId ⟨n⟩ "" .lowest with potentialOwners := [.user ⟨"ann"⟩] }
    let steps : List WorkStep := [.change (.add (owned 3)), .place,
      .change (.assign (owned 4) ⟨"ann"⟩), .change (.add (owned 3)), .place]
    L.Keyed ∧ L.validate = .ok () ∧ L.unassigned = [] ∧
      (∀ t, .change (.add t) ∈ steps → t.pinned = false) ∧
      (WorkStep.runAll steps L).chainIds ⟨"ann"⟩ = [⟨1⟩, ⟨4⟩, ⟨2⟩, ⟨3⟩] ∧
      (Mutation.replay (WorkStep.changes steps) L).chainIds ⟨"ann"⟩ = [⟨1⟩, ⟨4⟩, ⟨2⟩] ∧
      (WorkStep.runAll steps L).bare = (Mutation.replay (WorkStep.changes steps) L).bare := by
  intro L owned steps
  have hkeyed : L.Keyed := (Reachable.arranged ⟨callsForPinned, rfl⟩).keyed
  have hvalid : L.validate = .ok () := by decide +kernel
  have hplaced : L.unassigned = [] := by decide +kernel
  have hadds : ∀ t, .change (.add t) ∈ steps → t.pinned = false := by
    intro t ht
    have hsame : t = owned 3 := by simpa [steps] using ht
    rw [hsame]
    rfl
  exact ⟨hkeyed, hvalid, hplaced, hadds, by decide +kernel, by decide +kernel,
    (replay_simulates_working_copy hkeyed hvalid hplaced hadds).1⟩

end ChainPlanner
