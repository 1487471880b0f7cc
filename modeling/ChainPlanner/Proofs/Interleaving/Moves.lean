import ChainPlanner.Planner.Basic
import ChainPlanner.Proofs.Replay.Simulation

/-!
# ChainPlanner.Proofs.Interleaving.Moves

A planner in small steps that come in any order.  The optimizer, the publisher and the look at the
task runtime are loops of their own, and between two steps of one of them the others may go on; the
runtime may change at any time.  A `Move` is one such step, and `Planner.run` lets a planner make
moves in a given order.

The steps are those that a planner is made of: letting everything settle is a run of moves
(`exists_run_settle`), as a round of the optimizer and the steps of the publisher are.

What a step of the optimizer can do is said once, in `Search.step_silent` and
`Search.step_delivers`.
-/

namespace ChainPlanner

/-! ## steps of the optimizer -/

namespace Search

/-- The changes that the next step makes in the working copy. -/
def taken (s : Search) : List Mutation :=
  match s.stage with
  | .holding batches _ => batches.flatten
  | _ => []

/-- The report that the next step delivers, if it may be published. -/
def delivers? (s : Search) : Option BestSolution :=
  match s.stage with
  | .reporting event => if event.isPublishable then some event else none
  | _ => none

variable {s s' : Search} {event : BestSolution}

/-- What a step does that delivers no report: it makes the changes that were taken, and what it
takes comes from the queue.  A report that it builds is on the working copy as it then is. -/
theorem step_silent (h : s.step = (s', none)) :
    s'.taken ++ s'.queue.flatten = s.queue.flatten ∧ s'.queue ⊆ s.queue ∧
      (∃ steps, WorkStep.changes steps = s.taken ∧
        s'.working = WorkStep.runAll steps s.working) ∧
      (∀ event, s'.stage = .reporting event → event.solution = s'.working) := by
  unfold step at h
  split at h
  · next dirty hstage =>
    split at h <;> cases h
    · exact ⟨rfl, List.Subset.refl _, ⟨[], by simp [taken, hstage, WorkStep.changes], rfl⟩,
        fun _ h => nomatch h⟩
    · exact ⟨by simp [taken], List.nil_subset _,
        ⟨[], by simp [taken, hstage, WorkStep.changes], rfl⟩, fun _ h => nomatch h⟩
  · next batches dirty hstage =>
    have htaken : s.taken = batches.flatten := by rw [taken, hstage]
    split at h
    · cases h
      -- the batches in hand are made one change after another, and then the loose tasks are placed
      refine ⟨rfl, List.Subset.refl _, ⟨batches.flatten.map .change ++ [.place], ?_, ?_⟩,
        fun _ h => nomatch h⟩
      · rw [WorkStep.changes_append, WorkStep.changes_map_change, htaken]
        exact List.append_nil _
      · rw [WorkStep.runAll_append, WorkStep.runAll_map_change]
        rfl
    · next hidle =>
      cases h
      have hnone : batches = [] := by
        simp only [Bool.or_eq_true, Bool.not_eq_eq_eq_not, Bool.not_true, not_or,
          Bool.not_eq_false, List.isEmpty_iff] at hidle
        exact hidle.2
      exact ⟨rfl, List.Subset.refl _, ⟨[], by rw [htaken, hnone]; rfl, rfl⟩,
        fun _ h => nomatch h⟩
  · next hstage =>
    cases h
    refine ⟨rfl, List.Subset.refl _, ⟨[], by simp [taken, hstage, WorkStep.changes], rfl⟩, ?_⟩
    rintro event ⟨⟩
    rfl
  · cases h
  · next hstage =>
    cases h
    refine ⟨by simp [taken, hstage], List.Subset.refl _,
      ⟨[], by simp [taken, hstage, WorkStep.changes], rfl⟩, fun event he => ?_⟩
    rw [hstage] at he
    cases he

/-- A step that delivers a report does nothing else. -/
theorem step_delivers (h : s.step = (s', some event)) :
    s.stage = .reporting event ∧ s' = { s with stage := .polling false } := by
  unfold step at h
  split at h
  · split at h <;> cases h
  · split at h <;> cases h
  · cases h
  · next hstage =>
    cases h
    exact ⟨hstage, rfl⟩
  · cases h

end Search

/-! ## moves of a planner -/

namespace Planner

variable {p p' : Planner} {queue : List Batch} {search search' : Search} {event : BestSolution}

/-- The search of the built-in optimizer, while it solves. -/
def search? (p : Planner) : Option Search :=
  match p.optimizer with
  | .greedy _ search => search
  | .recorder _ => none

/-- One step of the built-in optimizer, if it solves; a report that is delivered passes the
driver. -/
def searchStep (p : Planner) : Planner :=
  match p.optimizer with
  | .greedy queue (some search) => match search.step with
    | (search, none) => { p with optimizer := .greedy queue (some search) }
    | (search, some event) =>
      { p with
        optimizer := .greedy queue (some search)
        events := p.events ++ [event] }.forward event
  | _ => p

/-- A step of one of the loops, or a change of the runtime from outside. -/
inductive Move where
  /-- The optimizer makes a step. -/
  | optimize
  /-- Records, read at some time before, are compared with the latest solution. -/
  | refresh (records : List TaskRecord)
  /-- The publisher makes a step, if it can. -/
  | publish
  | outside (f : MemoryRuntime → MemoryRuntime)

/-- A planner after a move. -/
def move (p : Planner) : Move → Planner
  | .optimize => p.searchStep
  | .refresh records => (refresh records p).2
  | .publish => p.publishStep?.getD p
  | .outside f => { p with runtime := f p.runtime }

/-- A planner after moves in order. -/
def run (p : Planner) (moves : List Move) : Planner := moves.foldl move p

theorem run_nil (p : Planner) : p.run [] = p := rfl

theorem run_cons (p : Planner) (m : Move) (moves : List Move) :
    p.run (m :: moves) = (p.move m).run moves := rfl

/-- Moves can be made in two parts. -/
theorem run_append (p : Planner) (moves moves' : List Move) :
    p.run (moves ++ moves') = (p.run moves).run moves' := List.foldl_append

/-- A step of the optimizer that delivers no report is seen in the optimizer only. -/
theorem searchStep_of_silent (hp : p.optimizer = .greedy queue (some search))
    (hs : search.step = (search', none)) :
    p.searchStep = { p with optimizer := .greedy queue (some search') } := by
  simp only [searchStep, hp, hs]

/-- A report that is delivered is passed on by the driver. -/
theorem searchStep_of_delivers (hp : p.optimizer = .greedy queue (some search))
    (hs : search.step = (search', some event)) :
    p.searchStep = { p with
      optimizer := .greedy queue (some search')
      events := p.events ++ [event] }.forward event := by
  simp only [searchStep, hp, hs]

/-! ## settling is a run of moves -/

/-- A round of the optimizer of at most so many steps. -/
def advanceSearch (p : Planner) (steps : Nat) : Planner :=
  match p.optimizer with
  | .greedy queue (some search) => match search.advance steps with
    | (search, none) => { p with optimizer := .greedy queue (some search) }
    | (search, some event) =>
      { p with
        optimizer := .greedy queue (some search)
        events := p.events ++ [event] }.forward event
  | _ => p

/-- Such a round takes at most so many steps of the optimizer. -/
theorem exists_run_advanceSearch (p : Planner) (steps : Nat) :
    ∃ taken ≤ steps, p.advanceSearch steps = p.run (List.replicate taken .optimize) := by
  induction steps generalizing p with
  | zero =>
    refine ⟨0, Nat.le_refl 0, ?_⟩
    unfold advanceSearch Search.advance
    split
    · next queue search hp =>
      change { p with optimizer := .greedy queue (some search) } = p
      rw [← hp]
    · rfl
  | succ steps ih =>
    unfold advanceSearch
    split
    · next queue search hp =>
      cases hs : search.step with
      | mk search' answer =>
        cases answer with
        | some event =>
          refine ⟨1, Nat.le_add_left 1 steps, ?_⟩
          simp only [Search.advance, hs]
          exact (searchStep_of_delivers hp hs).symm
        | none =>
          obtain ⟨taken, htaken, hmoves⟩ :=
            ih { p with optimizer := .greedy queue (some search') }
          refine ⟨taken + 1, Nat.succ_le_succ htaken, ?_⟩
          rw [List.replicate_succ, run_cons, move, searchStep_of_silent hp hs, ← hmoves]
          simp only [Search.advance, hs, advanceSearch]
    · exact ⟨0, Nat.zero_le _, rfl⟩

/-- A round of the optimizer is made of moves. -/
theorem exists_run_searchRound (p : Planner) : ∃ moves, p.searchRound = p.run moves := by
  obtain ⟨taken, -, hmoves⟩ := p.exists_run_advanceSearch 4
  exact ⟨_, hmoves⟩

/-- Steps of the publisher are moves. -/
theorem exists_run_publishSteps (p : Planner) (steps : Nat) :
    ∃ moves, p.publishSteps steps = p.run moves := by
  induction steps generalizing p with
  | zero => exact ⟨[], rfl⟩
  | succ steps ih =>
    unfold publishSteps
    cases hstep : p.publishStep? with
    | none => exact ⟨[], rfl⟩
    | some p' =>
      obtain ⟨moves, hmoves⟩ := ih p'
      refine ⟨.publish :: moves, ?_⟩
      rw [run_cons, move, hstep]
      exact hmoves

/-- Once the optimizer has begun to solve, letting everything settle is a run of moves. -/
theorem exists_run_settle (h : p.driverLoop ≠ .waiting) : ∃ moves, p.settle = p.run moves := by
  have hpermit : p.takePermit = p := by
    unfold takePermit
    split
    · next hwaiting => exact absurd hwaiting h
    · rfl
  obtain ⟨moves, hround⟩ := p.exists_run_searchRound
  obtain ⟨moves', hpublish⟩ :=
    p.searchRound.exists_run_publishSteps (2 * p.searchRound.publisher.jobs.length + 4)
  refine ⟨moves ++ moves', ?_⟩
  rw [run_append, ← hround, ← hpublish, settle, hpermit]

end Planner

end ChainPlanner
