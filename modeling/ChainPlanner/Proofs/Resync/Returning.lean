import ChainPlanner.Proofs.Build.Built
import ChainPlanner.Proofs.Publishing.Numbering
import ChainPlanner.Proofs.Resync.Rounds

/-!
# ChainPlanner.Proofs.Resync.Returning

Tasks that are gone for a while and come back ready.

A task leaves the published tasks only when a comparison hears that it is ready while it is in the
solution.  One that is published when it is removed stays published while it is away, and the
comparison that adds it again does not look there.  `returning_published_iff` says that this is the
only way for a ready task to be published after a comparison, and what comes of it: the plans for
the solution report the task as published although none of them publishes it, and the next
comparison with the same records releases it.
-/

namespace ChainPlanner

open Solution Assembly

namespace Outlook.Rounded

variable {records : List TaskRecord} {k k' : Outlook} {r : TaskRecord} {x : TaskId}

/-- After a round the next comparison releases a ready task exactly if it is published. -/
theorem release_iff_of_ready (h : Rounded records k k')
    (hrecords : ∀ r ∈ records, r.taskId ≠ .placeholder) (hr : firstRecord? records x = some r)
    (hready : r.status = .ready) :
    ∃ ms, (resync k'.solution records k'.published).1 = .ok ms ∧
      (.release x ∈ ms ↔ x ∈ k'.published) := by
  obtain ⟨ms, hok, hmem⟩ := h.exists_next hrecords
  refine ⟨ms, hok, ?_⟩
  rw [hmem]
  constructor
  · rintro ⟨_, r', ⟨⟩, hr', hreason⟩
    rw [hr, Option.some.injEq] at hr'
    subst hr'
    rcases hreason with ⟨-, hp⟩ | ⟨u, hu, -⟩
    · exact hp
    · simp [holder?_of_ready hready] at hu
  · exact fun hp => ⟨x, r, rfl, hr, .inl ⟨hready, hp⟩⟩

/-- After a round every plan places a ready task. -/
theorem exists_placement_of_ready (h : Rounded records k k')
    (hrecords : ∀ r ∈ records, r.taskId ≠ .placeholder) (hr : firstRecord? records x = some r)
    (hready : r.status = .ready) (window : Nat) (pin : Bool) (p : PublishedTasks) :
    ∃ res ∈ (PublishPlan.ofSolution window pin k'.solution p).results, res.taskId = x := by
  have hreal : x ≠ .placeholder :=
    taskId_of_firstRecord? hr ▸ hrecords r (List.mem_of_find?_eq_some hr)
  obtain ⟨task, htask⟩ := h.exists_task? hr (.inl hready)
  have harr := h.sound.arranged.toChained
  have hplaced : k'.solution.assignedUser? x ≠ none := fun hno => by
    have hfree := (harr.isUnassigned_iff htask).2 hno
    rw [h.isUnassigned_eq_false htask] at hfree
    cases hfree
  obtain ⟨u, hu⟩ := Option.ne_none_iff_exists'.1 hplaced
  have hline : x ∈ PublishPlan.line k'.solution u :=
    (PublishPlan.mem_line_iff harr).2 ⟨harr.assignedUser?_eq_some_iff.1 hu, hreal⟩
  obtain ⟨res, hres, hid, -⟩ := PublishPlan.exists_mem_results harr hline window pin p
  exact ⟨res, hres, hid⟩

end Outlook.Rounded

namespace Assembly

variable {s₀ : Solution} {p₀ : PublishedTasks} {records₀ records : List TaskRecord}
  {directory : List DirectoryUser} {turns : List Turn} {ms : List Mutation} {r : TaskRecord}
  {x : TaskId}

/-- From a build on, after any comparisons and placings, let a comparison with records succeed and
let the first record of a task be ready.  The task is published afterwards exactly if it was not in
the solution and has stayed published since the build or since a comparison marked it.  In that case
every plan for the solution, once its tasks are placed, has a published placement for the task and
does not publish it; and the next comparison with the same records releases it.  Otherwise a plan
has a published placement for the task only if it publishes it, and the next comparison leaves the
task alone. -/
theorem returning_published_iff (hbuild : build records₀ directory ∅ = (.ok s₀, p₀))
    (hturns : ∀ records, .compare records ∈ turns → ∀ r ∈ records, r.taskId ≠ .placeholder)
    (hrecords : ∀ r ∈ records, r.taskId ≠ .placeholder) :
    let start : Outlook := ⟨s₀, p₀⟩
    let k := start.run turns
    let k' := k.round records
    (resync k.solution records k.published).1 = .ok ms → firstRecord? records x = some r →
      r.status = .ready →
      k'.published = (resync k.solution records k.published).2 ∧
      (x ∈ k'.published ↔ k.solution.containsTask x = false ∧ start.Stays turns x) ∧
      (∀ window pin, let plan := PublishPlan.ofSolution window pin k'.solution k'.published
        ∃ res ∈ plan.results, res.taskId = x ∧
          (x ∈ k'.published → res.parameters.published = true ∧ x ∉ plan.newlyPublished) ∧
          (x ∉ k'.published → (res.parameters.published = true ↔ x ∈ plan.newlyPublished))) ∧
      ∃ ms', (resync k'.solution records k'.published).1 = .ok ms' ∧
        (.release x ∈ ms' ↔ x ∈ k'.published) := by
  intro start k k' hok hr hready
  have hbuilt : Built records₀ directory s₀ := (built_of_build (by rw [hbuild])).1
  have hsound : start.Sound := ⟨hbuilt.arranged, (hbuilt.users .fallback).2 (.inl rfl)⟩
  have hround : Outlook.Rounded records k k' :=
    Outlook.rounded_round (hsound.run hturns) hrecords hok
  have hpublished : x ∈ k'.published ↔
      k.solution.containsTask x = false ∧ start.Stays turns x := by
    rw [hround.mem_published_of_ready hr hready, ← Outlook.mem_published_run, and_comm]
  refine ⟨k.published_compare records, hpublished, fun window pin => ?_,
    hround.release_iff_of_ready hrecords hr hready⟩
  intro plan
  obtain ⟨res, hres, rfl⟩ := hround.exists_placement_of_ready hrecords hr hready window pin
    k'.published
  have hiff := PublishPlan.published_iff_of_mem_results hround.sound.arranged.toChained hres
  refine ⟨res, hres, rfl, fun hp => ⟨hiff.2 (.inl hp), fun hnew => ?_⟩, fun hp => ?_⟩
  · exact PublishPlan.not_mem_of_mem_newlyPublished hnew hp
  · rw [hiff, or_iff_right hp]

/-- The record of a task that somebody works on. -/
def workedOn : List TaskRecord := [recordOf 1 .inProgress (some ⟨"john"⟩)]

/-- The record of the same task when it is ready. -/
def readyAgain : List TaskRecord := [recordOf 1 .ready none]

/-- The records do not show the task. -/
def away : List Turn := [.compare [], .place]

/-- A task that somebody works on is gone in the next records and then ready. -/
theorem returning_published_iff_one :
    let start : Outlook := ⟨builtOf workedOn [⟨⟨"john"⟩, []⟩] ∅, .ofList [⟨1⟩]⟩
    let k := start.run away
    let k' := k.round readyAgain
    build workedOn [⟨⟨"john"⟩, []⟩] ∅ = (.ok start.solution, start.published) ∧
      (∀ records, .compare records ∈ away → ∀ r ∈ records, r.taskId ≠ .placeholder) ∧
      (∀ r ∈ readyAgain, r.taskId ≠ .placeholder) ∧
      (resync k.solution readyAgain k.published).1 = .ok [.add (.ofId ⟨1⟩ "" .lowest)] ∧
      start.Stays away ⟨1⟩ ∧ ∃ ms, (resync k'.solution readyAgain k'.published).1 = .ok ms ∧
        .release ⟨1⟩ ∈ ms := by
  intro start k k'
  have hbuild : build workedOn [⟨⟨"john"⟩, []⟩] ∅ = (.ok start.solution, start.published) := by
    decide +kernel
  have hturns : ∀ records, .compare records ∈ away → ∀ r ∈ records, r.taskId ≠ .placeholder := by
    intro records hmem r hr
    have hempty : records = [] := by simpa [away] using hmem
    rw [hempty] at hr
    cases hr
  have hrecords : ∀ r ∈ readyAgain, r.taskId ≠ .placeholder := by decide +kernel
  have hok : (resync k.solution readyAgain k.published).1 = .ok [.add (.ofId ⟨1⟩ "" .lowest)] := by
    decide +kernel
  have hready : firstRecord? readyAgain ⟨1⟩ = some (recordOf 1 .ready none) := by decide +kernel
  obtain ⟨-, hpublished, -, ms, hnext, hreleased⟩ :=
    returning_published_iff hbuild hturns hrecords hok hready rfl
  have hp : ⟨1⟩ ∈ k'.published := by decide +kernel
  exact ⟨hbuild, hturns, hrecords, hok, (hpublished.1 hp).2, ms, hnext, hreleased.2 hp⟩

/-- When the task comes back it is added, and it is still among the published tasks.  A plan for
the solution reports it as published and publishes nothing, and the next comparison with the same
record releases it. -/
theorem returned_task_published_and_released :
    let start : Outlook := ⟨builtOf workedOn [⟨⟨"john"⟩, []⟩] ∅, .ofList [⟨1⟩]⟩
    let k := start.run away
    let k' := k.round readyAgain
    let plan := PublishPlan.ofSolution 2 false k'.solution k'.published
    build workedOn [⟨⟨"john"⟩, []⟩] ∅ = (.ok start.solution, start.published) ∧
      resync k.solution readyAgain k.published =
        (.ok [.add (.ofId ⟨1⟩ "" .lowest)], .ofList [⟨1⟩]) ∧
      (plan.results.map fun res => (res.taskId, res.parameters.published)) = [(⟨1⟩, true)] ∧
      plan.newlyPublished = [] ∧
      resync k'.solution readyAgain k'.published = (.ok [.release ⟨1⟩], ∅) := by
  intro start k k' plan
  exact ⟨by decide +kernel, by decide +kernel, by decide +kernel, by decide +kernel,
    by decide +kernel⟩

end Assembly

end ChainPlanner
