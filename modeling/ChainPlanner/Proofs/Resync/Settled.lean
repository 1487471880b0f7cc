import ChainPlanner.Proofs.Resync.Comparison
import ChainPlanner.Proofs.Resync.Standing

/-!
# ChainPlanner.Proofs.Resync.Settled

When a comparison with records asks for nothing.  A record is `Settled` if judging it asks for
nothing, and `settled_iff` says this of how its task stands: a ready task is in the solution,
neither pinned nor published, and a task that somebody holds is in the chain of its holder, or in
none if the holder is not a worker of the solution.

`resync_eq_nil_iff` puts the records together: nothing is asked for exactly if the first record of
each task is settled and each task of the solution has such a record, one that is not in a terminal
status. The placeholder needs no record, and a record of it is judged as one of a task that is not
there.
-/

namespace ChainPlanner.Assembly

open Solution Comparison

variable {s : Solution} {lists : UserId → List TaskId} {r : TaskRecord} {p p' : PublishedTasks}
  {records : List TaskRecord} {x : TaskId}

/-! ## settled records -/

/-- What a record of a task is judged against. -/
def known? (s : Solution) (id : TaskId) : Option Task :=
  if id = .placeholder then none else s.task? id

/-- A record that asks for nothing. -/
def Settled (s : Solution) (p : PublishedTasks) (r : TaskRecord) : Prop :=
  r.status.isTerminal = true ∨ (judge s (known? s r.taskId) r p).2 = .ok none

/-- The record of a task that is neither ready nor held is settled. -/
theorem settled_of_idle (hready : r.status ≠ .ready) (hholder : r.holder? = none) :
    Settled s p r := by
  rw [Settled, judge_of_idle hready hholder]
  exact .inr rfl

/-- A record of a task that is not known never asks for nothing. -/
private theorem map_task?_ne_none (r : TaskRecord) (f : Task → Mutation) :
    (r.task?.map fun t => some (f t)) ≠ .ok none := by
  intro h
  obtain ⟨t, -, ht⟩ := exists_of_map_task? h
  cases ht

/-- The record of a ready task is settled if the task is there, neither pinned nor published. -/
theorem settled_of_ready_iff (hready : r.status = .ready) : Settled s p r ↔
    r.taskId ≠ .placeholder ∧ (s.standing r.taskId).pinned = some false ∧ r.taskId ∉ p := by
  have hopen : r.status.isTerminal = false := by rw [hready]; rfl
  rw [Settled, hopen, judge_of_ready hready, known?]
  by_cases hid : r.taskId = .placeholder
  · simp [hid, judgeReady, map_task?_ne_none]
  · rw [if_neg hid]
    cases ht : s.task? r.taskId with
    | none => simp [judgeReady, map_task?_ne_none, standing, ht]
    | some t =>
      cases hpin : t.pinned <;> by_cases hp : r.taskId ∈ p <;>
        simp [judgeReady, standing, ht, hid, hpin, hp]

/-- The record of a held task is settled if the task is there and with its holder, or with nobody if
the holder is unknown. -/
theorem settled_of_holder?_iff (h : s.Chained lists) {u : UserId} (hholder : r.holder? = some u) :
    Settled s p r ↔ r.taskId ≠ .placeholder ∧ (s.standing r.taskId).pinned.isSome = true ∧
      (s.standing r.taskId).user = if s.containsUser u then some u else none := by
  rw [Settled, isTerminal_of_holder? hholder, judge_of_holder? hholder, known?]
  by_cases hid : r.taskId = .placeholder
  · have hno := map_task?_ne_none r fun t => if s.containsUser u then .assign t u else .add t
    simpa [hid, judgeOwned] using hno
  · rw [if_neg hid]
    cases ht : s.task? r.taskId with
    | none =>
      have hno := map_task?_ne_none r fun t => if s.containsUser u then .assign t u else .add t
      simpa [judgeOwned, standing, ht] using hno
    | some t =>
      have hfree := h.isUnassigned_iff ht
      cases hu : s.containsUser u with
      | true =>
        by_cases hassigned : s.assignedUser? r.taskId = some u <;>
          simp [judgeOwned, standing, ht, hid, hu, hassigned]
      | false =>
        by_cases hassigned : s.assignedUser? r.taskId = none <;>
          simp [judgeOwned, standing, ht, hid, hu, hassigned, hfree]

/-- A record is settled if a task that it says is ready waits to be placed or is placed but not
published, and a task that it says is held is in the chain of its holder. -/
theorem settled_iff (h : s.Chained lists) : Settled s p r ↔
    (r.status = .ready → r.taskId ≠ .placeholder ∧
      (s.standing r.taskId).pinned = some false ∧ r.taskId ∉ p) ∧
    ∀ u, r.holder? = some u → r.taskId ≠ .placeholder ∧
      (s.standing r.taskId).pinned.isSome = true ∧
      (s.standing r.taskId).user = if s.containsUser u then some u else none := by
  obtain hready | ⟨u, hholder⟩ | ⟨hready, hholder⟩ := record_cases r
  · have hholder := holder?_of_ready hready
    rw [settled_of_ready_iff hready]
    simp [hready, hholder]
  · have hready := not_ready_of_holder? hholder
    rw [settled_of_holder?_iff h hholder]
    simp [hready, hholder]
  · simp [settled_of_idle hready hholder, hready, hholder]

/-- A settled record fits and asks for no change. -/
theorem settled_iff_judge : Settled s p r ↔ (judge s (known? s r.taskId) r p).2 = .ok none := by
  constructor
  · rintro (hterm | hjudge)
    · obtain ⟨hready, hholder⟩ := idle_of_isTerminal hterm
      rw [judge_of_idle hready hholder]
    · exact hjudge
  · exact .inr

/-- With keys that are ids, a record is about the task found under its number. -/
theorem subject?_eq_known? (hs : s.Keyed) (x : TaskId) : subject? s x = known? s x := by
  rw [known?]
  split
  · next hx => simp [hx, subject?, mem_remaining_start hs]
  · next hx => exact subject?_eq hs hx

/-! ## the whole comparison -/

/-- A comparison asks for nothing exactly if the first record of each task is settled and each task
of the solution but the placeholder has a first record in which it is not over.  The published tasks
are then those of before and those that somebody holds. -/
theorem resync_eq_nil_iff (hs : s.Keyed) : resync s records p = (.ok [], p') ↔
    (∀ x r, firstRecord? records x = some r → Settled s p r) ∧
    (∀ x, x ≠ .placeholder → s.containsTask x = true →
      ∃ r, firstRecord? records x = some r ∧ r.status.isTerminal = false) ∧
    ∀ x, x ∈ p' ↔ x ∈ p ∨ ∃ r, firstRecord? records x = some r ∧ r.holder?.isSome = true := by
  have hanswer : ∀ x r, firstRecord? records x = some r →
      (Settled s p r ↔ (judge s (subject? s x) r p).2 = .ok none) := fun x r hr => by
    rw [settled_iff_judge, subject?_eq_known? hs, taskId_of_firstRecord? hr]
  -- a settled record takes nothing out of the published tasks
  have hpublished : (∀ x r, firstRecord? records x = some r → Settled s p r) →
      heard s p records = records → ∀ x, x ∈ (resync s records p).2 ↔
        x ∈ p ∨ ∃ r, firstRecord? records x = some r ∧ r.holder?.isSome = true := by
    intro hsettled hall x
    rw [mem_published_of_resync, hall, or_comm]
    refine or_congr_left (and_iff_left_of_imp fun hx => ?_)
    rintro ⟨r, hr, hready, -⟩
    have hp := ((settled_of_ready_iff hready).1 (hsettled x r hr)).2.2
    exact hp (taskId_of_firstRecord? hr ▸ hx)
  constructor
  · intro hresync
    have hok : (resync s records p).1 = .ok [] := by rw [hresync]
    have hmem := fun m => mem_of_resync_ok (m := m) hok
    simp only [List.not_mem_nil, false_iff, not_or] at hmem
    have hfit := resync_isOk_iff.1 ⟨_, hok⟩
    have hsettled : ∀ x r, firstRecord? records x = some r → Settled s p r := by
      intro x r hr
      rw [hanswer x r hr]
      cases hjudge : (judge s (subject? s x) r p).2 with
      | error e =>
        refine absurd ((unfit_iff (p := p)).2 ⟨e, ?_⟩) (hfit x r hr)
        rw [taskId_of_firstRecord? hr, hjudge]
      | ok answer =>
        cases answer with
        | none => rfl
        | some m => exact absurd ⟨x, r, hr, hjudge⟩ (hmem m).1
    refine ⟨hsettled, fun x hx hthere => ?_, fun x => ?_⟩
    · by_contra hno
      refine (hmem (.remove x)).2 ⟨x, rfl, (mem_remaining_start hs p).2 ⟨hx, hthere⟩, ?_⟩
      intro r hr
      by_contra hopen
      exact hno ⟨r, hr, by simpa using hopen⟩
    · have hx := hpublished hsettled (heard_of_ok hok) x
      rwa [hresync] at hx
  · rintro ⟨hsettled, hnamed, hp'⟩
    have hfit : AllFit s (firstRecord? records) := by
      intro x r hr hbad
      obtain ⟨e, he⟩ := (unfit_iff (p := p)).1 hbad
      rw [taskId_of_firstRecord? hr, (hanswer x r hr).1 (hsettled x r hr)] at he
      cases he
    obtain ⟨ms, hok⟩ := resync_isOk_iff.2 hfit
    have hnone : ms = [] := by
      rw [List.eq_nil_iff_forall_not_mem]
      intro m hm
      rcases (mem_of_resync_ok hok).1 hm with ⟨x, r, hr, hjudge⟩ | ⟨x, -, hx, hdone⟩
      · rw [(hanswer x r hr).1 (hsettled x r hr)] at hjudge
        cases hjudge
      · obtain ⟨hreal, hthere⟩ := (mem_remaining_start hs p).1 hx
        obtain ⟨r, hr, hopen⟩ := hnamed x hreal hthere
        rw [hdone r hr] at hopen
        cases hopen
    refine Prod.ext (by rw [hok, hnone]) (SortedSet.ext_mem fun x => ?_)
    rw [hpublished hsettled (heard_of_ok hok), hp']

end ChainPlanner.Assembly
