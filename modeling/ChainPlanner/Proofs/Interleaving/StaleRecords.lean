import ChainPlanner.Proofs.Interleaving.Journal
import ChainPlanner.Proofs.Resync.Soundness

/-!
# ChainPlanner.Proofs.Interleaving.StaleRecords

Records that are older than the published tasks they are compared with.

A look at the task runtime reads the records first and compares them later, and the publisher may
have reserved a task in between.  The comparison takes a published task that is ready for one that
was released from outside.  It cannot tell a record that says so from one that was read before the
task was published, so `released_iff_read_ready` answers in terms of the records as they were read:
what has become of them since makes no difference.  In `released_after_publishing` a task is
reserved between the two moments, and is released and forgotten although the runtime still has it
reserved.
-/

namespace ChainPlanner

open Solution

namespace Assembly

variable {s : Solution} {lists : UserId → List TaskId} {p p' : PublishedTasks} {r : TaskRecord}
  {records : List TaskRecord} {ms : List Mutation} {id : TaskId}

/-- A record of a published task asks for its release if the task is ready, or is held by a stranger
and in a chain. -/
theorem verdict_eq_release_iff (h : s.Chained lists) (hp : r.taskId ∈ p) :
    (verdict s p r).2 = .ok (some (.release r.taskId)) ↔
      s.containsTask r.taskId = true ∧ (r.status = .ready ∨ ∃ u, r.holder? = some u ∧
        s.containsUser u = false ∧ (s.assignedUser? r.taskId).isSome = true) := by
  rw [verdict_eq_judge, judge_eq_release_iff, containsTask_iff, and_iff_right rfl,
    ← exists_and_right]
  refine exists_congr fun t => and_congr_right fun ht => ?_
  have hfree : t.isUnassigned = false ↔ (s.assignedUser? r.taskId).isSome = true := by
    rw [Bool.eq_false_iff, Ne, h.isUnassigned_iff ht, Option.isSome_iff_ne_none]
  simp only [hp, hfree, or_true, and_true]

/-- Which published tasks a comparison releases, and which it forgets. -/
theorem release_and_forget_iff (h : s.Chained lists)
    (hrecords : ∀ r ∈ records, r.taskId ≠ .placeholder)
    (hresync : resync s records p = (.ok ms, p')) (hp : id ∈ p) :
    (.release id ∈ ms ↔ s.containsTask id = true ∧ ∃ r, firstRecord? records id = some r ∧
      (r.status = .ready ∨ ∃ u, r.holder? = some u ∧ s.containsUser u = false ∧
        (s.assignedUser? id).isSome = true)) ∧
    (id ∉ p' ↔ s.containsTask id = true ∧ ∃ r, firstRecord? records id = some r ∧
      r.status = .ready) := by
  constructor
  · obtain ⟨c, htracks, rfl, -⟩ := exists_tracks h.keyed hrecords hresync
    -- what remains at the end is removed, not released
    have hmem : .release id ∈ c.changes ↔ .release id ∈ c.mutations := by
      simp [Comparison.changes]
    rw [hmem, htracks.mutations, ← exists_and_left]
    refine exists_congr fun r => ?_
    constructor
    · rintro ⟨hr, hverdict⟩
      have hid : r.taskId = id := taskId_of_firstRecord? hr
      have hanswer := (verdict_eq_release_iff h (hid ▸ hp)).1 (by rw [hid]; exact hverdict)
      rw [hid] at hanswer
      exact ⟨hanswer.1, hr, hanswer.2⟩
    · rintro ⟨hthere, hr, hreason⟩
      have hid : r.taskId = id := taskId_of_firstRecord? hr
      have hverdict := (verdict_eq_release_iff h (r := r) (hid ▸ hp)).2
        (by rw [hid]; exact ⟨hthere, hreason⟩)
      rw [hid] at hverdict
      exact ⟨hr, hverdict⟩
  · rw [mem_published_resync h.keyed hrecords hresync]
    constructor
    · intro hno
      by_contra hkept
      refine hno (.inr ⟨hp, ?_⟩)
      rintro ⟨r, hr, hready, hthere⟩
      exact hkept ⟨hthere, r, hr, hready⟩
    · rintro ⟨hthere, r, hr, hready⟩ (⟨r', hr', hholder⟩ | ⟨-, hno⟩)
      · rw [hr, Option.some.injEq] at hr'
        rw [← hr', holder?_of_ready hready] at hholder
        cases hholder
      · exact hno ⟨r, hr, hready, hthere⟩

end Assembly

namespace Planner

open Assembly Journal

variable {p : Planner} {L : Solution}

/-- A refresh submits what the comparison asks for, and takes the published tasks from it. -/
theorem submits_of_compare {queue : List Batch} {search : Search} {records : List TaskRecord}
    {ms : List Mutation} {m : Mutation} {c : Coordination} (hstate : p.driver.state = .started)
    (hbuilt : p.driver.built = true) (hp : p.optimizer = .greedy queue (some search))
    (hcompare : p.coordination.compare records = (.ok ms, c)) :
    ((∃ batch, (refresh records p).2.batches = p.batches ++ [batch] ∧ m ∈ batch) ↔ m ∈ ms) ∧
      (refresh records p).2.coordination.published = c.published := by
  rw [refresh_of_compare hstate hbuilt hp hcompare]
  by_cases hms : ms = []
  · simp [hms]
  · simp [hms, Coordination.noteSubmitted]

/-- Whatever the loops do before records are read from the runtime, and between that moment and the
refresh on those records: of a published task the refresh submits the release if the record of the
task was ready when it was read, or was held by a stranger while the task is in a chain; and it
forgets the task exactly if the record was ready when it was read. -/
theorem released_iff_read_ready (h : p.Begun L) (hL : L.Reachable) (before between : List Move)
    (call : FetchCall) {s : Solution} {n : Nat} {id : TaskId} :
    let records := MemoryRuntime.page (p.run before).runtime.tasks call
    let late := (p.run before).run between
    let after := (refresh records late).2
    (∀ r ∈ records, r.taskId ≠ .placeholder) → late.coordination.expected? = some s →
      (refresh records late).1 = some n → id ∈ late.coordination.published →
      ((∃ ms, after.batches = late.batches ++ [ms] ∧ .release id ∈ ms) ↔
        s.containsTask id = true ∧ ∃ r, firstRecord? records id = some r ∧
          (r.status = .ready ∨ ∃ u, r.holder? = some u ∧ s.containsUser u = false ∧
            (s.assignedUser? id).isSome = true)) ∧
      (id ∉ after.coordination.published ↔ s.containsTask id = true ∧
        ∃ r, firstRecord? records id = some r ∧ r.status = .ready) := by
  intro records late after hrecords hs hrefresh hpublished
  obtain ⟨search, hkept⟩ := (kept_ofPlanner h).run (before ++ between)
  have hlate : ((ofPlanner p).run (before ++ between)).planner = late := by
    rw [planner_run, run_append]
    rfl
  -- the expected solution is one of the runs that the journal tells of
  have hreach : s.Reachable := by
    obtain ⟨steps, -, rfl⟩ := hkept.expected (by rw [hlate]; exact hs)
    exact WorkStep.reachable_runAll hL steps
  have hstate : late.driver.state = .started := hlate ▸ hkept.state
  have hbuilt : late.driver.built = true := hlate ▸ hkept.built
  have hoptimizer : late.optimizer = .greedy [] (some search) := hlate ▸ hkept.optimizer
  cases hresync : resync s records late.coordination.published with
  | mk answer published =>
    have hcompare : late.coordination.compare records =
        (answer, { late.coordination with published }) := by
      rw [Coordination.compare, hs]
      simp only [hresync]
    cases answer with
    | error e =>
      rw [refresh_of_error hcompare] at hrefresh
      cases hrefresh
    | ok ms =>
      obtain ⟨hreleased, hforgotten⟩ :=
        release_and_forget_iff hreach.arranged.toChained hrecords hresync hpublished
      obtain ⟨hsubmits, hafter⟩ :=
        submits_of_compare (m := .release id) hstate hbuilt hoptimizer hcompare
      rw [← hreleased, ← hforgotten]
      exact ⟨hsubmits, by rw [hafter]⟩

/-- A call for the tasks that a planner keeps track of. -/
def fetchPlannable : FetchCall := ⟨TaskStatus.plannable, 0, Config.default.pageSize⟩

/-- The first report is delivered and handed over; after that the records are read. -/
def firstReport : List Move := [.optimize, .optimize, .optimize, .optimize]

/-- The task is ready when its record is read, and is published before the refresh. -/
theorem released_iff_read_ready_one :
    let L := Operation.runAll callsForOne ∅
    let p := (aboutToSolve L [recordOf 1 .ready none]).takePermit
    let records := MemoryRuntime.page (p.run firstReport).runtime.tasks fetchPlannable
    let late := (p.run firstReport).run [.publish, .publish]
    p.Begun L ∧ L.Reachable ∧ (∀ r ∈ records, r.taskId ≠ .placeholder) ∧
      late.coordination.expected? = some L ∧ (refresh records late).1 = some 1 ∧
      ⟨1⟩ ∈ late.coordination.published ∧
      ∃ ms, (refresh records late).2.batches = late.batches ++ [ms] ∧ .release ⟨1⟩ ∈ ms := by
  intro L p records late
  have hbegun : p.Begun L := begun_aboutToSolve L _
  have hreach : L.Reachable := ⟨callsForOne, rfl⟩
  have hrecords : ∀ r ∈ records, r.taskId ≠ .placeholder := by decide +kernel
  have hexpected : late.coordination.expected? = some L := by decide +kernel
  have hrefresh : (refresh records late).1 = some 1 := by decide +kernel
  have hpublished : ⟨1⟩ ∈ late.coordination.published := by decide +kernel
  have hread : L.containsTask ⟨1⟩ = true ∧
      firstRecord? records ⟨1⟩ = some (recordOf 1 .ready none) := by decide +kernel
  have hreleased := (released_iff_read_ready hbegun hreach firstReport [.publish, .publish]
    fetchPlannable hrecords hexpected hrefresh hpublished).1.2
      ⟨hread.1, recordOf 1 .ready none, hread.2, .inl rfl⟩
  exact ⟨hbegun, hreach, hrecords, hexpected, hrefresh, hpublished, hreleased⟩

/-- A task is published between the reading of the records and the refresh on them: the runtime has
it reserved, and the refresh releases it and forgets that it was published. -/
theorem released_after_publishing :
    let L := Operation.runAll callsForOne ∅
    let p := (aboutToSolve L [recordOf 1 .ready none]).takePermit
    let read := p.run firstReport
    let late := read.run [.publish, .publish]
    let after := (refresh (MemoryRuntime.page read.runtime.tasks fetchPlannable) late).2
    p.Begun L ∧ L.Reachable ∧
      ⟨1⟩ ∉ read.coordination.published ∧ ⟨1⟩ ∈ late.coordination.published ∧
      (after.runtime.tasks.map fun r => (r.taskId, r.status, r.actualOwner)) =
        [(⟨1⟩, .reserved, some ⟨"ann"⟩)] ∧
      after.batches = [[.release ⟨1⟩]] ∧ ⟨1⟩ ∉ after.coordination.published := by
  intro L p read late after
  exact ⟨begun_aboutToSolve L _, ⟨callsForOne, rfl⟩, by decide +kernel, by decide +kernel,
    by decide +kernel, by decide +kernel, by decide +kernel⟩

end Planner

end ChainPlanner
