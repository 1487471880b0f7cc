import ChainPlanner.Proofs.Build.Built
import ChainPlanner.Proofs.Resync.Settled
import ChainPlanner.Proofs.Resync.Soundness

/-!
# ChainPlanner.Proofs.Build.Steady

A solution that has just been built is in line with the records that it was built from.  A build and
a comparison sort records by the same statuses and owners (`record_cases`), and where a build puts a
task is where a comparison wants it: a ready task unpinned and in no chain, a held task with its
holder, and in no chain if the holder is not a worker.

Only tasks that counted as published before can come between the two.  A comparison releases a ready
task if it finds it among them, and `Built.resync_eq_nil_iff` says that it asks for nothing else.
-/

namespace ChainPlanner.Assembly

open Solution Draft

variable {records records' : List TaskRecord} {directory : List DirectoryUser} {s : Solution}
  {p p' : PublishedTasks} {r : TaskRecord}

/-! ## one record -/

/-- The record of a ready or held task is not one of the placeholder. -/
theorem Built.taskId_ne_placeholder (h : Built records directory s) (hr : r ∈ records)
    (hplanned : r.planned = true) : r.taskId ≠ .placeholder := by
  intro hid
  refine (List.nodup_cons.1 h.nodup).1 (List.mem_map.2 ⟨r, ?_, hid⟩)
  exact List.mem_filter.2 ⟨hr, hplanned⟩

/-- A record that a solution has been built from asks for nothing, unless its task is ready and
counts as published. -/
theorem Built.settled_iff (h : Built records directory s) (hr : r ∈ records) :
    Settled s p r ↔ (r.status = .ready → r.taskId ∉ p) := by
  rw [Assembly.settled_iff h.arranged.toChained]
  constructor
  · exact fun hsettled hready => (hsettled.1 hready).2.2
  intro hpublished
  refine ⟨fun hready => ?_, fun u hholder => ?_⟩
  · have hreal := h.taskId_ne_placeholder hr (by simp [TaskRecord.planned, hready])
    exact ⟨hreal, congrArg Standing.pinned (h.ready r hr hready), hpublished hready⟩
  · have hreal := h.taskId_ne_placeholder hr (by simp [TaskRecord.planned, hholder])
    rw [h.held r hr u hholder]
    split <;> exact ⟨hreal, rfl, rfl⟩

/-! ## all records -/

/-- A comparison of a solution with the records that it was built from, in any order, asks for
nothing exactly if no ready task counts as published.  The held tasks count as published then. -/
theorem Built.resync_eq_nil_iff (h : Built records directory s)
    (hnd : (records.map (·.taskId)).Nodup) (hperm : records'.Perm records) :
    resync s records' p = (.ok [], p') ↔
      (∀ r ∈ records, r.status = .ready → r.taskId ∉ p) ∧
        ∀ x, x ∈ p' ↔ x ∈ p ∨ ∃ r ∈ records, r.taskId = x ∧ r.holder?.isSome = true := by
  have hnd' := (hperm.map (·.taskId)).nodup_iff.2 hnd
  rw [Assembly.resync_eq_nil_iff h.arranged.keyed]
  simp only [firstRecord?_eq_some_iff hnd', hperm.mem_iff, and_assoc]
  constructor
  · rintro ⟨hsettled, -, hpublished⟩
    exact ⟨fun r hr => (h.settled_iff hr).1 (hsettled r.taskId r ⟨hr, rfl⟩), hpublished⟩
  · rintro ⟨hready, hpublished⟩
    refine ⟨fun x r hr => (h.settled_iff hr.1).2 (hready r hr.1), fun x hx hthere => ?_, hpublished⟩
    rw [containsTask_iff_standing, Option.isSome_iff_ne_none] at hthere
    obtain rfl | ⟨r, hr, hplanned, rfl⟩ := h.exists_record hthere
    · exact absurd rfl hx
    · refine ⟨r, hr, rfl, ?_⟩
      by_contra hterminal
      obtain ⟨hidle, hholder⟩ := idle_of_isTerminal (by simpa using hterminal)
      simp [TaskRecord.planned, hidle, hholder] at hplanned

/-- The tasks that somebody holds. -/
def heldTasks (records : List TaskRecord) : PublishedTasks :=
  .ofList ((records.filter (·.holder?.isSome)).map (·.taskId))

/-- The held tasks are those with a record that somebody holds. -/
theorem mem_heldTasks {x : TaskId} :
    x ∈ heldTasks records ↔ ∃ r ∈ records, r.taskId = x ∧ r.holder?.isSome = true := by
  simp only [heldTasks, SortedSet.mem_ofList, List.mem_map, List.mem_filter]
  exact exists_congr fun r => by rw [and_right_comm, and_assoc]

/-- A solution that has been built from records of different tasks, with no task published before,
is in line with these records in any order: a comparison asks for nothing, and the published tasks
are the held ones afterwards. -/
theorem resync_of_build (hnd : (records.map (·.taskId)).Nodup)
    (hbuild : build records directory ∅ = (.ok s, p)) (hperm : records'.Perm records) :
    resync s records' p = (.ok [], heldTasks records) := by
  obtain ⟨h, hexposed⟩ := built_of_build (congrArg Prod.fst hbuild)
  have hheld : ∀ x ∈ p, ∃ r ∈ records, r.taskId = x ∧ r.holder?.isSome = true := by
    intro x hx
    rw [hbuild] at hexposed
    obtain ⟨r, hr, hid, u, hholder, -⟩ :=
      ((hexposed x).1 hx).resolve_left (SortedSet.not_mem_empty x)
    exact ⟨r, hr, hid, by simp [hholder]⟩
  -- a ready task has no other record that could show it as held
  have hready : ∀ r ∈ records, r.status = .ready → r.taskId ∉ p := by
    intro r hr hstatus hmem
    obtain ⟨r', hr', hid, hholder⟩ := hheld _ hmem
    cases List.inj_on_of_nodup_map hnd hr' hr hid
    simp [holder?_of_ready hstatus] at hholder
  refine (h.resync_eq_nil_iff hnd hperm).2 ⟨hready, fun x => ?_⟩
  rw [mem_heldTasks, or_iff_right_of_imp (hheld x)]

/-- A ready task, one in progress, one whose owner is a stranger, one without an owner and one that
is over, compared in the opposite order. -/
theorem resync_of_build_five_tasks :
    let records := [recordOf 1 .ready none, recordOf 2 .inProgress (some ⟨"john"⟩),
      recordOf 3 .reserved (some ⟨"eve"⟩), recordOf 4 .suspended none,
      recordOf 5 .completed (some ⟨"john"⟩)]
    let directory : List DirectoryUser := [⟨⟨"john"⟩, []⟩]
    (records.map (·.taskId)).Nodup ∧
      build records directory ∅ = (.ok (builtOf records directory ∅), .ofList [⟨2⟩]) ∧
      records.reverse.Perm records ∧
      resync (builtOf records directory ∅) records.reverse (.ofList [⟨2⟩]) =
        (.ok [], heldTasks records) := by
  intro records directory
  have hnd : (records.map (·.taskId)).Nodup := by decide
  have hbuild : build records directory ∅ = (.ok (builtOf records directory ∅), .ofList [⟨2⟩]) := by
    decide +kernel
  have hperm : records.reverse.Perm records := List.reverse_perm records
  exact ⟨hnd, hbuild, hperm, resync_of_build hnd hbuild hperm⟩

end ChainPlanner.Assembly
