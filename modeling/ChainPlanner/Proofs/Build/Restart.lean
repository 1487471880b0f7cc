import ChainPlanner.Proofs.Build.Built
import ChainPlanner.Proofs.Publishing.Numbering

/-!
# ChainPlanner.Proofs.Build.Restart

A published plan survives a restart.  Once the placements of a plan have been stored, a build from
the records alone gives each worker the published tasks again, in the order of the plan.

The argument goes record by record (`holder_of_publishes`, `ready_of_not_publishes`): a task that
the plan reports as published for a worker is held by this worker afterwards, pinned, under its
place in the chain, and the other records are still those of ready tasks.  So the slots of a worker
are the published tasks of its chain, and sorting them by their places is reading the chain.
-/

namespace ChainPlanner

namespace MemoryRuntime

variable {results : List PlanningResult} {res : PlanningResult} {ts : List TaskRecord}
  {r : TaskRecord} {id : TaskId} {pp : PlanningParameters} {u : UserId}

/-! ## storing placements of different tasks -/

/-- With one record for each task, changing the first is changing every record of the task. -/
theorem changeFirst_eq_map {f : TaskRecord → TaskRecord} (hnd : (ts.map (·.taskId)).Nodup) :
    changeFirst id f ts = ts.map fun r => if id = r.taskId then f r else r := by
  induction ts with
  | nil => rfl
  | cons t ts ih =>
    rw [List.map_cons, List.nodup_cons] at hnd
    rw [changeFirst, List.map_cons]
    by_cases hid : t.taskId = id
    · have hrest : ∀ r ∈ ts, (if id = r.taskId then f r else r) = r := fun r hr =>
        if_neg fun he => hnd.1 (hid.trans he ▸ List.mem_map_of_mem hr)
      rw [if_pos hid, if_pos hid.symm, List.map_congr_left hrest, List.map_id']
    · rw [if_neg hid, if_neg (Ne.symm hid), ih hnd.2]

/-- Where each task has one record, each record is changed by itself. -/
theorem storeAll_eq_map (results : List PlanningResult) (hnd : (ts.map (·.taskId)).Nodup) :
    storeAll results ts = ts.map (storedBy results) := by
  induction results generalizing ts with
  | nil => exact (List.map_id ts).symm
  | cons res results ih =>
    have hids : ((changeFirst res.taskId (stored · res.parameters) ts).map (·.taskId)) =
        ts.map (·.taskId) := by
      rw [changeFirst_eq_map hnd, List.map_map]
      refine List.map_congr_left fun r _ => ?_
      rw [Function.comp]
      split
      · exact taskId_stored r res.parameters
      · rfl
    have hrest := ih (hids ▸ hnd)
    rw [changeFirst_eq_map hnd, List.map_map] at hrest
    exact (congrArg (storeAll results) (changeFirst_eq_map hnd)).trans hrest

/-- A record that no result is about stays as it is. -/
theorem storedBy_of_not_mem (h : ∀ res ∈ results, res.taskId ≠ r.taskId) :
    storedBy results r = r := by
  induction results with
  | nil => rfl
  | cons res results ih =>
    rw [List.forall_mem_cons] at h
    rw [storedBy, List.foldl_cons, if_neg h.1]
    exact ih h.2

/-- Where each task has one placement, a record is changed by that of its task. -/
theorem storedBy_of_mem (hnd : (results.map (·.taskId)).Nodup) (hres : res ∈ results)
    (hid : res.taskId = r.taskId) : storedBy results r = stored r res.parameters := by
  induction results with
  | nil => cases hres
  | cons first results ih =>
    rw [List.map_cons, List.nodup_cons] at hnd
    rw [storedBy, List.foldl_cons]
    rcases List.mem_cons.1 hres with rfl | hres
    · rw [if_pos hid]
      refine storedBy_of_not_mem fun res' hres' he => ?_
      rw [taskId_stored, ← hid] at he
      exact hnd.1 (he ▸ List.mem_map_of_mem hres')
    · have hne : first.taskId ≠ r.taskId := fun he =>
        hnd.1 (he.trans hid.symm ▸ List.mem_map_of_mem hres)
      rw [if_neg hne]
      exact ih hnd.2 hres

/-- Storing a placement does not change the task of a record. -/
theorem task?_stored (r : TaskRecord) (pp : PlanningParameters) :
    (stored r pp).task? = r.task? := by
  rw [stored]
  split <;> rfl

/-- Storing a plan does not change the task of a record. -/
theorem task?_storedBy (results : List PlanningResult) (r : TaskRecord) :
    (storedBy results r).task? = r.task? := by
  induction results generalizing r with
  | nil => rfl
  | cons res results ih =>
    rw [storedBy, List.foldl_cons]
    refine (ih _).trans ?_
    split
    · exact task?_stored r res.parameters
    · rfl

/-- A record holds the placement stored last. -/
theorem planningParameters_stored (r : TaskRecord) (pp : PlanningParameters) :
    (stored r pp).planningParameters = some pp := by
  rw [stored]
  split <;> rfl

/-- A published placement of a ready task, or of one that its worker holds, makes the worker the
holder. -/
theorem holder?_stored (hpub : pp.published = true)
    (h : r.status = .ready ∨ r.holder? = some pp.assignedUser) :
    (stored r pp).holder? = some pp.assignedUser := by
  rw [stored]
  rcases h with hready | hholder
  · simp [hpub, hready, TaskRecord.holder?]
  · split
    · rfl
    · exact hholder

/-- A placement that is not published leaves a ready task ready. -/
theorem status_stored (hpub : pp.published = false) : (stored r pp).status = r.status := by
  simp [stored, hpub]

end MemoryRuntime

namespace Assembly

open Solution Draft MemoryRuntime PublishPlan

variable {s s' : Solution} {lists : UserId → List TaskId} {p : PublishedTasks} {pin : Bool}
  {window : Nat} {r : TaskRecord} {u : UserId} {x : TaskId} {records : List TaskRecord}
  {directory : List DirectoryUser}

/-! ## one record -/

/-- A record is of a ready task, or of a published one that is held by the worker it is assigned
to. -/
def InPlace (s : Solution) (p : PublishedTasks) (r : TaskRecord) : Prop :=
  r.status = .ready ∨
    ∃ u, r.holder? = some u ∧ s.assignedUser? r.taskId = some u ∧ r.taskId ∈ p

/-- What a plan publishes for a worker is in the chain of that worker. -/
theorem mem_line_of_publishes (h : s.Chained lists)
    (hpub : (ofSolution window pin s p).publishes u x = true) : x ∈ line s u := by
  obtain ⟨res, hres, rfl, rfl, -⟩ := publishes_iff.1 hpub
  obtain ⟨hreal, -, hmem, -⟩ := mem_results_ofSolution h hres
  exact (mem_line_iff h).2 ⟨hmem, hreal⟩

/-- No plan publishes the placeholder. -/
theorem publishes_placeholder (h : s.Chained lists) :
    (ofSolution window pin s p).publishes u .placeholder = false :=
  Bool.eq_false_iff.2 fun hpub => ((mem_line_iff h).1 (mem_line_of_publishes h hpub)).2 rfl

/-- A task that the plan reports as published is held by its worker afterwards, and its place is
recorded. -/
theorem holder_of_publishes (h : s.Chained lists) (hplace : InPlace s p r)
    (hpub : (ofSolution window pin s p).publishes u r.taskId = true) :
    (storedBy (ofSolution window pin s p).results r).holder? = some u ∧
      ∃ k, (line s u)[k]? = some r.taskId ∧
        standing (storedBy (ofSolution window pin s p).results r) u = (true, true, .ofNat k) := by
  have hmem := ((mem_line_iff h).1 (mem_line_of_publishes h hpub)).1
  obtain ⟨res, hres, hid, rfl, hpublished⟩ := publishes_iff.1 hpub
  obtain ⟨k, hk, hindex, -⟩ := index_of_mem_results hres
  rw [storedBy_of_mem (nodup_results h window pin p) hres hid]
  refine ⟨holder?_stored hpublished ?_, k, hid ▸ hk, ?_⟩
  · refine hplace.imp_right ?_
    rintro ⟨v, hholder, hassigned, -⟩
    rw [hholder, h.eq_of_mem (h.assignedUser?_eq_some_iff.1 hassigned) hmem]
  · simp [Draft.standing, planningParameters_stored, hpublished, hindex]

/-- A task that the plan does not report as published is still ready. -/
theorem ready_of_not_publishes (h : s.Chained lists) (hreal : r.taskId ≠ .placeholder)
    (hplace : InPlace s p r)
    (hno : ∀ u, (ofSolution window pin s p).publishes u r.taskId ≠ true) :
    (storedBy (ofSolution window pin s p).results r).status = .ready := by
  have hunpublished : ∀ res ∈ (ofSolution window pin s p).results, res.taskId = r.taskId →
      res.parameters.published = false := fun res hres hid =>
    Bool.eq_false_iff.2 fun hpub => hno _ (publishes_iff.2 ⟨res, hres, hid, rfl, hpub⟩)
  obtain hready | ⟨u, -, hassigned, hp⟩ := hplace
  · by_cases hthere : ∃ res ∈ (ofSolution window pin s p).results, res.taskId = r.taskId
    · obtain ⟨res, hres, hid⟩ := hthere
      rw [storedBy_of_mem (nodup_results h window pin p) hres hid,
        status_stored (hunpublished res hres hid), hready]
    · rw [storedBy_of_not_mem fun res hres hid => hthere ⟨res, hres, hid⟩, hready]
  · -- a held task is published already, and the plan says so
    have hline : r.taskId ∈ line s u :=
      (mem_line_iff h).2 ⟨h.assignedUser?_eq_some_iff.1 hassigned, hreal⟩
    obtain ⟨res, hres, hid, -⟩ := exists_mem_results h hline window pin p
    obtain ⟨-, -, -, hpub⟩ := index_of_mem_results hres
    have hpublished := hpub (hid ▸ hp)
    rw [hunpublished res hres hid] at hpublished
    cases hpublished

/-! ## the slots of a worker -/

/-- Whether there is a record of a task. -/
def hasRecord (records : List TaskRecord) (x : TaskId) : Bool := records.any (·.taskId = x)

/-- A task has a record if one of the records is about it. -/
theorem hasRecord_iff : hasRecord records x = true ↔ ∃ r ∈ records, r.taskId = x := by
  simp [hasRecord]

/-- The records after a plan has been stored. -/
def recordsAfter (window : Nat) (pin : Bool) (s : Solution) (p : PublishedTasks)
    (records : List TaskRecord) : List TaskRecord :=
  records.map (storedBy (ofSolution window pin s p).results)

section Slots

variable (h : s.Chained lists) (hreal : ∀ r ∈ records, r.taskId ≠ .placeholder)
  (hplace : ∀ r ∈ records, InPlace s p r)

include h hreal hplace

/-- Whoever holds a task after a plan has been stored, the plan reports the task as published for
this worker. -/
theorem publishes_of_holder (hr : r ∈ records)
    (hholder : (storedBy (ofSolution window pin s p).results r).holder? = some u) :
    (ofSolution window pin s p).publishes u r.taskId = true := by
  by_contra hno
  have hnone : ∀ v, (ofSolution window pin s p).publishes v r.taskId ≠ true := by
    intro v hv
    have hv' := (holder_of_publishes h (hplace r hr) hv).1
    rw [hholder, Option.some.injEq] at hv'
    exact hno (hv' ▸ hv)
  exact not_ready_of_holder? hholder (ready_of_not_publishes h (hreal r hr) (hplace r hr) hnone)

/-- A slot of a worker is one of a published task, under its place in the chain. -/
theorem slot_of_mem {slot : Slot}
    (hslot : slot ∈ (recordsAfter window pin s p records).filterMap (slot? u)) :
    slot.pinned = true ∧ (∃ k, (line s u)[k]? = some slot.task.id ∧ slot.index = .ofNat k) ∧
      (ofSolution window pin s p).publishes u slot.task.id = true ∧
      ∃ r ∈ records, r.taskId = slot.task.id := by
  obtain ⟨r', hr', hsome⟩ := List.mem_filterMap.1 hslot
  obtain ⟨r, hr, rfl⟩ := List.mem_map.1 hr'
  obtain ⟨hholder, t, ht, rfl⟩ := slot?_eq_some_iff.1 hsome
  have hpub := publishes_of_holder h hreal hplace hr hholder
  obtain ⟨-, k, hk, hstanding⟩ := holder_of_publishes h (hplace r hr) hpub
  rw [task?_storedBy] at ht
  have hid := taskId_of_task? ht
  simp only [slotOf, hstanding, hid]
  exact ⟨trivial, ⟨k, hk, rfl⟩, hpub, r, hr, rfl⟩

omit hreal in
/-- A recorded task that the plan reports as published for a worker has a slot of this worker. -/
theorem exists_slot (hvalid : ∀ r ∈ records, ∃ t, r.task? = .ok t) (hr : r ∈ records)
    (hpub : (ofSolution window pin s p).publishes u r.taskId = true) :
    ∃ slot ∈ (recordsAfter window pin s p records).filterMap (slot? u),
      slot.task.id = r.taskId := by
  obtain ⟨t, ht⟩ := hvalid r hr
  obtain ⟨hholder, -⟩ := holder_of_publishes h (hplace r hr) hpub
  have hslot := slot?_of_holder? hholder ((task?_storedBy _ r).trans ht)
  exact ⟨_, List.mem_filterMap.2 ⟨_, List.mem_map_of_mem hr, hslot⟩, taskId_of_task? ht⟩

/-- The slots of a worker are those of the recorded tasks that the plan reports as published for
it. -/
theorem mem_slots_iff (hvalid : ∀ r ∈ records, ∃ t, r.task? = .ok t) :
    x ∈ ((recordsAfter window pin s p records).filterMap (slot? u)).map (·.task.id) ↔
      x ∈ line s u ∧
        ((ofSolution window pin s p).publishes u x && hasRecord records x) = true := by
  rw [Bool.and_eq_true, hasRecord_iff]
  constructor
  · intro hx
    obtain ⟨slot, hslot, rfl⟩ := List.mem_map.1 hx
    obtain ⟨-, -, hpub, hr⟩ := slot_of_mem h hreal hplace hslot
    exact ⟨mem_line_of_publishes h hpub, hpub, hr⟩
  · rintro ⟨-, hpub, r, hr, rfl⟩
    obtain ⟨slot, hslot, hid⟩ := exists_slot h hplace hvalid hr hpub
    exact List.mem_map.2 ⟨slot, hslot, hid⟩

end Slots

/-! ## reading the chain back -/

/-- The positions in a list without repetition ascend. -/
theorem pairwise_idxOf {ids : List TaskId} (hnd : ids.Nodup) :
    ids.Pairwise fun x y => ids.idxOf x ≤ ids.idxOf y := by
  rw [List.pairwise_iff_getElem]
  intro i j hi hj hij
  rw [hnd.idxOf_getElem, hnd.idxOf_getElem]
  exact Nat.le_of_lt hij

/-- Slots whose positions are their places in a list come out in the order of the list. -/
theorem map_id_inOrder {ids : List TaskId} {slots : List Slot} {q : TaskId → Bool}
    (hids : ids.Nodup) (hshort : ids.length < 2 ^ 31) (hnd : (slots.map (·.task.id)).Nodup)
    (hslots : ∀ slot ∈ slots, slot.pinned = true ∧
      ∃ k, ids[k]? = some slot.task.id ∧ slot.index = .ofNat k)
    (hmem : ∀ x, x ∈ slots.map (·.task.id) ↔ x ∈ ids ∧ q x = true) :
    (inOrder slots).map (·.task.id) = ids.filter q := by
  have hindex : ∀ slot ∈ slots, slot.index.toInt = ids.idxOf slot.task.id := by
    intro slot hslot
    obtain ⟨-, k, hk, hindex⟩ := hslots slot hslot
    obtain ⟨hlt, hget⟩ := List.getElem?_eq_some_iff.1 hk
    rw [hindex, ← hget, hids.idxOf_getElem, Int32.toInt_ofNat_of_lt (by omega)]
  have hperm : ((inOrder slots).map (·.task.id)).Perm (slots.map (·.task.id)) :=
    (inOrder_perm slots).map _
  have hsorted : ((inOrder slots).map (·.task.id)).Pairwise
      fun x y => ids.idxOf x ≤ ids.idxOf y := by
    refine List.pairwise_map.2 ((pairwise_rank_inOrder slots).imp_of_mem fun ha hb hab => ?_)
    have ha' := hindex _ ((inOrder_perm slots).mem_iff.1 ha)
    have hb' := hindex _ ((inOrder_perm slots).mem_iff.1 hb)
    have hpinned := (hslots _ ((inOrder_perm slots).mem_iff.1 hb)).1
    have hle := Slot.index_le_of_rank_le hab hpinned (by omega) (by omega)
    omega
  have hfilter : (ids.filter q).Pairwise fun x y => ids.idxOf x ≤ ids.idxOf y :=
    (pairwise_idxOf hids).sublist List.filter_sublist
  refine List.Perm.eq_of_pairwise (fun x y hx hy hxy hyx => ?_) hsorted hfilter
    ((List.perm_ext_iff_of_nodup (hperm.nodup_iff.2 hnd) (hids.filter q)).2 fun x => ?_)
  · exact (List.idxOf_inj (((hmem x).1 (hperm.mem_iff.1 hx)).1)).1 (Nat.le_antisymm hxy hyx)
  · rw [hperm.mem_iff, hmem, List.mem_filter]

/-! ## the restart -/

/-- After a plan the records are about the same tasks, in the same order. -/
theorem map_taskId_recordsAfter (window : Nat) (pin : Bool) (s : Solution) (p : PublishedTasks)
    (records : List TaskRecord) :
    (recordsAfter window pin s p records).map (·.taskId) = records.map (·.taskId) := by
  rw [recordsAfter, List.map_map]
  exact List.map_congr_left fun r _ => (storedBy_stored _ r).taskId

/-- What holds for every record with its results stored holds for the records after a plan. -/
theorem forall_recordsAfter {P : TaskRecord → Prop}
    (h : ∀ r ∈ records, P (storedBy (ofSolution window pin s p).results r)) :
    ∀ r ∈ recordsAfter window pin s p records, P r :=
  List.forall_mem_map.2 h

section After

variable (h : s.Chained lists) (hreal : ∀ r ∈ records, r.taskId ≠ .placeholder)
  (hplace : ∀ r ∈ records, InPlace s p r)
  (hbuilt : Built (recordsAfter window pin s p records) directory s')

include h hreal hplace hbuilt

/-- Each worker has the recorded tasks again that the plan reports as published for it. -/
theorem chainIds_after_restart (hshort : ∀ u, (s.chain u).length < 2 ^ 31)
    (hdirectory : ∀ u, s.containsUser u = true → ∃ w ∈ directory, w.id = u)
    (hvalid : ∀ r ∈ records, ∃ t, r.task? = .ok t) (u : UserId) :
    s'.chainIds u = (if u = .fallback then [.placeholder] else []) ++ (s.chainIds u).filter fun x =>
      (ofSolution window pin s p).publishes u x && hasRecord records x := by
  rw [hbuilt.chains, ← filter_line (by simp [publishes_placeholder h])]
  congr 1
  split
  · next hu =>
    have hlen := Nat.lt_of_le_of_lt (length_line_le s u) (hshort u)
    refine map_id_inOrder (nodup_line h u) hlen (hbuilt.nodup_slots hu) (fun slot hslot => ?_)
      fun x => mem_slots_iff h hreal hplace hvalid
    obtain ⟨hpinned, hindex, -⟩ := slot_of_mem h hreal hplace hslot
    exact ⟨hpinned, hindex⟩
  · next hu =>
    have hnone : s.user? u = none := by
      rw [← containsUser_eq_false, Bool.eq_false_iff]
      exact fun hthere => hu ((hbuilt.users u).2 (.inr (hdirectory u hthere)))
    rw [line, h.chainIds_eq, h.list_of_absent hnone]
    rfl

/-- Everything in a chain is pinned. -/
theorem pinned_after_restart {t : Task} (ht : t ∈ s'.chain u) : t.pinned = true := by
  obtain ⟨hthere, hmem⟩ := hbuilt.arranged.mem_chain_iff.1 ht
  have hstanding : (s'.standing t.id).pinned = some true := by
    rw [hbuilt.chains, List.mem_append] at hmem
    rcases hmem with hmem | hmem
    · split at hmem
      · rw [List.mem_singleton.1 hmem, hbuilt.placeholder]
      · cases hmem
    · split at hmem
      · next hu =>
        obtain ⟨slot, hslot, hid⟩ := List.mem_map.1 hmem
        have hslot := (inOrder_perm _).mem_iff.1 hslot
        rw [← hid, hbuilt.standing_slot hu hslot, (slot_of_mem h hreal hplace hslot).1]
      · cases hmem
  simpa [Solution.standing, hthere] using hstanding

/-- A recorded task that the plan does not report as published is in no chain. -/
theorem loose_after_restart (hr : r ∈ records)
    (hno : ∀ u, (ofSolution window pin s p).publishes u r.taskId = false) :
    s'.containsTask r.taskId = true ∧ s'.assignedUser? r.taskId = none := by
  have hnone : ∀ u, (ofSolution window pin s p).publishes u r.taskId ≠ true := fun u => by
    simp [hno u]
  have hready := ready_of_not_publishes h (hreal r hr) (hplace r hr) hnone
  have hstanding := hbuilt.ready _ (List.mem_map_of_mem hr) hready
  rw [(storedBy_stored _ r).taskId] at hstanding
  exact ⟨containsTask_iff_standing.2 (by rw [hstanding]; rfl), congrArg Standing.user hstanding⟩

omit hbuilt in
/-- The records show exactly the tasks that the plan reports as published. -/
theorem exists_exposed_iff : (∃ r' ∈ recordsAfter window pin s p records,
    r'.taskId = x ∧ Exposed r') ↔
      hasRecord records x = true ∧ ∃ u, (ofSolution window pin s p).publishes u x = true := by
  rw [hasRecord_iff]
  constructor
  · rintro ⟨r', hr', rfl, u, hholder, -⟩
    obtain ⟨r, hr, rfl⟩ := List.mem_map.1 hr'
    have hid := (storedBy_stored (ofSolution window pin s p).results r).taskId
    exact ⟨⟨r, hr, hid.symm⟩, u, hid ▸ publishes_of_holder h hreal hplace hr hholder⟩
  · rintro ⟨⟨r, hr, rfl⟩, u, hpub⟩
    obtain ⟨hholder, k, -, hstanding⟩ := holder_of_publishes h (hplace r hr) hpub
    exact ⟨_, List.mem_map_of_mem hr, (storedBy_stored _ r).taskId, u, hholder, by rw [hstanding]⟩

end After

/-- Let no chain of a solution be too long to be numbered, and let the runtime hold records of ready
tasks and of published ones that are held by the workers they are assigned to, one for each task.
Once the placements of a plan have been stored, a build from the records alone succeeds.  It gives
each worker the recorded tasks that the plan reports as published for it, in the order of its chain
and all pinned, with the placeholder in front for the fallback user; every other recorded task is in
no chain; and the published tasks are exactly those that the plan reports. -/
theorem plan_survives_restart (hs : s.Reachable) (hshort : ∀ u, (s.chain u).length < 2 ^ 31)
    (hdirectory : ∀ u, s.containsUser u = true → ∃ w ∈ directory, w.id = u)
    {runtime : MemoryRuntime} (hworks : runtime.applyFailure = none)
    (hnd : (runtime.tasks.map (·.taskId)).Nodup)
    (hreal : ∀ r ∈ runtime.tasks, r.taskId ≠ .placeholder)
    (hvalid : ∀ r ∈ runtime.tasks, 0 ≤ r.priority.toInt ∧ r.priority.toInt ≤ 10)
    (hplace : ∀ r ∈ runtime.tasks, r.status = .ready ∨
      ∃ u, r.holder? = some u ∧ s.assignedUser? r.taskId = some u ∧ r.taskId ∈ p)
    (window : Nat) (pin : Bool) (actingUser : String) :
    let plan := PublishPlan.ofSolution window pin s p
    ∃ runtime' s' p', runtime.finishApply ⟨plan.results, actingUser⟩ = (.ok (), runtime') ∧
      build runtime'.tasks directory ∅ = (.ok s', p') ∧
      (∀ u, s'.chainIds u = (if u = .fallback then [.placeholder] else []) ++
        (s.chainIds u).filter fun x => plan.publishes u x && hasRecord runtime.tasks x) ∧
      (∀ u, ∀ t ∈ s'.chain u, t.pinned = true) ∧
      (∀ r ∈ runtime.tasks, (∀ u, plan.publishes u r.taskId = false) →
        s'.containsTask r.taskId = true ∧ s'.assignedUser? r.taskId = none) ∧
      ∀ x, x ∈ p' ↔ hasRecord runtime.tasks x = true ∧ ∃ u, plan.publishes u x = true := by
  intro plan
  have h := hs.arranged.toChained
  have hreadable : ∀ r ∈ runtime.tasks, ∃ t, r.task? = .ok t := fun r hr =>
    exists_task?_iff.2 (hvalid r hr)
  have hids := map_taskId_recordsAfter window pin s p runtime.tasks
  obtain ⟨s', hs'⟩ := exists_build (hids ▸ hnd)
    (forall_recordsAfter fun r hr => (storedBy_stored _ r).taskId ▸ hreal r hr)
    (forall_recordsAfter fun r hr => task?_storedBy _ r ▸ hreadable r hr) directory ∅
  obtain ⟨hbuilt, hpublished⟩ := built_of_build hs'
  have hstored : runtime.finishApply ⟨plan.results, actingUser⟩ = (.ok (), { runtime with
      tasks := recordsAfter window pin s p runtime.tasks
      applies := runtime.applies ++ [⟨plan.results, actingUser⟩] }) := by
    rw [finishApply, hworks, recordsAfter, ← storeAll_eq_map _ hnd]
  -- a build starts with nothing published, so what it marks is what the records show
  have hcache : ∀ x, x ∈ (build (recordsAfter window pin s p runtime.tasks) directory ∅).2 ↔
      hasRecord runtime.tasks x = true ∧ ∃ u, plan.publishes u x = true := fun x => by
    rw [hpublished, exists_exposed_iff h hreal hplace, or_iff_right (SortedSet.not_mem_empty x)]
  exact ⟨_, s', _, hstored, Prod.ext hs' rfl,
    chainIds_after_restart h hreal hplace hbuilt hshort hdirectory hreadable,
    fun u t ht => pinned_after_restart h hreal hplace hbuilt ht,
    fun r hr hno => loose_after_restart h hreal hplace hbuilt hr hno, hcache⟩

/-- Of a chain of two tasks the first is worked on and the second is published by the plan; a third
task is in no chain.  The records come in the other order. -/
theorem plan_survives_restart_two_tasks :
    let s := Operation.runAll callsForThree ∅
    let runtime := MemoryRuntime.ofTasks [recordOf 3 .ready none, recordOf 2 .ready none,
      recordOf 1 .inProgress (some ⟨"ann"⟩)]
    let p : PublishedTasks := .ofList [⟨1⟩]
    let directory : List DirectoryUser := [⟨⟨"ann"⟩, []⟩]
    let plan := PublishPlan.ofSolution 2 false s p
    s.Reachable ∧ (∀ u, (s.chain u).length < 2 ^ 31) ∧
      (∀ u, s.containsUser u = true → ∃ w ∈ directory, w.id = u) ∧
      runtime.applyFailure = none ∧ (runtime.tasks.map (·.taskId)).Nodup ∧
      (∀ r ∈ runtime.tasks, r.taskId ≠ .placeholder) ∧
      (∀ r ∈ runtime.tasks, 0 ≤ r.priority.toInt ∧ r.priority.toInt ≤ 10) ∧
      (∀ r ∈ runtime.tasks, r.status = .ready ∨
        ∃ u, r.holder? = some u ∧ s.assignedUser? r.taskId = some u ∧ r.taskId ∈ p) ∧
      ∃ runtime' s' p', runtime.finishApply ⟨plan.results, "planner"⟩ = (.ok (), runtime') ∧
        build runtime'.tasks directory ∅ = (.ok s', p') ∧ s'.chainIds ⟨"ann"⟩ = [⟨1⟩, ⟨2⟩] ∧
        s'.assignedUser? ⟨3⟩ = none := by
  intro s runtime p directory plan
  have hreach : s.Reachable := ⟨callsForThree, rfl⟩
  have hshort : ∀ u, (s.chain u).length < 2 ^ 31 := by
    intro u
    have hlen : (s.chainIds u).length ≤ s.tasks.size := hreach.arranged.length_le u
    rw [chainIds, List.length_map] at hlen
    have hsize : s.tasks.size = 3 := by decide +kernel
    omega
  have hdirectory : ∀ u, s.containsUser u = true → ∃ w ∈ directory, w.id = u := by
    intro u hu
    have hkeys : s.users.keys = [⟨"ann"⟩] := by decide +kernel
    rw [containsUser, KeyedList.contains_iff, hkeys, List.mem_singleton] at hu
    exact ⟨_, List.mem_cons_self, hu.symm⟩
  have hworks : runtime.applyFailure = none := rfl
  have hnd : (runtime.tasks.map (·.taskId)).Nodup := by decide
  have hreal : ∀ r ∈ runtime.tasks, r.taskId ≠ .placeholder := by decide +kernel
  have hvalid : ∀ r ∈ runtime.tasks, 0 ≤ r.priority.toInt ∧ r.priority.toInt ≤ 10 := by
    decide +kernel
  have hplace : ∀ r ∈ runtime.tasks, r.status = .ready ∨
      ∃ u, r.holder? = some u ∧ s.assignedUser? r.taskId = some u ∧ r.taskId ∈ p := by
    simp only [runtime, MemoryRuntime.ofTasks, List.forall_mem_cons]
    refine ⟨.inl rfl, .inl rfl, .inr ⟨⟨"ann"⟩, rfl, by decide +kernel, by decide +kernel⟩, by simp⟩
  obtain ⟨runtime', s', p', hstored, hbuild, hchains, -, hloose, -⟩ :=
    plan_survives_restart hreach hshort hdirectory hworks hnd hreal hvalid hplace 2 false "planner"
  have hchain : s'.chainIds ⟨"ann"⟩ = [⟨1⟩, ⟨2⟩] := (hchains _).trans (by decide +kernel)
  have hfree : s'.assignedUser? ⟨3⟩ = none := by
    have hother : ∀ res ∈ plan.results, res.taskId ≠ ⟨3⟩ := by decide +kernel
    refine (hloose (recordOf 3 .ready none) List.mem_cons_self fun u => ?_).2
    rw [Bool.eq_false_iff, ne_eq, publishes_iff]
    rintro ⟨res, hres, hid, -⟩
    exact hother res hres hid
  exact ⟨hreach, hshort, hdirectory, hworks, hnd, hreal, hvalid, hplace, runtime', s', p', hstored,
    hbuild, hchain, hfree⟩

end Assembly

end ChainPlanner
