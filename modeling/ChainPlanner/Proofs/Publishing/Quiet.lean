import ChainPlanner.Publish.Plan
import ChainPlanner.Runtime.Memory
import ChainPlanner.Proofs.Resync.Settled
import ChainPlanner.Proofs.Resync.Soundness

/-!
# ChainPlanner.Proofs.Publishing.Quiet

Publishing gives a later comparison nothing to ask for.

A plan places each task where it stands: `mem_results_ofSolution` says whose chain a placement is
taken from, and that it is published only if its task was published before or is now.  Storing
placements changes a record in one way only, by handing a ready or reserved task to the worker of a
published placement (`storedBy_stored`).  So a record that was settled before is settled afterwards:
either it is as it was, or its task is held by the worker in whose chain it stands.  The published
tasks do not grow any further, and the second comparison is a fixed point.
-/

namespace ChainPlanner

open Solution

/-! ## what a plan places -/

namespace PublishPlan

variable {s : Solution} {lists : UserId → List TaskId} {p : PublishedTasks} {pin : Bool}
  {room window : Nat} {rs : List PlanningResult} {res : PlanningResult} {x : TaskId} {u : UserId}

/-- Filling up a window changes no task and no worker of a placement, and publishes only what it
lists. -/
theorem exists_of_mem_fill (h : res ∈ (fill pin room rs).results) :
    ∃ r ∈ rs, res.taskId = r.taskId ∧
      res.parameters.assignedUser = r.parameters.assignedUser ∧
      (res.parameters.published = true →
        r.parameters.published = true ∨ r.taskId ∈ (fill pin room rs).newlyPublished) := by
  fun_induction fill pin room rs with
  | case1 => cases h
  | case2 room r rs hpublished plan ih =>
    rcases List.mem_cons.1 h with rfl | h
    · exact ⟨res, List.mem_cons_self, rfl, rfl, .inl⟩
    · obtain ⟨r', hr', hrest⟩ := ih h
      exact ⟨r', List.mem_cons_of_mem r hr', hrest⟩
  | case3 r rs hpublished => exact ⟨res, h, rfl, rfl, .inl⟩
  | case4 r rs hpublished room plan ih =>
    rcases List.mem_cons.1 h with rfl | h
    · exact ⟨r, List.mem_cons_self, rfl, rfl, fun _ => .inr List.mem_cons_self⟩
    · obtain ⟨r', hr', hid, huser, hnew⟩ := ih h
      exact ⟨r', List.mem_cons_of_mem r hr', hid, huser, fun hpub =>
        (hnew hpub).imp_right (List.mem_cons_of_mem _)⟩

/-- What is published for the first time has a published placement. -/
theorem exists_of_mem_newlyPublished (h : x ∈ (fill pin room rs).newlyPublished) :
    ∃ res ∈ (fill pin room rs).results, res.taskId = x ∧ res.parameters.published = true := by
  fun_induction fill pin room rs with
  | case1 => cases h
  | case2 room r rs hpublished plan ih =>
    obtain ⟨res, hres, hrest⟩ := ih h
    exact ⟨res, List.mem_cons_of_mem _ hres, hrest⟩
  | case3 => cases h
  | case4 r rs hpublished room plan ih =>
    rcases List.mem_cons.1 h with rfl | h
    · exact ⟨exposed pin r, List.mem_cons_self, rfl, rfl⟩
    · obtain ⟨res, hres, hrest⟩ := ih h
      exact ⟨res, List.mem_cons_of_mem _ hres, hrest⟩

/-- A placement is about a task in the chain of its worker, and is published if the task is. -/
theorem exists_of_mem_placements (h : res ∈ placements s p u) :
    ∃ t ∈ s.chain u, t.isPlaceholder = false ∧ res.taskId = t.id ∧
      res.parameters.assignedUser = u ∧ (res.parameters.published = true ↔ t.id ∈ p) := by
  rw [placements, List.mem_map] at h
  obtain ⟨⟨t, k⟩, hmem, rfl⟩ := h
  have ht := (List.mem_zipIdx hmem).2.2 ▸ List.getElem_mem _
  rw [List.mem_filter] at ht
  exact ⟨t, ht.1, by simpa using ht.2, rfl, rfl, decide_eq_true_iff⟩

/-- A placement is of a task in the chain of its worker, and it is published only if the task was
published before or is published by the plan. -/
theorem mem_results_ofSolution (h : s.Chained lists)
    (hres : res ∈ (ofSolution window pin s p).results) :
    res.taskId ≠ .placeholder ∧ s.containsUser res.parameters.assignedUser = true ∧
      res.taskId ∈ lists res.parameters.assignedUser ∧
      (res.parameters.published = true →
        res.taskId ∈ p ∨ res.taskId ∈ (ofSolution window pin s p).newlyPublished) := by
  simp only [ofSolution, List.mem_flatMap, List.mem_map] at hres ⊢
  obtain ⟨-, ⟨w, hw, rfl⟩, hres⟩ := hres
  obtain ⟨r, hr, hid, huser, hnew⟩ := exists_of_mem_fill hres
  obtain ⟨t, ht, hreal, hrt, hru, hpub⟩ := exists_of_mem_placements hr
  obtain ⟨u, hu⟩ := KeyedList.mem_values_iff.1 hw
  have hwid : w.id = u := h.keyed.user_id hu
  rw [huser, hru, hid, hrt]
  refine ⟨by simpa [Task.isPlaceholder, TaskId.isPlaceholder] using hreal, ?_,
    (h.mem_chain_iff.1 ht).2, fun hpublished => ?_⟩
  · exact containsUser_iff.2 ⟨w, hwid ▸ hu⟩
  · rcases hnew hpublished with hold | hnew
    · exact .inl (hpub.1 hold)
    · exact .inr ⟨_, ⟨w, hw, rfl⟩, hrt ▸ hnew⟩

/-- What a plan publishes anew it reports as published. -/
theorem exists_of_mem_newlyPublished_ofSolution
    (h : x ∈ (ofSolution window pin s p).newlyPublished) :
    ∃ res ∈ (ofSolution window pin s p).results,
      res.taskId = x ∧ res.parameters.published = true := by
  simp only [ofSolution, List.mem_flatMap, List.mem_map] at h ⊢
  obtain ⟨plan, ⟨w, hw, rfl⟩, hx⟩ := h
  obtain ⟨res, hres, hrest⟩ := exists_of_mem_newlyPublished hx
  exact ⟨res, ⟨_, ⟨w, hw, rfl⟩, hres⟩, hrest⟩

end PublishPlan

/-! ## what storing placements does to records -/

namespace MemoryRuntime

open Assembly

variable {results : List PlanningResult} {res : PlanningResult} {ts : List TaskRecord}
  {r r' r'' : TaskRecord} {x : TaskId}

/-- A record after the placements of its task have been stored one after another. -/
def storedBy (results : List PlanningResult) (r : TaskRecord) : TaskRecord :=
  results.foldl (fun r res => if res.taskId = r.taskId then stored r res.parameters else r) r

/-- A record stays about its task. -/
theorem taskId_stored (r : TaskRecord) (pp : PlanningParameters) :
    (stored r pp).taskId = r.taskId := by
  rw [stored]
  split <;> rfl

/-- Changing the first record of a task is seen in that record only. -/
theorem firstRecord?_changeFirst {f : TaskRecord → TaskRecord} (hf : ∀ r, (f r).taskId = r.taskId)
    (id x : TaskId) (ts : List TaskRecord) : firstRecord? (changeFirst id f ts) x =
      (firstRecord? ts x).map fun r => if id = r.taskId then f r else r := by
  simp only [firstRecord?]
  induction ts with
  | nil => rfl
  | cons t ts ih =>
    rw [changeFirst]
    by_cases hid : t.taskId = id
    · rw [if_pos hid]
      by_cases hx : t.taskId = x
      · simp [hf, hx, hid ▸ hx]
      · have hkeep : ∀ r, ts.find? (fun r => r.taskId = x) = some r →
            (if id = r.taskId then f r else r) = r := by
          intro r hr
          have hrx : r.taskId = x := by simpa using List.find?_some hr
          rw [if_neg fun he => hx (by rw [hid, he, hrx])]
        rw [List.find?_cons_of_neg (by simp [hf, hx]), List.find?_cons_of_neg (by simp [hx])]
        cases hfind : ts.find? fun r => r.taskId = x with
        | none => rfl
        | some r => rw [Option.map_some, hkeep r hfind]
    · rw [if_neg hid]
      by_cases hx : t.taskId = x
      · rw [List.find?_cons_of_pos (by simp [hx]), List.find?_cons_of_pos (by simp [hx]),
          Option.map_some, if_neg (Ne.symm hid)]
      · rw [List.find?_cons_of_neg (by simp [hx]), List.find?_cons_of_neg (by simp [hx]), ih]

/-- Storing placements changes the first record of a task by the placements of that task. -/
theorem firstRecord?_storeAll (results : List PlanningResult) (ts : List TaskRecord) (x : TaskId) :
    firstRecord? (storeAll results ts) x = (firstRecord? ts x).map (storedBy results) := by
  rw [storeAll]
  induction results generalizing ts with
  | nil =>
    have hid : storedBy [] = id := rfl
    rw [List.foldl_nil, hid, Option.map_id_fun, id]
  | cons res results ih =>
    rw [List.foldl_cons, ih, firstRecord?_changeFirst fun r => taskId_stored r res.parameters,
      Option.map_map]
    rfl

/-- How a record looks after placements have been stored, as far as a comparison can tell. -/
structure Stored (results : List PlanningResult) (r r' : TaskRecord) : Prop where
  taskId : r'.taskId = r.taskId
  terminal : r'.status.isTerminal = r.status.isTerminal
  /-- A task that is still ready has not been published. -/
  ready : r'.status = .ready → r.status = .ready ∧
    ∀ res ∈ results, res.taskId = r.taskId → res.parameters.published = false
  /-- Whoever holds the task held it before or is the worker of a published placement. -/
  holder : ∀ u, r'.holder? = some u → r.holder? = some u ∨ ∃ res ∈ results,
    res.taskId = r.taskId ∧ res.parameters.published = true ∧ res.parameters.assignedUser = u

/-- Without placements a record looks as it did. -/
theorem Stored.refl (r : TaskRecord) : Stored [] r r :=
  ⟨rfl, rfl, fun h => ⟨h, by simp⟩, fun _ => .inl⟩

/-- A record after one placement of its task. -/
theorem stored_stored (hid : res.taskId = r.taskId) :
    Stored [res] r (stored r res.parameters) := by
  by_cases hgiven : (res.parameters.published && (r.status = .ready || r.status = .reserved)) = true
  · have hstored : stored r res.parameters = { r with
        planningParameters := some res.parameters
        status := .reserved
        actualOwner := some res.parameters.assignedUser } := if_pos hgiven
    simp only [Bool.and_eq_true, Bool.or_eq_true, decide_eq_true_eq] at hgiven
    obtain ⟨hpub, hstatus⟩ := hgiven
    have hopen : r.status.isTerminal = false := by
      rcases hstatus with hs | hs <;> rw [hs] <;> rfl
    rw [hstored]
    refine ⟨rfl, hopen.symm, fun h => (nomatch h), fun u hu => .inr ?_⟩
    exact ⟨res, List.mem_singleton_self res, hid, hpub, Option.some.inj hu⟩
  · have hstored : stored r res.parameters = { r with
        planningParameters := some res.parameters } := if_neg hgiven
    rw [hstored]
    refine ⟨rfl, rfl, fun h => ⟨h, fun res' hres' _ => ?_⟩, fun u hu => .inl hu⟩
    have hready : r.status = .ready := h
    rw [List.mem_singleton.1 hres']
    simpa [hready] using hgiven

/-- A placement of another task does not change a record. -/
theorem stored_of_ne (hid : res.taskId ≠ r.taskId) : Stored [res] r r := by
  refine ⟨rfl, rfl, fun h => ⟨h, fun res' hres' he => ?_⟩, fun _ => .inl⟩
  rw [List.mem_singleton.1 hres'] at he
  exact absurd he hid

/-- Placements can be stored in two parts. -/
theorem Stored.trans {results' : List PlanningResult} (h : Stored results r r')
    (h' : Stored results' r' r'') : Stored (results ++ results') r r'' where
  taskId := h'.taskId.trans h.taskId
  terminal := h'.terminal.trans h.terminal
  ready hready := by
    obtain ⟨hready', hlater⟩ := h'.ready hready
    obtain ⟨hready, hbefore⟩ := h.ready hready'
    refine ⟨hready, fun res hres hid => ?_⟩
    rcases List.mem_append.1 hres with hres | hres
    · exact hbefore res hres hid
    · exact hlater res hres (hid.trans h.taskId.symm)
  holder u hu := by
    rcases h'.holder u hu with hu | ⟨res, hres, hid, hrest⟩
    · exact (h.holder u hu).imp_right fun ⟨res, hres, hrest⟩ =>
        ⟨res, List.mem_append_left _ hres, hrest⟩
    · exact .inr ⟨res, List.mem_append_right _ hres, hid.trans h.taskId, hrest⟩

/-- A record after the placements of a plan. -/
theorem storedBy_stored (results : List PlanningResult) (r : TaskRecord) :
    Stored results r (storedBy results r) := by
  induction results generalizing r with
  | nil => exact .refl r
  | cons res results ih =>
    have hone : Stored [res] r (if res.taskId = r.taskId then stored r res.parameters else r) := by
      split
      · next hid => exact stored_stored hid
      · next hid => exact stored_of_ne hid
    exact hone.trans (ih _)

end MemoryRuntime

/-! ## after publishing -/

namespace Assembly

open PublishPlan MemoryRuntime

variable {s : Solution} {p p₁ : PublishedTasks} {r r' : TaskRecord}

/-- A record settled before a plan has been stored is settled afterwards. -/
theorem settled_of_stored {lists : UserId → List TaskId} {window : Nat} {pin : Bool}
    (h : s.Chained lists) (hr : Settled s p r)
    (hheld : r.taskId ∈ p₁ → r.taskId ∈ p ∨ r.holder?.isSome = true)
    (hstored : Stored (ofSolution window pin s p₁).results r r') :
    Settled s (p₁.insertMany (ofSolution window pin s p₁).newlyPublished) r' := by
  obtain ⟨hready, hholder⟩ := (settled_iff h).1 hr
  rw [settled_iff h, hstored.taskId]
  constructor
  · intro hstatus
    obtain ⟨hstatus, hnone⟩ := hstored.ready hstatus
    obtain ⟨hreal, hpinned, hp⟩ := hready hstatus
    refine ⟨hreal, hpinned, fun hmem => ?_⟩
    rcases SortedSet.mem_insertMany.1 hmem with hnew | hp₁
    · obtain ⟨res, hres, hid, hpub⟩ := exists_of_mem_newlyPublished_ofSolution hnew
      rw [hnone res hres hid] at hpub
      cases hpub
    · rcases hheld hp₁ with hp₁ | hp₁
      · exact hp hp₁
      · rw [holder?_of_ready hstatus] at hp₁
        cases hp₁
  · intro u hu
    rcases hstored.holder u hu with hu | ⟨res, hres, hid, -, rfl⟩
    · exact hholder u hu
    · obtain ⟨hreal, huser, hmem, -⟩ := mem_results_ofSolution h hres
      rw [hid] at hreal hmem
      refine ⟨hreal, ?_, ?_⟩
      · exact containsTask_iff_standing.1 (containsTask_iff.2 (h.mem_tasks hmem))
      · rw [if_pos huser]
        exact h.assignedUser?_eq_some_iff.2 hmem

/-- After a comparison that asks for nothing, let a plan be made and stored in the runtime that the
records came from, and let the tasks that it publishes count as published.  Then a comparison with
the records of the runtime asks for nothing again, and adds nothing to the published tasks. -/
theorem resync_quiet_after_publishing (hs : s.Reachable) {runtime : MemoryRuntime}
    (hquiet : resync s runtime.tasks p = (.ok [], p₁)) (hworks : runtime.applyFailure = none)
    (window : Nat) (pin : Bool) (actingUser : String) :
    let plan := PublishPlan.ofSolution window pin s p₁
    let published := p₁.insertMany plan.newlyPublished
    ∃ runtime', runtime.finishApply ⟨plan.results, actingUser⟩ = (.ok (), runtime') ∧
      resync s runtime'.tasks published = (.ok [], published) := by
  intro plan published
  have h := hs.arranged.toChained
  obtain ⟨hsettled, hnamed, hpublished⟩ := (resync_eq_nil_iff h.keyed).1 hquiet
  -- each record of the runtime is a record from before with placements of its task stored
  have hstored : ∀ x r', firstRecord? (storeAll plan.results runtime.tasks) x = some r' →
      ∃ r, firstRecord? runtime.tasks x = some r ∧ Stored plan.results r r' := by
    intro x r' hr'
    rw [firstRecord?_storeAll] at hr'
    obtain ⟨r, hr, rfl⟩ := Option.map_eq_some_iff.1 hr'
    exact ⟨r, hr, storedBy_stored plan.results r⟩
  have hanswer : runtime.finishApply ⟨plan.results, actingUser⟩ = (.ok (), { runtime with
      tasks := storeAll plan.results runtime.tasks
      applies := runtime.applies ++ [⟨plan.results, actingUser⟩] }) := by
    rw [finishApply, hworks]
  refine ⟨_, hanswer, (resync_eq_nil_iff h.keyed).2 ⟨?_, ?_, ?_⟩⟩
  · intro x r' hr'
    obtain ⟨r, hr, hstored⟩ := hstored x r' hr'
    have hid := taskId_of_firstRecord? hr
    refine settled_of_stored h (hsettled x r hr) (fun hmem => ?_) hstored
    rcases (hpublished r.taskId).1 hmem with hp | ⟨r₁, hr₁, hholder⟩
    · exact .inl hp
    · rw [hid, hr, Option.some.injEq] at hr₁
      exact .inr (hr₁ ▸ hholder)
  · intro x hx hthere
    obtain ⟨r, hr, hopen⟩ := hnamed x hx hthere
    refine ⟨storedBy plan.results r, ?_, ?_⟩
    · rw [firstRecord?_storeAll, hr, Option.map_some]
    · rw [(storedBy_stored plan.results r).terminal, hopen]
  · -- whoever holds a task now held it before or has had it published
    intro x
    refine ⟨.inl, ?_⟩
    rintro (hmem | ⟨r', hr', hholder⟩)
    · exact hmem
    · obtain ⟨r, hr, hstored⟩ := hstored x r' hr'
      obtain ⟨u, hu⟩ := Option.isSome_iff_exists.1 hholder
      rw [SortedSet.mem_insertMany]
      rcases hstored.holder u hu with hu | ⟨res, hres, hid, hpub, -⟩
      · exact .inr ((hpublished x).2 (.inr ⟨r, hr, by rw [hu]; rfl⟩))
      · have hx : res.taskId = x := hid.trans (taskId_of_firstRecord? hr)
        rw [← hx]
        exact ((mem_results_ofSolution h hres).2.2.2 hpub).symm

/-- Of a chain of two tasks the first is worked on and the second is published; a third task is in
no chain. -/
theorem resync_quiet_after_publishing_second :
    let s := Operation.runAll callsForThree ∅
    let runtime := MemoryRuntime.ofTasks [recordOf 1 .inProgress (some ⟨"ann"⟩),
      recordOf 2 .ready none, recordOf 3 .ready none]
    let plan := PublishPlan.ofSolution 2 true s (.ofList [⟨1⟩])
    s.Reachable ∧ resync s runtime.tasks ∅ = (.ok [], .ofList [⟨1⟩]) ∧
      runtime.applyFailure = none ∧ plan.newlyPublished = [⟨2⟩] ∧
      ∃ runtime', runtime.finishApply ⟨plan.results, "planner"⟩ = (.ok (), runtime') ∧
        resync s runtime'.tasks (.ofList [⟨1⟩, ⟨2⟩]) = (.ok [], .ofList [⟨1⟩, ⟨2⟩]) := by
  intro s runtime plan
  have hreach : s.Reachable := ⟨callsForThree, rfl⟩
  have hquiet : resync s runtime.tasks ∅ = (.ok [], .ofList [⟨1⟩]) := by decide +kernel
  have hnew : plan.newlyPublished = [⟨2⟩] := by decide +kernel
  obtain ⟨runtime', hanswer, hagain⟩ :=
    resync_quiet_after_publishing hreach hquiet rfl 2 true "planner"
  have hpublished : (SortedSet.ofList [⟨1⟩]).insertMany plan.newlyPublished =
      (.ofList [⟨1⟩, ⟨2⟩] : PublishedTasks) := by rw [hnew]; rfl
  rw [hpublished] at hagain
  exact ⟨hreach, hquiet, rfl, hnew, runtime', hanswer, hagain⟩

end Assembly

end ChainPlanner
