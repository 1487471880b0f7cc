import ChainPlanner.Proofs.Chain.Reachable
import ChainPlanner.Proofs.Publishing.Numbering

/-!
# ChainPlanner.Proofs.Publishing.Window

What a plan says, placement by placement.

Filling up a window goes along the chain once and publishes what it meets as long as there is room.
Since no task stands in a chain twice, the outcome can be said without the order of the steps: the
placements of the tasks that are published for the first time are changed, and all others stay
(`results_fill`).  So the part of a plan that is about one worker is determined by the chain, the
published tasks and the size of the window (`Reports`).
-/

namespace ChainPlanner.PublishPlan

open Solution

variable {s : Solution} {lists : UserId → List TaskId} {p : PublishedTasks} {pin : Bool}
  {room window : Nat} {rs : List PlanningResult} {r res : PlanningResult} {x : TaskId} {u : UserId}

/-- The tasks of a chain that fill up the window of its worker: the first that are not published,
as many as the published ones leave room for. -/
def filling (window : Nat) (s : Solution) (p : PublishedTasks) (u : UserId) : List TaskId :=
  ((line s u).filter (· ∉ p)).take (window - ((line s u).filter (· ∈ p)).length)

/-- What a plan reports about a worker. -/
structure Reports (window : Nat) (pin : Bool) (s : Solution) (p : PublishedTasks) (u : UserId)
    (results : List PlanningResult) : Prop where
  /-- One placement for each task in the chain but the placeholder, in the order of the chain. -/
  tasks : results.map (·.taskId) = line s u
  index : results.map (·.parameters.index.toInt) = (List.range (line s u).length).map Int.ofNat
  user : ∀ res ∈ results, res.parameters.assignedUser = u
  published : ∀ res ∈ results,
    (res.parameters.published = true ↔ res.taskId ∈ p ∨ res.taskId ∈ filling window s p u)
  count : (results.filter (·.parameters.published)).length =
    max ((line s u).filter (· ∈ p)).length (min window (line s u).length)
  /-- The rest of a placement is the task's own, but that pinning may come with publishing. -/
  task : ∀ res ∈ results, ∃ t, s.task? res.taskId = some t ∧ res.containerId = t.containerId ∧
    res.processInstanceId = t.processInstanceId ∧
    res.parameters.pinned = (t.pinned || (pin && decide (res.taskId ∈ filling window s p u)))

/-! ## filling up -/

/-- Filling a window publishes placements that were not published. -/
theorem mem_of_mem_newlyPublished_fill (hx : x ∈ (fill pin room rs).newlyPublished) :
    ∃ r ∈ rs, r.taskId = x ∧ r.parameters.published = false := by
  rw [newlyPublished_fill] at hx
  obtain ⟨r, hr, rfl⟩ := List.mem_map.1 (List.take_subset _ _ hx)
  exact ⟨r, (List.mem_filter.1 hr).1, rfl, by simpa using (List.mem_filter.1 hr).2⟩

/-- Filling up a window changes the placements of the tasks that it publishes. -/
theorem results_fill (hnd : (rs.map (·.taskId)).Nodup) : (fill pin room rs).results =
    rs.map fun r => if r.taskId ∈ (fill pin room rs).newlyPublished then exposed pin r else r := by
  fun_induction fill pin room rs with
  | case1 => rfl
  | case2 room r rs hpublished plan ih =>
    obtain ⟨hhead, htail⟩ := List.nodup_cons.1 hnd
    have hno : r.taskId ∉ plan.newlyPublished := by
      intro hmem
      obtain ⟨r', hr', hid, -⟩ := mem_of_mem_newlyPublished_fill hmem
      exact hhead (List.mem_map.2 ⟨r', hr', hid⟩)
    rw [List.map_cons, if_neg hno, ih htail]
  | case3 r rs hpublished => simp
  | case4 r rs hpublished room plan ih =>
    obtain ⟨hhead, htail⟩ := List.nodup_cons.1 hnd
    have htails : ∀ r' ∈ rs, (if r'.taskId ∈ plan.newlyPublished then exposed pin r' else r') =
        if r'.taskId ∈ r.taskId :: plan.newlyPublished then exposed pin r' else r' := by
      intro r' hr'
      have hne : r'.taskId ≠ r.taskId := fun he => hhead (List.mem_map.2 ⟨r', hr', he⟩)
      simp [hne]
    rw [List.map_cons, if_pos List.mem_cons_self, ih htail, List.map_congr_left htails]

/-- What is published anew for a worker fills up its window. -/
theorem newlyPublished_ofUser_eq (window : Nat) (pin : Bool) (s : Solution) (p : PublishedTasks)
    (u : UserId) : (ofUser window pin s p u).newlyPublished = filling window s p u :=
  newlyPublished_ofUser window pin s p u

/-- The placements for a worker, with those that fill up the window exposed. -/
theorem results_ofUser (hnd : (line s u).Nodup) (window : Nat) (pin : Bool)
    (p : PublishedTasks) : (ofUser window pin s p u).results =
      (placements s p u).map fun r =>
        if r.taskId ∈ filling window s p u then exposed pin r else r := by
  rw [← newlyPublished_ofUser_eq window pin, ofUser, results_fill]
  rwa [map_taskId_placements]

/-! ## one placement -/

/-- A placement says of a task of the chain which position it has. -/
theorem exists_placement_of_mem (h : r ∈ placements s p u) :
    ∃ t ∈ s.chain u, ∃ k, r = placement p u t k := by
  rw [placements, List.mem_map] at h
  obtain ⟨⟨t, k⟩, hmem, rfl⟩ := h
  have ht := (List.mem_zipIdx hmem).2.2 ▸ List.getElem_mem _
  exact ⟨t, (List.mem_filter.1 ht).1, k, rfl⟩

/-- Positions are counted along the chain, without the placeholder. -/
theorem map_index_placements (s : Solution) (p : PublishedTasks) (u : UserId) :
    (placements s p u).map (·.parameters.index) =
      (List.range (line s u).length).map Int32.ofNat := by
  rw [placements, List.map_map, line_eq, List.length_map, List.range_eq_range',
    ← List.zipIdx_map_snd, List.map_map]
  rfl

/-- Positions below the limit of 31 bits are written as they are. -/
theorem toInt_ofNat_of_mem_range {n k : Nat} (hn : n < 2 ^ 31) (hk : k ∈ List.range n) :
    (Int32.ofNat k).toInt = Int.ofNat k :=
  Int32.toInt_ofNat_of_lt (Nat.lt_trans (List.mem_range.1 hk) hn)

/-! ## counting -/

/-- Published are those that were before, and of the others as many as the window lets in. -/
theorem length_filter_published (hnd : (line s u).Nodup) (window : Nat) (p : PublishedTasks) :
    ((line s u).filter fun x => x ∈ p ∨ x ∈ filling window s p u).length =
      max ((line s u).filter (· ∈ p)).length (min window (line s u).length) := by
  have hold : ((line s u).filter fun x => x ∈ p ∨ x ∈ filling window s p u).filter (· ∈ p) =
      (line s u).filter (· ∈ p) := by
    rw [List.filter_filter]
    exact List.filter_congr fun x _ => by by_cases hx : x ∈ p <;> simp [hx]
  have hnew : ((line s u).filter fun x => x ∈ p ∨ x ∈ filling window s p u).filter
      (fun x => !decide (x ∈ p)) = filling window s p u := by
    rw [filling, (hnd.filter _).take_eq_filter_mem, ← filling, List.filter_filter,
      List.filter_filter]
    exact List.filter_congr fun x hline => by by_cases hx : x ∈ p <;> simp [hx, hline]
  have htotal := (line s u).length_eq_length_filter_add (· ∈ p)
  rw [List.length_eq_length_filter_add (· ∈ p), hold, hnew, filling, List.length_take]
  simp only [decide_not] at htotal ⊢
  omega

/-! ## one worker -/

/-- What a plan reports about a worker. -/
theorem reports_ofUser (h : s.Chained lists) (hshort : (s.chain u).length < 2 ^ 31) (window : Nat)
    (pin : Bool) (p : PublishedTasks) :
    Reports window pin s p u (ofUser window pin s p u).results := by
  have hnd := nodup_line h u
  have hresults := results_ofUser hnd window pin p
  -- publishing changes neither the task, nor the worker, nor the place of a placement
  have hkept : ∀ {β : Type} (f : PlanningResult → β), (∀ r, f (exposed pin r) = f r) →
      (ofUser window pin s p u).results.map f = (placements s p u).map f := by
    intro β f hf
    rw [hresults, List.map_map]
    refine List.map_congr_left fun r _ => ?_
    simp only [Function.comp_apply]
    split
    · exact hf r
    · rfl
  have htasks : (ofUser window pin s p u).results.map (·.taskId) = line s u := by
    rw [hkept _ fun _ => rfl, map_taskId_placements]
  have hplaced : ∀ res ∈ (ofUser window pin s p u).results, ∃ t, s.task? t.id = some t ∧ ∃ k,
      res = if t.id ∈ filling window s p u then exposed pin (placement p u t k)
        else placement p u t k := by
    intro res hres
    rw [hresults] at hres
    obtain ⟨r, hr, rfl⟩ := List.mem_map.1 hres
    obtain ⟨t, ht, k, rfl⟩ := exists_placement_of_mem hr
    exact ⟨t, (h.mem_chain_iff.1 ht).1, k, rfl⟩
  have hpublished : ∀ res ∈ (ofUser window pin s p u).results,
      (res.parameters.published = true ↔ res.taskId ∈ p ∨ res.taskId ∈ filling window s p u) := by
    intro res hres
    obtain ⟨t, -, k, rfl⟩ := hplaced res hres
    split <;> simp_all [exposed, placement]
  refine ⟨htasks, ?_, fun res hres => ?_, hpublished, ?_, fun res hres => ?_⟩
  · have hindex := hkept (·.parameters.index) fun _ => rfl
    rw [map_index_placements] at hindex
    have hlength := Nat.lt_of_le_of_lt (length_line_le s u) hshort
    calc (ofUser window pin s p u).results.map (·.parameters.index.toInt)
        = ((ofUser window pin s p u).results.map (·.parameters.index)).map Int32.toInt := by
          rw [List.map_map]; rfl
      _ = (List.range (line s u).length).map Int.ofNat := by
          rw [hindex, List.map_map]
          exact List.map_congr_left fun k hk => toInt_ofNat_of_mem_range hlength hk
  · obtain ⟨t, -, k, rfl⟩ := hplaced res hres
    split <;> rfl
  · rw [← length_filter_published hnd, ← htasks, List.filter_map, List.length_map]
    congr 1
    exact List.filter_congr fun res hres => by
      rw [Bool.eq_iff_iff, hpublished res hres]
      simp
  · obtain ⟨t, ht, k, rfl⟩ := hplaced res hres
    by_cases hnew : t.id ∈ filling window s p u
    · simp [hnew, exposed, placement, ht, Bool.or_comm]
    · simp [hnew, placement, ht]

/-! ## all workers -/

/-- A plan places every task in a chain but the placeholder, and nothing else. -/
theorem mem_results_iff (h : s.Chained lists) (window : Nat) (pin : Bool) (p : PublishedTasks) :
    x ∈ (ofSolution window pin s p).results.map (·.taskId) ↔
      x ≠ .placeholder ∧ (s.assignedUser? x).isSome = true := by
  rw [Option.isSome_iff_exists]
  constructor
  · intro hx
    obtain ⟨res, hres, rfl⟩ := List.mem_map.1 hx
    obtain ⟨hreal, -, hlist, -⟩ := mem_results_ofSolution h hres
    exact ⟨hreal, _, h.assignedUser?_eq_some_iff.2 hlist⟩
  · rintro ⟨hreal, u, hu⟩
    have hline : x ∈ line s u := (mem_line_iff h).2 ⟨h.assignedUser?_eq_some_iff.1 hu, hreal⟩
    obtain ⟨res, hres, hid, -⟩ := exists_mem_results h hline window pin p
    exact List.mem_map.2 ⟨res, hres, hid⟩

/-- Let no chain of a solution be too long to be numbered.  A plan goes through the workers in
stored order.  For each one it has a placement for each task in the chain but the placeholder, in
the order of the chain and numbered from zero.  Of these, the tasks that were published before are
published, and the first of the others that fit into the window; pinned are the tasks that are
pinned, and, if so set, those that the plan publishes for the first time.  So every task in a chain
but the placeholder has exactly one placement, and nothing else has any. -/
theorem windows_filled (hs : s.Reachable) (hshort : ∀ u, (s.chain u).length < 2 ^ 31)
    (window : Nat) (pin : Bool) (p : PublishedTasks) :
    let plan := ofSolution window pin s p
    (∃ part : User → List PlanningResult, plan.results = s.users.values.flatMap part ∧
      ∀ w ∈ s.users.values, Reports window pin s p w.id (part w)) ∧
    plan.newlyPublished = s.users.values.flatMap (fun w => filling window s p w.id) ∧
    ∀ x, (plan.results.map (·.taskId)).count x =
      if x ≠ .placeholder ∧ (s.assignedUser? x).isSome = true then 1 else 0 := by
  intro plan
  have h := hs.arranged.toChained
  refine ⟨⟨fun w => (ofUser window pin s p w.id).results, ?_, fun w _ => ?_⟩, ?_, fun x => ?_⟩
  · exact List.flatMap_map ..
  · exact reports_ofUser h (hshort w.id) window pin p
  · simp only [plan, ofSolution, List.flatMap_map, newlyPublished_ofUser_eq]
  · have hnd := nodup_results h window pin p
    split
    · next hplaced =>
      exact List.count_eq_one_of_mem hnd ((mem_results_iff h window pin p).2 hplaced)
    · next hno => exact List.count_eq_zero.2 fun hx => hno ((mem_results_iff h window pin p).1 hx)

/-- Calls that leave the fallback user with the placeholder and four tasks and another worker with
one task. -/
def callsForFive : List Operation :=
  let task (n : Int64) : Task := .ofId ⟨n⟩ "" .lowest
  [.addUser .fallback, .addUser (.ofId ⟨"ann"⟩), .addTask .placeholder,
    .linkAfter (.user .fallback) .placeholder, .addTask (task 1), .addTask (task 2),
    .addTask (task 3), .addTask (task 4), .addTask (task 5), .linkAfter (.task .placeholder) ⟨1⟩,
    .linkAfter (.task ⟨1⟩) ⟨2⟩, .linkAfter (.task ⟨2⟩) ⟨3⟩, .linkAfter (.task ⟨3⟩) ⟨4⟩,
    .linkAfter (.user ⟨"ann"⟩) ⟨5⟩]

/-- The third of four tasks has been published, so that a window of two has room for one more. -/
theorem windows_filled_of_five :
    let s := Operation.runAll callsForFive ∅
    let plan := ofSolution 2 true s (.ofList [⟨3⟩])
    s.Reachable ∧ (∀ u, (s.chain u).length < 2 ^ 31) ∧ plan.newlyPublished = [⟨1⟩, ⟨5⟩] ∧
      (∃ part : User → List PlanningResult, plan.results = s.users.values.flatMap part ∧
        ∀ w ∈ s.users.values, Reports 2 true s (.ofList [⟨3⟩]) w.id (part w)) ∧
      (plan.results.map (·.taskId)).count ⟨4⟩ = 1 ∧
      (plan.results.map (·.taskId)).count .placeholder = 0 := by
  intro s plan
  have hreach : s.Reachable := ⟨callsForFive, rfl⟩
  have hshort : ∀ u, (s.chain u).length < 2 ^ 31 := by
    intro u
    have hlength : (s.chainIds u).length ≤ s.tasks.size := hreach.arranged.length_le u
    rw [chainIds, List.length_map] at hlength
    have hsize : s.tasks.size = 6 := by decide +kernel
    omega
  obtain ⟨hparts, hnew, hcount⟩ := windows_filled hreach hshort 2 true (.ofList [⟨3⟩])
  refine ⟨hreach, hshort, hnew.trans (by decide +kernel), hparts, ?_, ?_⟩
  · rw [hcount, if_pos (by decide +kernel)]
  · rw [hcount, if_neg (by decide +kernel)]

end ChainPlanner.PublishPlan
