import Mathlib.Data.List.Flatten
import ChainPlanner.Proofs.Publishing.Quiet

/-!
# ChainPlanner.Proofs.Publishing.Numbering

How a plan numbers the tasks.  Each task in a chain, other than the placeholder, has exactly one
placement, with the worker of the chain and the place of the task in it (`line`).  Filling up the
windows changes none of this, so the placements of a chain can be read back in order.
-/

namespace ChainPlanner.PublishPlan

open Solution

variable {s : Solution} {lists : UserId → List TaskId} {p : PublishedTasks} {pin : Bool}
  {room window : Nat} {rs : List PlanningResult} {r res : PlanningResult} {x : TaskId} {u : UserId}

/-- The tasks of a chain that a plan places. -/
def line (s : Solution) (u : UserId) : List TaskId := (s.chainIds u).filter (· ≠ .placeholder)

/-- Whether a plan reports a task as published for a worker. -/
def publishes (plan : PublishPlan) (u : UserId) (x : TaskId) : Bool :=
  plan.results.any fun res =>
    res.taskId = x && res.parameters.assignedUser = u && res.parameters.published

/-- When a plan reports a task as published for a worker. -/
theorem publishes_iff {plan : PublishPlan} : plan.publishes u x = true ↔
    ∃ res ∈ plan.results, res.taskId = x ∧ res.parameters.assignedUser = u ∧
      res.parameters.published = true := by
  simp [publishes, and_assoc]

/-- A plan places the tasks of a chain without the placeholder. -/
theorem mem_line_iff (h : s.Chained lists) : x ∈ line s u ↔ x ∈ lists u ∧ x ≠ .placeholder := by
  simp [line, h.chainIds_eq]

/-- No task is placed twice for a worker. -/
theorem nodup_line (h : s.Chained lists) (u : UserId) : (line s u).Nodup := by
  rw [line, h.chainIds_eq]
  exact (h.nodup u).filter _

/-- A plan places no more tasks of a chain than there are. -/
theorem length_line_le (s : Solution) (u : UserId) : (line s u).length ≤ (s.chain u).length := by
  have hle := List.length_filter_le (fun x => decide (x ≠ .placeholder)) (s.chainIds u)
  rwa [chainIds, List.length_map] at hle

/-- The placeholder does not matter for a choice that leaves it out. -/
theorem filter_line {q : TaskId → Bool} (hq : q .placeholder = false) :
    (line s u).filter q = (s.chainIds u).filter q := by
  rw [line, List.filter_filter]
  refine List.filter_congr fun x _ => ?_
  by_cases hx : x = .placeholder <;> simp [hx, hq]

/-! ## one worker -/

/-- Filling a window keeps the tasks and their order. -/
theorem map_taskId_fill (pin : Bool) (room : Nat) (rs : List PlanningResult) :
    (fill pin room rs).results.map (·.taskId) = rs.map (·.taskId) := by
  fun_induction fill pin room rs with
  | case1 => rfl
  | case2 room r rs hpublished plan ih => rw [List.map_cons, ih, List.map_cons]
  | case3 => rfl
  | case4 r rs hpublished room plan ih => rw [List.map_cons, ih, List.map_cons]; rfl

/-- Filling up a window publishes placements and does nothing else to them. -/
theorem mem_of_mem_fill (h : res ∈ (fill pin room rs).results) :
    ∃ r ∈ rs, res = r ∨ res = exposed pin r := by
  fun_induction fill pin room rs with
  | case1 => cases h
  | case2 room r rs hpublished plan ih =>
    rcases List.mem_cons.1 h with rfl | h
    · exact ⟨res, List.mem_cons_self, .inl rfl⟩
    · obtain ⟨r', hr', hres⟩ := ih h
      exact ⟨r', List.mem_cons_of_mem r hr', hres⟩
  | case3 r rs hpublished => exact ⟨res, h, .inl rfl⟩
  | case4 r rs hpublished room plan ih =>
    rcases List.mem_cons.1 h with rfl | h
    · exact ⟨r, List.mem_cons_self, .inr rfl⟩
    · obtain ⟨r', hr', hres⟩ := ih h
      exact ⟨r', List.mem_cons_of_mem r hr', hres⟩

/-- The tasks that a plan places for a worker, read off the chain. -/
theorem line_eq (s : Solution) (u : UserId) :
    line s u = ((s.chain u).filter fun t => !t.isPlaceholder).map (·.id) := by
  rw [line, chainIds, List.filter_map]
  congr 1
  refine List.filter_congr fun t _ => ?_
  simp [Task.isPlaceholder, TaskId.isPlaceholder]

/-- The placements for a worker are about the tasks of the chain, in order. -/
theorem map_taskId_placements (s : Solution) (p : PublishedTasks) (u : UserId) :
    (placements s p u).map (·.taskId) = line s u := by
  rw [placements, List.map_map, line_eq]
  conv_rhs => rw [← List.zipIdx_map_fst 0 ((s.chain u).filter fun t => !t.isPlaceholder)]
  rw [List.map_map]
  rfl

/-- A placement carries the place of its task. -/
theorem index_of_mem_placements (h : r ∈ placements s p u) :
    ∃ k, (line s u)[k]? = some r.taskId ∧ r.parameters = {
      assignedUser := u, index := .ofNat k, pinned := r.parameters.pinned,
      published := r.taskId ∈ p } := by
  rw [placements, List.mem_map] at h
  obtain ⟨⟨t, k⟩, hmem, rfl⟩ := h
  refine ⟨k, ?_, rfl⟩
  rw [line_eq, List.getElem?_map, List.mk_mem_zipIdx_iff_getElem?.1 hmem]
  rfl

/-! ## all workers -/

/-- A plan is about the tasks of all chains, worker by worker. -/
theorem map_taskId_results (window : Nat) (pin : Bool) (s : Solution) (p : PublishedTasks) :
    (ofSolution window pin s p).results.map (·.taskId) =
      s.users.values.flatMap fun w => line s w.id := by
  simp only [ofSolution, ofUser, List.flatMap_map, List.map_flatMap, map_taskId_fill,
    map_taskId_placements]

/-- A plan has one placement for each task. -/
theorem nodup_results (h : s.Chained lists) (window : Nat) (pin : Bool) (p : PublishedTasks) :
    ((ofSolution window pin s p).results.map (·.taskId)).Nodup := by
  have hkeys : s.users.values.map (·.id) = s.users.keys := h.keyed.map_id_users
  have hflat : (s.users.values.flatMap fun w => line s w.id) = s.users.keys.flatMap (line s) := by
    rw [← hkeys, List.flatMap_map]
  rw [map_taskId_results, hflat, List.nodup_flatMap]
  exact ⟨fun u _ => nodup_line h u, s.users.nodup_keys.imp fun huv x hu hv =>
    h.disjoint huv x ((mem_line_iff h).1 hu).1 ((mem_line_iff h).1 hv).1⟩

/-- A placement of a plan carries the worker and the place of its task, and it is published if the
task has been published before. -/
theorem index_of_mem_results (hres : res ∈ (ofSolution window pin s p).results) :
    ∃ k, (line s res.parameters.assignedUser)[k]? = some res.taskId ∧
      res.parameters.index = .ofNat k ∧
      (res.taskId ∈ p → res.parameters.published = true) := by
  simp only [ofSolution, List.mem_flatMap, List.mem_map] at hres
  obtain ⟨-, ⟨w, -, rfl⟩, hres⟩ := hres
  obtain ⟨r, hr, rfl | rfl⟩ := mem_of_mem_fill hres
  · obtain ⟨k, hk, hparameters⟩ := index_of_mem_placements hr
    rw [hparameters]
    exact ⟨k, hk, rfl, fun hp => decide_eq_true hp⟩
  · obtain ⟨k, hk, hparameters⟩ := index_of_mem_placements hr
    rw [exposed, hparameters]
    exact ⟨k, hk, rfl, fun _ => rfl⟩

/-- Every task in a chain but the placeholder has a placement, with the worker of the chain. -/
theorem exists_mem_results (h : s.Chained lists) (hx : x ∈ line s u) (window : Nat) (pin : Bool)
    (p : PublishedTasks) : ∃ res ∈ (ofSolution window pin s p).results,
      res.taskId = x ∧ res.parameters.assignedUser = u := by
  have hlist := ((mem_line_iff h).1 hx).1
  have hu : u ∈ s.users.values.map (·.id) := by
    rw [h.keyed.map_id_users]
    by_contra hno
    rw [h.list_of_absent (KeyedList.get?_eq_none_iff.2 hno)] at hlist
    cases hlist
  obtain ⟨w, hw, rfl⟩ := List.mem_map.1 hu
  have hmem : x ∈ (ofSolution window pin s p).results.map (·.taskId) := by
    rw [map_taskId_results, List.mem_flatMap]
    exact ⟨w, hw, hx⟩
  obtain ⟨res, hres, rfl⟩ := List.mem_map.1 hmem
  refine ⟨res, hres, rfl, ?_⟩
  exact h.eq_of_mem (mem_results_ofSolution h hres).2.2.1 hlist

/-! ## what is published for the first time -/

/-- Filling up a window publishes the first placements that are not published. -/
theorem newlyPublished_fill (pin : Bool) (room : Nat) (rs : List PlanningResult) :
    (fill pin room rs).newlyPublished =
      ((rs.filter fun r => !r.parameters.published).map (·.taskId)).take room := by
  fun_induction fill pin room rs with
  | case1 => simp
  | case2 room r rs hpublished plan ih => simpa [hpublished] using ih
  | case3 r rs hpublished => simp
  | case4 r rs hpublished room plan ih => simpa [hpublished] using ih

/-- Placements are published before if their tasks are. -/
theorem filter_placements (s : Solution) (p : PublishedTasks) (u : UserId) (q : Bool → Bool) :
    ((placements s p u).filter fun r => q r.parameters.published).map (·.taskId) =
      (line s u).filter fun x => q (x ∈ p) := by
  have hp : ∀ r ∈ placements s p u, q r.parameters.published = q (r.taskId ∈ p) := by
    intro r hr
    obtain ⟨k, -, hparameters⟩ := index_of_mem_placements hr
    rw [hparameters]
  rw [List.filter_congr hp, ← map_taskId_placements s p u, List.filter_map]
  rfl

/-- Of the tasks in a chain the first ones that are not published fill up the window. -/
theorem newlyPublished_ofUser (window : Nat) (pin : Bool) (s : Solution) (p : PublishedTasks)
    (u : UserId) : (ofUser window pin s p u).newlyPublished =
      ((line s u).filter (· ∉ p)).take (window - ((line s u).filter (· ∈ p)).length) := by
  have hold := filter_placements s p u id
  have hnew := filter_placements s p u not
  simp only [id, ← decide_not] at hold hnew
  rw [ofUser, newlyPublished_fill, hnew, ← hold, List.length_map]

/-- What a plan publishes anew comes in the order of its results, and was not published. -/
theorem newlyPublished_sublist (window : Nat) (pin : Bool) (s : Solution) (p : PublishedTasks) :
    (ofSolution window pin s p).newlyPublished.Sublist
      (((ofSolution window pin s p).results.map (·.taskId)).filter (· ∉ p)) := by
  rw [map_taskId_results, List.filter_flatMap]
  simp only [ofSolution, List.flatMap_map]
  refine List.Sublist.flatMap_right _ fun w _ => ?_
  rw [newlyPublished_ofUser]
  exact List.take_sublist _ _

/-- Times are nothing to a plan. -/
theorem newlyPublished_untimed (window : Nat) (pin : Bool) (s : Solution) (p : PublishedTasks) :
    (ofSolution window pin s.untimed p).newlyPublished =
      (ofSolution window pin s p).newlyPublished := by
  have hline : ∀ u, line s.untimed u = line s u := fun u => by
    rw [line, line, chainIds_untimed]
  simp only [ofSolution, List.flatMap_map, newlyPublished_ofUser, hline]
  rfl

/-- A plan publishes each task for the first time once, and no task that was published before. -/
theorem nodup_newlyPublished (h : s.Chained lists) (window : Nat) (pin : Bool)
    (p : PublishedTasks) : (ofSolution window pin s p).newlyPublished.Nodup :=
  ((nodup_results h window pin p).filter _).sublist (newlyPublished_sublist window pin s p)

/-- What a plan publishes anew was not published. -/
theorem not_mem_of_mem_newlyPublished (hx : x ∈ (ofSolution window pin s p).newlyPublished) :
    x ∉ p := by
  simpa using (List.mem_filter.1 ((newlyPublished_sublist window pin s p).subset hx)).2

/-- No plan publishes the placeholder. -/
theorem ne_placeholder_of_mem_newlyPublished (h : s.Chained lists)
    (hx : x ∈ (ofSolution window pin s p).newlyPublished) : x ≠ .placeholder := by
  obtain ⟨res, hres, rfl⟩ := List.mem_map.1
    (List.mem_filter.1 ((newlyPublished_sublist window pin s p).subset hx)).1
  exact (mem_results_ofSolution h hres).1

/-- A placement is published exactly if its task was published before or is published now. -/
theorem published_iff_of_mem_results (h : s.Chained lists)
    (hres : res ∈ (ofSolution window pin s p).results) : res.parameters.published = true ↔
      res.taskId ∈ p ∨ res.taskId ∈ (ofSolution window pin s p).newlyPublished := by
  refine ⟨(mem_results_ofSolution h hres).2.2.2, ?_⟩
  rintro (hp | hnew)
  · obtain ⟨-, -, -, hpublished⟩ := index_of_mem_results hres
    exact hpublished hp
  · obtain ⟨res', hres', hid, hpublished⟩ := exists_of_mem_newlyPublished_ofSolution hnew
    have hsame : res' = res :=
      List.inj_on_of_nodup_map (nodup_results h window pin p) hres' hres hid
    rwa [hsame] at hpublished

end ChainPlanner.PublishPlan
