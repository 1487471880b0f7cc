import ChainPlanner.Proofs.Build.Draft
import ChainPlanner.Proofs.Build.Seats

/-!
# ChainPlanner.Proofs.Build.Built

What a build makes of records and a directory.  `Built` says it of every worker's chain and of every
task: a task that a known worker holds is in that worker's chain, behind the placeholder in the
chain of the fallback user, and the others are in no chain.

`built_of_build` is the description, `exists_build_iff` says when there is something to describe.
-/

namespace ChainPlanner.Assembly

open Solution Draft

variable {s : Solution} {lists : UserId → List TaskId} {d : Draft} {u : UserId} {x : TaskId}
  {users : List UserId} {p : PublishedTasks} {records : List TaskRecord}
  {directory : List DirectoryUser} {r : TaskRecord}

/-! ## the workers -/

/-- A new worker goes to the end, a known one stays in its place. -/
theorem keys_addUser (s : Solution) (w : User) : (s.addUser w).users.keys =
    if w.id ∈ s.users.keys then s.users.keys else s.users.keys ++ [w.id] := by
  have hcontains : s.containsUser w.id = true ↔ w.id ∈ s.users.keys := KeyedList.contains_iff
  rw [addUser]
  simp only [hcontains]
  split
  · exact KeyedList.keys_modify s.users w.id _
  · next hno => rw [KeyedList.keys_insert, if_neg hno]

/-- Adding workers changes neither the chains nor the tasks. -/
theorem foldl_addUser (us : List User) (h : s.Arranged lists) :
    (us.foldl addUser s).Arranged lists ∧ (us.foldl addUser s).tasks = s.tasks ∧
      ∀ u, u ∈ (us.foldl addUser s).users.keys ↔ u ∈ s.users.keys ∨ ∃ w ∈ us, w.id = u := by
  induction us generalizing s with
  | nil => exact ⟨h, rfl, by simp⟩
  | cons w us ih =>
    obtain ⟨harr, htasks, hkeys⟩ := ih (h.addUser w)
    refine ⟨harr, htasks.trans (tasks_addUser s w), fun u => ?_⟩
    rw [List.foldl_cons, hkeys, keys_addUser]
    by_cases hw : w.id ∈ s.users.keys
    · rw [if_pos hw]
      simp only [List.mem_cons, exists_eq_or_imp]
      refine or_congr_right' fun hno => ?_
      rw [or_iff_right]
      rintro rfl
      exact hno hw
    · simp [hw, or_assoc, eq_comm]

/-- The workers of a build are those of the directory and the fallback user. -/
theorem workers_eq (directory : List DirectoryUser) : workers directory =
    (directory.map DirectoryUser.toUser ++ [User.fallback]).foldl addUser ∅ := by
  rw [List.foldl_append]
  rfl

/-- Before any task is added every chain is empty. -/
theorem arranged_workers (directory : List DirectoryUser) :
    (workers directory).Arranged fun _ => [] := by
  rw [workers_eq]
  exact (foldl_addUser _ arranged_empty).1

/-- Before any task is added there is none. -/
theorem task?_workers (directory : List DirectoryUser) (x : TaskId) :
    (workers directory).task? x = none := by
  rw [workers_eq, task?, (foldl_addUser _ arranged_empty).2.1]
  rfl

/-- The workers of a build are the fallback user and those that the directory lists. -/
theorem mem_workers : u ∈ (workers directory).users.keys ↔
    u = .fallback ∨ ∃ w ∈ directory, w.id = u := by
  have hnone : ∀ u : UserId, u ∉ (∅ : Solution).users.keys := fun _ => List.not_mem_nil
  rw [workers_eq, (foldl_addUser _ arranged_empty).2.2]
  simp only [hnone, false_or, List.mem_append, List.mem_map, List.mem_singleton]
  constructor
  · rintro ⟨w, ⟨w', hw', rfl⟩ | rfl, rfl⟩
    · exact .inr ⟨w', hw', rfl⟩
    · exact .inl rfl
  · rintro (rfl | ⟨w, hw, rfl⟩)
    · exact ⟨.fallback, .inr rfl, rfl⟩
    · exact ⟨w.toUser, .inl ⟨w, hw, rfl⟩, rfl⟩

/-! ## the seats -/

/-- A slot of a worker is seated with that worker. -/
theorem Draft.Gathers.mem_seating_of_slot (h : Gathers users p records d) (hu : u ∈ users)
    {slot : Slot} (hslot : slot ∈ records.filterMap (slot? u)) :
    ⟨slot.seated, some u⟩ ∈ d.seating := by
  refine List.mem_cons_of_mem _ (List.mem_append_left _ ?_)
  rw [h.chains, List.flatMap_map, List.mem_flatMap]
  exact ⟨u, hu, List.mem_map_of_mem ((inOrder_perm _).mem_iff.2 hslot)⟩

/-- A task that belongs in no chain is seated with nobody. -/
theorem Draft.Gathers.mem_seating_of_loose {t : Task} (h : Gathers users p records d)
    (hr : r ∈ records) (ht : loose? users r = some t) : ⟨t, none⟩ ∈ d.seating := by
  have hmem : t ∈ d.unassigned := h.unassigned ▸ List.mem_filterMap.2 ⟨r, hr, ht⟩
  exact List.mem_cons_of_mem _ (List.mem_append_right _ (List.mem_map_of_mem hmem))

/-- Tasks are only seated with the fallback user and the workers of the draft. -/
theorem Draft.Gathers.user_of_mem_seating {seat : Seat} (h : Gathers users p records d)
    (hseat : seat ∈ d.seating) (hu : seat.user = some u) : u = .fallback ∨ u ∈ users := by
  rcases List.mem_cons.1 hseat with rfl | hseat
  · exact .inl (Option.some.inj hu).symm
  rw [List.mem_append, List.mem_flatMap, List.mem_map] at hseat
  rcases hseat with ⟨e, he, hslot⟩ | ⟨t, -, rfl⟩
  · rw [h.chains, List.mem_map] at he
    obtain ⟨v, hv, rfl⟩ := he
    obtain ⟨slot, -, rfl⟩ := List.mem_map.1 hslot
    cases hu
    exact .inr hv
  · cases hu

/-- The tasks seated with a worker, in order: the placeholder first for the fallback user, and then
the slots as they are sorted. -/
theorem Draft.Gathers.map_filter_seating (h : Gathers users p records d) (hnd : users.Nodup)
    (u : UserId) : (d.seating.filter (·.user = some u)).map (·.task.id) =
      (if u = .fallback then [.placeholder] else []) ++
        if u ∈ users then (inOrder (records.filterMap (slot? u))).map (·.task.id) else [] := by
  have hslots : ∀ v, (((inOrder (records.filterMap (slot? v))).map fun slot =>
      (⟨slot.seated, some v⟩ : Seat)).filter (·.user = some u)).map (·.task.id) =
      if v = u then (inOrder (records.filterMap (slot? u))).map (·.task.id) else [] := by
    intro v
    by_cases hv : v = u
    · subst hv
      rw [List.filter_eq_self.2 (by simp), List.map_map, if_pos rfl]
      rfl
    · simp [hv]
  have hflat := flatMap_ite_eq hnd u ((inOrder (records.filterMap (slot? u))).map (·.task.id))
  have hnone : (d.unassigned.map fun t => (⟨t, none⟩ : Seat)).filter (·.user = some u) = [] := by
    simp
  rw [← hflat, Draft.seating, List.filter_cons, List.filter_append, hnone, List.append_nil,
    List.filter_flatMap, h.chains, List.flatMap_map]
  by_cases hu : u = .fallback
  · subst hu
    rw [if_pos (by simp), if_pos rfl, List.map_cons, List.map_flatMap]
    simp only [hslots]
    rfl
  · rw [if_neg (by simpa using Ne.symm hu), if_neg hu, List.map_flatMap]
    simp only [hslots]
    rfl

/-- The placeholder and each planned task are seated once. -/
theorem Draft.Gathers.perm_seating (h : Gathers users p records d) (hnd : users.Nodup) :
    (d.seating.map (·.task.id)).Perm
      (.placeholder :: (records.filter (·.planned)).map (·.taskId)) := by
  have hids : (d.seating.map (·.task.id)).Perm (.placeholder :: ids users records) := by
    rw [Draft.seating, h.chains, h.unassigned, List.map_cons, List.map_append, List.map_flatMap,
      List.flatMap_map, List.map_map]
    refine ((List.Perm.flatMap_left users fun v _ => ?_).append_right _).cons _
    rw [List.map_map]
    exact (inOrder_perm _).map _
  exact hids.trans ((perm_ids hnd h.readable).cons _)

/-! ## the solution -/

/-- What a build makes of records and a directory. -/
structure Built (records : List TaskRecord) (directory : List DirectoryUser) (s : Solution) :
    Prop where
  arranged : s.Arranged s.chainIds
  users : ∀ u, s.containsUser u = true ↔ u = .fallback ∨ ∃ w ∈ directory, w.id = u
  readable : ∀ r ∈ records, r.planned = true → ∃ t, r.task? = .ok t
  nodup : (.placeholder :: (records.filter (·.planned)).map (·.taskId)).Nodup
  chains : ∀ u, s.chainIds u = (if u = .fallback then [.placeholder] else []) ++
    if s.containsUser u then (inOrder (records.filterMap (slot? u))).map (·.task.id) else []
  placeholder : s.standing .placeholder = ⟨some true, some .fallback⟩
  ready : ∀ r ∈ records, r.status = .ready → s.standing r.taskId = ⟨some false, none⟩
  held : ∀ r ∈ records, ∀ u, r.holder? = some u → s.standing r.taskId =
    if s.containsUser u then ⟨some (standing r u).2.1, some u⟩ else ⟨some false, none⟩
  absent : ∀ x, x ≠ .placeholder → (∀ r ∈ records, r.planned = true → r.taskId ≠ x) →
    s.standing x = ⟨none, none⟩

/-- The solution of what records add up to. -/
theorem built_of_solution? (h : Gathers (workers directory).users.keys p records d)
    (hs : d.solution? (workers directory) = .ok s) : Built records directory s := by
  have hstart := arranged_workers directory
  have hnd := (workers directory).users.nodup_keys
  rw [d.solution?_eq (hstart.chainTail_eq .fallback)] at hs
  have hall := allSeated_of_foldlM hstart hs
  have hperm := h.perm_seating hnd
  have huser : ∀ u, s.containsUser u = true ↔ u ∈ (workers directory).users.keys := fun u => by
    rw [containsUser_of_keys hall.users]
    exact KeyedList.contains_iff
  -- ready tasks and those of strangers are seated alike
  have hloose : ∀ r ∈ records, ∀ t, r.task? = .ok t →
      loose? (workers directory).users.keys r = some t →
      s.standing r.taskId = ⟨some false, none⟩ := by
    intro r hr t ht hsome
    rw [← taskId_of_task? ht, ← pinned_of_task? ht]
    exact hall.own _ (h.mem_seating_of_loose hr hsome)
  exact {
    arranged := hall.arranged
    users := fun u => (huser u).trans mem_workers
    readable := h.readable
    nodup := hperm.nodup_iff.1 hall.nodup
    chains := by
      intro u
      rw [hall.chains, hstart.chainIds_eq, h.map_filter_seating hnd, List.nil_append]
      simp only [huser]
    placeholder := hall.own _ List.mem_cons_self
    ready := by
      intro r hr hready
      obtain ⟨t, ht⟩ := h.readable r hr (by simp [TaskRecord.planned, hready])
      exact hloose r hr t ht (loose?_of_ready hready ht)
    held := by
      intro r hr u hholder
      obtain ⟨t, ht⟩ := h.readable r hr (by simp [TaskRecord.planned, hholder])
      simp only [huser]
      split
      · next hu =>
        have hslot := List.mem_filterMap.2 ⟨r, hr, slot?_of_holder? hholder ht⟩
        rw [← taskId_of_task? ht]
        exact hall.own _ (h.mem_seating_of_slot hu hslot)
      · next hu => exact hloose r hr t ht (loose?_of_unknown hholder hu ht)
    absent := by
      intro x hx hno
      rw [hall.other, hstart.standing_of_absent (task?_workers directory x)]
      rw [hperm.mem_iff, List.mem_cons, List.mem_map]
      rintro (he | ⟨r, hr, rfl⟩)
      · exact hx he
      · obtain ⟨hr, hplanned⟩ := List.mem_filter.1 hr
        exact hno r hr hplanned rfl }

/-- A task that is there is the placeholder, or there is a record of it. -/
theorem Built.exists_record (h : Built records directory s) {x : TaskId}
    (hx : (s.standing x).pinned ≠ none) :
    x = .placeholder ∨ ∃ r ∈ records, r.planned = true ∧ r.taskId = x := by
  by_contra hno
  rw [not_or] at hno
  refine hx (congrArg Standing.pinned (h.absent x hno.1 fun r hr hplanned he => ?_))
  exact hno.2 ⟨r, hr, hplanned, he⟩

/-- A slot that has been filled. -/
theorem Built.standing_slot (h : Built records directory s) (hu : s.containsUser u = true)
    {slot : Slot} (hslot : slot ∈ records.filterMap (slot? u)) :
    s.standing slot.task.id = ⟨some slot.pinned, some u⟩ := by
  obtain ⟨r, hr, hsome⟩ := List.mem_filterMap.1 hslot
  obtain ⟨hholder, t, ht, rfl⟩ := slot?_eq_some_iff.1 hsome
  have hstanding := h.held r hr u hholder
  rwa [if_pos hu, ← taskId_of_task? ht] at hstanding

/-- No task has two slots with a worker. -/
theorem Built.nodup_slots (h : Built records directory s) (hu : s.containsUser u = true) :
    ((records.filterMap (slot? u)).map (·.task.id)).Nodup := by
  have hnd := h.arranged.nodup u
  rw [h.chains, if_pos hu] at hnd
  exact ((inOrder_perm _).map _).nodup_iff.1 (List.nodup_append.1 hnd).2.1

/-! ## the build -/

/-- A build begins with nothing gathered. -/
theorem gathers_build (directory : List DirectoryUser) (p : PublishedTasks) :
    Gathers (workers directory).users.keys p [] (Draft.start (workers directory) p) :=
  gathers_start (arranged_workers directory).keyed p

/-- If every record can be read, a build seats what the draft has gathered. -/
theorem build_of_addAll_ok
    (h : (Draft.start (workers directory) p).addAll records = (d, .ok ())) :
    build records directory p =
      ((d.solution? (workers directory)).mapError .chain, d.published) := by
  rw [build, h]

/-- A record that cannot be read fails the build, which keeps the marks made until then. -/
theorem build_of_addAll_error {e : AssemblyError}
    (h : (Draft.start (workers directory) p).addAll records = (d, .error e)) :
    build records directory p = (.error e, d.published) := by
  rw [build, h]

/-- Changing the error of an answer does not change when it is a success. -/
theorem mapError_eq_ok_iff {ε ε' α : Type} {e : Except ε α} {f : ε → ε'} {a : α} :
    e.mapError f = .ok a ↔ e = .ok a := by
  cases e <;> simp [Except.mapError]

/-- What a build that succeeds returns, and the published tasks after it. -/
theorem built_of_build (h : (build records directory p).1 = .ok s) :
    Built records directory s ∧ ∀ x, x ∈ (build records directory p).2 ↔
      x ∈ p ∨ ∃ r ∈ records, r.taskId = x ∧ Exposed r := by
  cases hadd : (Draft.start (workers directory) p).addAll records with
  | mk d answer =>
    cases answer with
    | error e =>
      rw [build_of_addAll_error hadd] at h
      cases h
    | ok _ =>
      rw [build_of_addAll_ok hadd] at h ⊢
      have hgathers := (gathers_build directory p).addAll hadd
      exact ⟨built_of_solution? hgathers (mapError_eq_ok_iff.1 h), hgathers.published⟩

/-- A build succeeds exactly if the tasks of the records that are ready or held can be read, and are
different from each other and from the placeholder. -/
theorem exists_build_iff (records : List TaskRecord) (directory : List DirectoryUser)
    (p : PublishedTasks) : (∃ s, (build records directory p).1 = .ok s) ↔
      (∀ r ∈ records, r.planned = true → ∃ t, r.task? = .ok t) ∧
        (.placeholder :: (records.filter (·.planned)).map (·.taskId)).Nodup := by
  constructor
  · rintro ⟨s, hs⟩
    exact ⟨(built_of_build hs).1.readable, (built_of_build hs).1.nodup⟩
  · rintro ⟨hreadable, hnd⟩
    have hstart := arranged_workers directory
    obtain ⟨d, hadd⟩ := exists_addAll_ok (Draft.start (workers directory) p) hreadable
    have hgathers := (gathers_build directory p).addAll hadd
    have hkeys := (workers directory).users.nodup_keys
    have huser : ∀ seat ∈ d.seating, ∀ u, seat.user = some u →
        (workers directory).containsUser u = true := by
      intro seat hseat u hu
      rw [containsUser, KeyedList.contains_iff]
      rcases hgathers.user_of_mem_seating hseat hu with rfl | hknown
      · exact mem_workers.2 (.inl rfl)
      · exact hknown
    obtain ⟨s, hs⟩ := exists_foldlM_fill hstart ((hgathers.perm_seating hkeys).nodup_iff.2 hnd)
      (fun seat _ => task?_workers directory seat.task.id) huser
    refine ⟨s, ?_⟩
    rw [build_of_addAll_ok hadd, d.solution?_eq (hstart.chainTail_eq .fallback), hs]
    rfl

/-- A build from records of different tasks that can be read succeeds. -/
theorem exists_build (hnd : (records.map (·.taskId)).Nodup)
    (hreal : ∀ r ∈ records, r.taskId ≠ .placeholder)
    (hreadable : ∀ r ∈ records, ∃ t, r.task? = .ok t) (directory : List DirectoryUser)
    (p : PublishedTasks) : ∃ s, (build records directory p).1 = .ok s := by
  have hsub := (List.filter_sublist (l := records) (p := (·.planned))).map (·.taskId)
  refine (exists_build_iff records directory p).2 ⟨fun r hr _ => hreadable r hr, ?_⟩
  refine List.nodup_cons.2 ⟨fun hmem => ?_, hsub.nodup hnd⟩
  obtain ⟨r, hr, hid⟩ := List.mem_map.1 (hsub.subset hmem)
  exact hreal r hr hid

/-- The solution of a build, or nobody and nothing if it fails. -/
def builtOf (records : List TaskRecord) (directory : List DirectoryUser) (p : PublishedTasks) :
    Solution :=
  match (build records directory p).1 with
  | .ok s => s
  | .error _ => ∅

end ChainPlanner.Assembly
