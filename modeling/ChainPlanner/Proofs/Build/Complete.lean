import ChainPlanner.Proofs.Build.Built
import ChainPlanner.Proofs.Resync.Soundness

/-!
# ChainPlanner.Proofs.Build.Complete

A build loses nothing and takes in nothing twice.

The workers are those of the directory, each once, in the order in which it first lists them.  The
tasks are the placeholder and those of the records that are ready or held, with everything that the
records say about them (`entries_of_foldlM_fill`).  The chain of a worker is a stable sort of the
records that the worker holds, and `comesFirst` is the order of the sort: records that show a claim
come before the others, in each group those with a recorded position before those without, recorded
positions ascending.
-/

namespace ChainPlanner

/-! ## what a record shows -/

namespace TaskRecord

/-- Whether a record shows that the placement of its task has been published. -/
def published (r : TaskRecord) : Bool :=
  r.status = .inProgress || r.planningParameters.any (·.published)

/-- Whether a record shows that its task must stay where it is. -/
def pinned (r : TaskRecord) : Bool := r.published || r.planningParameters.any (·.pinned)

/-- The recorded position in the chain of a worker; a position that was stored for somebody else
does not count, nor does a negative one. -/
def index? (r : TaskRecord) (u : UserId) : Option Int :=
  r.planningParameters.bind fun pp =>
    if pp.assignedUser = u ∧ 0 ≤ pp.index.toInt then some pp.index.toInt else none

/-- Whether a record goes before another one in the chain of a worker, or ranks with it. -/
def comesFirst (a : TaskRecord) (u : UserId) (b : TaskRecord) : Bool :=
  match a.pinned, b.pinned with
  | true, false => true
  | false, true => false
  | _, _ => match a.index? u, b.index? u with
    | some i, some j => i ≤ j
    | some _, none => true
    | none, some _ => false
    | none, none => true

end TaskRecord

namespace Assembly

open Solution Draft

variable {records : List TaskRecord} {directory : List DirectoryUser} {s s' : Solution}
  {lists : UserId → List TaskId} {p : PublishedTasks} {r : TaskRecord} {u : UserId} {t : Task}
  {d : Draft} {users : List UserId} {seat : Seat} {seats : List Seat}

/-- A build takes a task for published as its record says. -/
theorem standing_published (r : TaskRecord) (u : UserId) :
    (Draft.standing r u).1 = r.published := by
  rw [Draft.standing, TaskRecord.published]
  cases r.planningParameters <;> simp

/-- A build pins a task as its record says. -/
theorem standing_pinned (r : TaskRecord) (u : UserId) :
    (Draft.standing r u).2.1 = r.pinned := by
  rw [Draft.standing, TaskRecord.pinned, TaskRecord.published]
  cases r.planningParameters <;> simp

/-- The position that a build sorts by is the recorded one, if it is not negative. -/
theorem standing_index (r : TaskRecord) (u : UserId) : r.index? u =
    if 0 ≤ (Draft.standing r u).2.2.toInt then some (Draft.standing r u).2.2.toInt else none := by
  rw [Draft.standing, TaskRecord.index?]
  cases r.planningParameters with
  | none => rfl
  | some pp => by_cases hu : pp.assignedUser = u <;> simp [hu]

/-- A recorded position is a number of 31 bits. -/
theorem range_of_index? {i : Int} (h : r.index? u = some i) : 0 ≤ i ∧ i < 2147483648 := by
  rw [standing_index] at h
  split at h
  · next hi =>
    cases h
    exact ⟨hi, Int32.toInt_lt _⟩
  · cases h

/-- The rank of a slot, from what its record says: unpinned ones come after all pinned ones, and
those without a position last among their kind. -/
theorem rank_slotOf (r : TaskRecord) (u : UserId) (t : Task) : (slotOf r u t).rank =
    (if r.pinned then 0 else 4294967296) + (r.index? u).getD 2147483648 := by
  rw [Slot.rank, standing_index, ← standing_pinned r u]
  refine congrArg _ ?_
  rw [slotOf]
  split <;> rfl

/-- The order of records is the order of their slots. -/
theorem comesFirst_eq (a b : TaskRecord) (u : UserId) (t t' : Task) :
    a.comesFirst u b = decide ((slotOf a u t).rank ≤ (slotOf b u t').rank) := by
  have ha : ∀ i, a.index? u = some i → 0 ≤ i ∧ i < 2147483648 := fun _ => range_of_index?
  have hb : ∀ i, b.index? u = some i → 0 ≤ i ∧ i < 2147483648 := fun _ => range_of_index?
  rw [rank_slotOf, rank_slotOf, TaskRecord.comesFirst]
  cases hi : a.index? u <;> cases hj : b.index? u <;> cases a.pinned <;> cases b.pinned <;>
    grind

/-! ## the workers -/

/-- A last item is kept if it has not come before. -/
theorem eraseDups_concat {α : Type} [DecidableEq α] (as : List α) (a : α) :
    (as ++ [a]).eraseDups = as.eraseDups ++ if a ∈ as then [] else [a] := by
  rw [List.eraseDups_append, List.removeAll, List.filter_cons]
  by_cases ha : a ∈ as <;> simp [ha, List.eraseDups_cons]

/-- Workers come in the order in which they are first listed. -/
theorem keys_foldl_addUser (us : List User) :
    (us.foldl addUser ∅).users.keys = (us.map (·.id)).eraseDups := by
  induction us using List.reverseRecOn with
  | nil => rfl
  | append_singleton us w ih =>
    rw [List.foldl_append, List.foldl_cons, List.foldl_nil, keys_addUser, ih, List.map_append,
      List.map_singleton, eraseDups_concat]
    simp only [List.mem_eraseDups]
    split
    · exact (List.append_nil _).symm
    · rfl

/-- The workers of a directory, each once, in the order in which it first lists them, and then the
fallback user if it is not among them. -/
theorem keys_workers (directory : List DirectoryUser) : (workers directory).users.keys =
    (directory.map (·.id)).eraseDups ++
      if .fallback ∈ directory.map (·.id) then [] else [.fallback] := by
  have hids : (directory.map DirectoryUser.toUser ++ [User.fallback]).map (·.id) =
      directory.map (·.id) ++ [.fallback] := by
    rw [List.map_append, List.map_map]
    rfl
  rw [workers_eq, keys_foldl_addUser, hids, eraseDups_concat]

/-! ## the tasks -/

/-- A task that is seated is stored as it is. -/
theorem tasks_of_fill (h : s.Arranged lists) (hs : Seat.fill s seat = .ok s') :
    s'.roster.tasks = s.roster.tasks.insert seat.task.id seat.task.detached := by
  have ht := (seated_of_fill h hs).absent
  obtain ⟨t, user⟩ := seat
  have hadd : (s.withTask t).roster.tasks = s.roster.tasks.insert t.id t.detached :=
    congrArg Roster.tasks (h.roster_withTask ht)
  cases user with
  | none =>
    rw [Seat.fill_none, addTask_eq, if_neg (by simp [containsTask_eq_false.2 ht])] at hs
    cases hs
    exact hadd
  | some u =>
    rw [Seat.fill_some, append_of_absent ht, chainTail_withTask h ht] at hs
    obtain ⟨-, -, hroster⟩ := (h.withTask ht).roster_linkAfter_chainTail hs
    rw [hroster]
    exact hadd

/-- The tasks of a list of seats are stored in the order in which they are seated. -/
theorem entries_of_foldlM_fill (h : s.Arranged lists) (hs : seats.foldlM Seat.fill s = .ok s') :
    s'.roster.tasks.entries = s.roster.tasks.entries ++
      seats.map fun seat => (seat.task.id, seat.task.detached) := by
  induction seats generalizing s lists with
  | nil =>
    cases hs
    simp
  | cons seat seats ih =>
    rw [List.foldlM_cons] at hs
    cases hstep : Seat.fill s seat with
    | error e =>
      rw [hstep] at hs
      cases hs
    | ok s₁ =>
      rw [hstep] at hs
      have hseated := seated_of_fill h hstep
      have hnew : seat.task.id ∉ s.roster.tasks.keys := by
        rw [← KeyedList.get?_eq_none_iff, get?_roster_tasks, hseated.absent]
        rfl
      rw [ih hseated.arranged hs, tasks_of_fill h hstep,
        KeyedList.entries_insert_of_not_mem hnew, List.append_assoc]
      rfl

/-- A build fills the seats of a draft. -/
theorem exists_seating_of_build (h : (build records directory p).1 = .ok s) :
    ∃ d, Gathers (workers directory).users.keys p records d ∧
      d.seating.foldlM Seat.fill (workers directory) = .ok s := by
  cases hadd : (Draft.start (workers directory) p).addAll records with
  | mk d answer =>
    cases answer with
    | error e =>
      rw [build_of_addAll_error hadd] at h
      cases h
    | ok _ =>
      rw [build_of_addAll_ok hadd] at h
      have hsolution := mapError_eq_ok_iff.1 h
      rw [d.solution?_eq ((arranged_workers directory).chainTail_eq .fallback)] at hsolution
      exact ⟨d, (gathers_build directory p).addAll hadd, hsolution⟩

/-- A build stores the tasks in the order of the seats. -/
theorem entries_of_build (h : d.seating.foldlM Seat.fill (workers directory) = .ok s) :
    s.roster.tasks.entries = d.seating.map fun seat => (seat.task.id, seat.task.detached) := by
  have hnone : (workers directory).roster.tasks.entries = [] := by
    have htasks : (workers directory).tasks = (∅ : Solution).tasks := by
      rw [workers_eq]
      exact (foldl_addUser _ arranged_empty).2.1
    rw [roster, bare, htasks]
    rfl
  rw [entries_of_foldlM_fill (arranged_workers directory) h, hnone, List.nil_append]

/-- A seated task is in the solution, as it was seated but for links and times. -/
theorem task?_of_seating (h : d.seating.foldlM Seat.fill (workers directory) = .ok s)
    (hseat : seat ∈ d.seating) :
    (s.task? seat.task.id).map Task.detached = some seat.task.detached := by
  rw [← get?_roster_tasks, KeyedList.get?_eq_some_iff, entries_of_build h]
  exact List.mem_map_of_mem hseat

/-- The task of a record has neither links nor times. -/
theorem detached_of_task? (h : r.task? = .ok t) : t.detached = t := by
  unfold TaskRecord.task? at h
  split at h <;> cases h
  rfl

/-! ## the chains -/

/-- The slots of the records that a worker holds, in order, are a stable sort of these records. -/
theorem map_inOrder_eq (hreadable : ∀ r ∈ records, r.planned = true → ∃ t, r.task? = .ok t)
    (u : UserId) : (inOrder (records.filterMap (slot? u))).map (·.task.id) =
      ((records.filter (·.holder? = some u)).mergeSort fun a b => a.comesFirst u b).map
        (·.taskId) := by
  let slot (r : TaskRecord) : Slot := slotOf r u (r.task?.toOption.getD .placeholder)
  have htask : ∀ r ∈ records, r.holder? = some u → ∃ t, r.task? = .ok t := fun r hr hholder =>
    hreadable r hr (by simp [TaskRecord.planned, hholder])
  have hslots : records.filterMap (slot? u) =
      (records.filter (·.holder? = some u)).map slot := by
    rw [← List.filterMap_eq_map, List.filterMap_filter]
    refine List.filterMap_congr fun r hr => ?_
    by_cases hholder : r.holder? = some u
    · obtain ⟨t, ht⟩ := htask r hr hholder
      simp [slot?_of_holder? hholder ht, hholder, slot, ht, Except.toOption]
    · simp [slot?_of_not_holder hholder, hholder]
  rw [hslots, inOrder_eq_mergeSort,
    ← List.map_mergeSort fun a _ b _ => comesFirst_eq a b u _ _, List.map_map]
  refine List.map_congr_left fun r hr => ?_
  rw [List.mem_mergeSort, List.mem_filter, decide_eq_true_eq] at hr
  obtain ⟨t, ht⟩ := htask r hr.1 hr.2
  simpa [slot, slotOf, ht, Except.toOption] using taskId_of_task? ht

/-! ## the build -/

/-- A record shows a published task if it is claimed and says so. -/
theorem exposed_iff : Exposed r ↔ r.holder?.isSome = true ∧ r.published = true := by
  simp only [Exposed, standing_published, exists_and_right, Option.isSome_iff_exists]

/-- What a build from records and a directory is to return, with some tasks published before. -/
structure Complete (records : List TaskRecord) (directory : List DirectoryUser)
    (p : PublishedTasks) (s : Solution) (p' : PublishedTasks) : Prop where
  valid : s.validate = .ok ()
  users : s.users.keys = (directory.map (·.id)).eraseDups ++
    if .fallback ∈ directory.map (·.id) then [] else [.fallback]
  tasks : s.tasks.keys.Perm (.placeholder :: (records.filter (·.planned)).map (·.taskId))
  placeholder : (s.task? .placeholder).map Task.detached =
    some { Task.placeholder with pinned := true }
  /-- A task that is ready, or that a stranger holds, is in no chain and unpinned. -/
  loose : ∀ r ∈ records, (r.status = .ready ∨ ∃ u ∈ r.holder?, u ∉ s.users.keys) →
    ∃ t, r.task? = .ok t ∧ s.task? r.taskId = some t ∧ t.isUnassigned = true ∧ t.pinned = false
  /-- Any other task is in the chain of its holder, and in no other one. -/
  held : ∀ r ∈ records, ∀ u ∈ r.holder?, u ∈ s.users.keys →
    ∃ t, r.task? = .ok t ∧
      (s.task? r.taskId).map Task.detached = some { t with pinned := r.pinned } ∧
      ∀ v, r.taskId ∈ s.chainIds v ↔ v = u
  /-- The fallback user has the placeholder first. -/
  chains : ∀ u ∈ s.users.keys, s.chainIds u = (if u = .fallback then [.placeholder] else []) ++
    ((records.filter (·.holder? = some u)).mergeSort fun a b => a.comesFirst u b).map (·.taskId)
  published : ∀ x, x ∈ p' ↔ x ∈ p ∨
    ∃ r ∈ records, r.taskId = x ∧ r.holder?.isSome = true ∧ r.published = true

/-- A build that succeeds has lost nothing. -/
theorem complete_of_build (h : (build records directory p).1 = .ok s) :
    Complete records directory p s (build records directory p).2 := by
  obtain ⟨hbuilt, hpublished⟩ := built_of_build h
  obtain ⟨d, hgathers, hfill⟩ := exists_seating_of_build h
  have hall := allSeated_of_foldlM (arranged_workers directory) hfill
  have hknown : ∀ u, u ∈ s.users.keys ↔ s.containsUser u = true := fun _ =>
    KeyedList.contains_iff.symm
  have hmember : ∀ {x u}, x ∈ s.chainIds u ↔ (s.standing x).user = some u :=
    hbuilt.arranged.assignedUser?_eq_some_iff.symm
  exact {
    valid := hbuilt.arranged.layout.validate hbuilt.arranged.keyed
    users := hall.users.trans (keys_workers directory)
    tasks := by
      have hkeys : s.tasks.keys = d.seating.map (·.task.id) := by
        have hroster : s.roster.tasks.keys = s.tasks.keys := KeyedList.keys_map s.tasks _
        rw [← hroster, KeyedList.keys, entries_of_build hfill, List.map_map]
        rfl
      rw [hkeys]
      exact hgathers.perm_seating (workers directory).users.nodup_keys
    placeholder := task?_of_seating hfill List.mem_cons_self
    loose := by
      intro r hr hloose
      have hwhere : r.planned = true ∧ loose? (workers directory).users.keys r =
          r.task?.toOption ∧ s.standing r.taskId = ⟨some false, none⟩ := by
        rcases hloose with hready | ⟨u, hholder, hu⟩
        · exact ⟨by simp [TaskRecord.planned, hready], if_pos (.inl hready),
            hbuilt.ready r hr hready⟩
        · have hunknown : u ∉ (workers directory).users.keys := by rwa [← hall.users]
          refine ⟨by simp [TaskRecord.planned, Option.mem_def.1 hholder],
            if_pos (.inr ⟨u, hholder, hunknown⟩), ?_⟩
          rw [hbuilt.held r hr u hholder, if_neg (mt (hknown u).2 hu)]
      obtain ⟨hplanned, hsome, hstanding⟩ := hwhere
      obtain ⟨t, ht⟩ := hbuilt.readable r hr hplanned
      have hseat := hgathers.mem_seating_of_loose hr (t := t) (by rw [hsome, ht]; rfl)
      have hstored := task?_of_seating hfill hseat
      rw [taskId_of_task? ht, detached_of_task? ht] at hstored
      obtain ⟨t', ht', rfl⟩ := Option.map_eq_some_iff.1 hstored
      -- a task in no chain has neither links nor times
      have hfree : t'.detached = t' := hbuilt.arranged.free ht' fun u hu => by
        simp [hmember, hstanding] at hu
      exact ⟨_, ht, ht'.trans (congrArg some hfree.symm), rfl, pinned_of_task? ht⟩
    held := by
      intro r hr u hholder hu
      obtain ⟨t, ht⟩ := hbuilt.readable r hr
        (by simp [TaskRecord.planned, Option.mem_def.1 hholder])
      have hslot := List.mem_filterMap.2 ⟨r, hr, slot?_of_holder? hholder ht⟩
      have hstored := task?_of_seating hfill
        (hgathers.mem_seating_of_slot (hall.users ▸ hu) hslot)
      have hpinned : (slotOf r u t).seated.detached = { t.detached with pinned := r.pinned } := by
        rw [← standing_pinned r u]
        rfl
      rw [hpinned, detached_of_task? ht] at hstored
      refine ⟨t, ht, taskId_of_task? ht ▸ hstored, fun v => ?_⟩
      rw [hmember, hbuilt.held r hr u hholder, if_pos ((hknown u).1 hu), Option.some.injEq,
        eq_comm]
    chains := by
      intro u hu
      rw [hbuilt.chains, if_pos ((hknown u).1 hu), map_inOrder_eq hbuilt.readable]
    published := by
      simpa only [exposed_iff] using hpublished }

/-- Where the records that are ready or held are of different tasks other than the placeholder, and
have priorities, a build succeeds, and it loses and doubles nothing. -/
theorem build_loses_nothing
    (hnd : (.placeholder :: (records.filter (·.planned)).map (·.taskId)).Nodup)
    (hvalid : ∀ r ∈ records, r.planned = true → 0 ≤ r.priority.toInt ∧ r.priority.toInt ≤ 10)
    (directory : List DirectoryUser) (p : PublishedTasks) :
    ∃ s p', build records directory p = (.ok s, p') ∧ Complete records directory p s p' := by
  have hreadable : ∀ r ∈ records, r.planned = true → ∃ t, r.task? = .ok t :=
    fun r hr hplanned => exists_task?_iff.2 (hvalid r hr hplanned)
  obtain ⟨s, hs⟩ := (exists_build_iff records directory p).2 ⟨hreadable, hnd⟩
  exact ⟨s, _, Prod.ext hs rfl, complete_of_build hs⟩

/-- A worker that is listed twice holds two tasks that are claimed, one of them with a position in
the chain of somebody else, and two that have positions.  A stranger and the fallback user hold a
task each, one task is ready, and one is over and has no priority. -/
theorem build_loses_nothing_of_eight :
    let stored (n : Int64) (user : UserId) (index : Int32) (pinned : Bool) : TaskRecord :=
      { recordOf n .reserved (some ⟨"john"⟩) with
        planningParameters := some ⟨user, index, pinned, false⟩ }
    let records := [recordOf 1 .ready none, stored 2 ⟨"john"⟩ 3 false,
      recordOf 3 .inProgress (some ⟨"john"⟩), stored 4 ⟨"john"⟩ 1 false,
      stored 5 ⟨"ann"⟩ 0 true, recordOf 6 .suspended (some ⟨"eve"⟩),
      recordOf 7 .reserved (some .fallback),
      { recordOf 8 .completed (some ⟨"john"⟩) with priority := 99 }]
    let directory : List DirectoryUser := [⟨⟨"john"⟩, []⟩, ⟨⟨"ann"⟩, []⟩, ⟨⟨"john"⟩, []⟩]
    (.placeholder :: (records.filter (·.planned)).map (·.taskId)).Nodup ∧
      (∀ r ∈ records, r.planned = true → 0 ≤ r.priority.toInt ∧ r.priority.toInt ≤ 10) ∧
      ∃ s p', build records directory (.ofList [⟨9⟩]) = (.ok s, p') ∧
        Complete records directory (.ofList [⟨9⟩]) s p' ∧
        s.users.keys = [⟨"john"⟩, ⟨"ann"⟩, .fallback] ∧
        s.chainIds ⟨"john"⟩ = [⟨3⟩, ⟨5⟩, ⟨4⟩, ⟨2⟩] ∧ s.chainIds .fallback = [.placeholder, ⟨7⟩] ∧
        s.unassigned.map (·.id) = [⟨1⟩, ⟨6⟩] ∧ p' = .ofList [⟨3⟩, ⟨9⟩] := by
  intro stored records directory
  have hnd : (.placeholder :: (records.filter (·.planned)).map (·.taskId)).Nodup := by
    decide +kernel
  have hvalid : ∀ r ∈ records, r.planned = true →
      0 ≤ r.priority.toInt ∧ r.priority.toInt ≤ 10 := by decide +kernel
  obtain ⟨s, p', hbuild, hcomplete⟩ := build_loses_nothing hnd hvalid directory (.ofList [⟨9⟩])
  have hs : builtOf records directory (.ofList [⟨9⟩]) = s := by rw [builtOf, hbuild]
  have hp : (build records directory (.ofList [⟨9⟩])).2 = p' := by rw [hbuild]
  refine ⟨hnd, hvalid, s, p', hbuild, hcomplete, ?_⟩
  rw [← hs, ← hp]
  decide +kernel

end Assembly

end ChainPlanner
