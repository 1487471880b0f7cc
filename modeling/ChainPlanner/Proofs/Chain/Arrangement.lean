import Mathlib.Algebra.GroupWithZero.Nat
import Mathlib.Data.List.Perm.Subperm
import ChainPlanner.Solution.Layout
import ChainPlanner.Proofs.Chain.Splice

/-!
# ChainPlanner.Proofs.Chain.Arrangement

The invariant of a solution.  `s.Arranged lists` says that the stored links and times of `s` are
those of one list of tasks for each worker, that tasks in no list have neither, and that keys are
the ids stored under them.  `Chained` is the part of it that says nothing of times, which is what
holds between the two halves of an edit.

The lists are not a further datum: `Chained.chainIds_eq` reads them off the links.  From them come
the answers to every question about a place, `Chained.assignedUser?_eq_some_iff` and
`Arranged.getElem?_chain` among them.
-/

namespace ChainPlanner.Solution

/-- A solution without links and times: the workers and the tasks in stored order. -/
def bare (s : Solution) : Solution where
  users := s.users.map fun u => { u with next := none }
  tasks := s.tasks.map Task.detached

/-- The stored links are those of one list of tasks for each worker, and a task in no list has no
place. -/
structure Chained (s : Solution) (lists : UserId → List TaskId) : Prop where
  keyed : s.Keyed
  joined : ∀ u, s.Joined (.user u) (lists u)
  nodup : ∀ u, (lists u).Nodup
  disjoint : ∀ {u v}, u ≠ v → ∀ x ∈ lists u, x ∉ lists v
  free : ∀ {id t}, s.task? id = some t → (∀ u, id ∉ lists u) → t.detached = t

/-- The stored links and times are those of one list of tasks for each worker. -/
structure Arranged (s : Solution) (lists : UserId → List TaskId) : Prop extends
    Chained s lists where
  timed : ∀ u, s.Timed (.user u) (lists u)

variable {s s' : Solution} {lists : UserId → List TaskId} {u v : UserId} {p : Anchor}
  {id x : TaskId} {t : Task}

/-! ## what is stored beside links and times -/

/-- A worker without its link. -/
theorem user?_bare (s : Solution) (u : UserId) :
    s.bare.user? u = (s.user? u).map fun w => { w with next := none } :=
  KeyedList.get?_map s.users _ u

/-- A task without links and times. -/
theorem task?_bare (s : Solution) (id : TaskId) :
    s.bare.task? id = (s.task? id).map Task.detached :=
  KeyedList.get?_map s.tasks _ id

/-- Links do not say who is there. -/
theorem keys_users_bare (s : Solution) : s.bare.users.keys = s.users.keys :=
  KeyedList.keys_map s.users _

/-- Links do not say which tasks there are. -/
theorem keys_tasks_bare (s : Solution) : s.bare.tasks.keys = s.tasks.keys :=
  KeyedList.keys_map s.tasks _

theorem containsUser_bare (s : Solution) (u : UserId) : s.bare.containsUser u = s.containsUser u :=
  KeyedList.contains_eq_of_keys s.keys_users_bare u

theorem containsTask_bare (s : Solution) (id : TaskId) :
    s.bare.containsTask id = s.containsTask id :=
  KeyedList.contains_eq_of_keys s.keys_tasks_bare id

/-- Solutions that differ in links and times only have the same workers and tasks, in the same
order. -/
theorem keys_of_bare (h : s'.bare = s.bare) :
    s'.users.keys = s.users.keys ∧ s'.tasks.keys = s.tasks.keys := by
  rw [← keys_users_bare, ← keys_tasks_bare, h, keys_users_bare, keys_tasks_bare]
  exact ⟨rfl, rfl⟩

theorem containsUser_of_bare (h : s'.bare = s.bare) (u : UserId) :
    s'.containsUser u = s.containsUser u := by
  rw [← containsUser_bare, h, containsUser_bare]

theorem containsTask_of_bare (h : s'.bare = s.bare) (id : TaskId) :
    s'.containsTask id = s.containsTask id := by
  rw [← containsTask_bare, h, containsTask_bare]

/-- Solutions that differ in links and times only have the same tasks, up to these. -/
theorem exists_task?_of_bare (h : s'.bare = s.bare) (ht : s.task? x = some t) :
    ∃ t', s'.task? x = some t' ∧ t'.detached = t.detached := by
  have hsame : (s'.task? x).map Task.detached = some t.detached := by
    rw [← task?_bare, h, task?_bare, ht, Option.map_some]
  exact Option.map_eq_some_iff.1 hsame

/-- A task is there if something is stored for it. -/
theorem containsTask_iff : s.containsTask id = true ↔ ∃ t, s.task? id = some t :=
  Option.isSome_iff_exists

/-- A worker is there if something is stored for it. -/
theorem containsUser_iff : s.containsUser u = true ↔ ∃ w, s.user? u = some w :=
  Option.isSome_iff_exists

theorem containsTask_eq_false : s.containsTask id = false ↔ s.task? id = none := by
  rw [containsTask, KeyedList.contains, Option.isSome_eq_false_iff, Option.isNone_iff_eq_none]
  rfl

theorem containsUser_eq_false : s.containsUser u = false ↔ s.user? u = none := by
  rw [containsUser, KeyedList.contains, Option.isSome_eq_false_iff, Option.isNone_iff_eq_none]
  rfl

/-- The keys agree with the ids whatever the links and times are. -/
theorem keyed_bare : s.bare.Keyed ↔ s.Keyed := by
  constructor
  · intro h
    have huser : ∀ {u w}, s.user? u = some w → w.id = u := fun {u w} hw =>
      h.user_id (u := { w with next := none }) (by rw [user?_bare, hw, Option.map_some])
    have htask : ∀ {x t}, s.task? x = some t → t.id = x := fun {x t} ht =>
      h.task_id (t := t.detached) (by rw [task?_bare, ht, Option.map_some])
    exact ⟨huser, htask⟩
  · intro h
    have huser : ∀ {u w}, s.bare.user? u = some w → w.id = u := by
      intro u w hw
      rw [user?_bare] at hw
      obtain ⟨w', hw', rfl⟩ := Option.map_eq_some_iff.1 hw
      exact show w'.id = u from h.user_id hw'
    have htask : ∀ {x t}, s.bare.task? x = some t → t.id = x := by
      intro x t ht
      rw [task?_bare] at ht
      obtain ⟨t', ht', rfl⟩ := Option.map_eq_some_iff.1 ht
      exact show t'.id = x from h.task_id ht'
    exact ⟨huser, htask⟩

theorem Keyed.of_bare (h : s.Keyed) (hb : s'.bare = s.bare) : s'.Keyed := by
  rw [← keyed_bare, hb]
  exact keyed_bare.2 h

/-- What is the same but for times is the same but for links and times. -/
theorem bare_of_untimed (h : s'.untimed = s.untimed) : s'.bare = s.bare := by
  have htasks : ∀ w : Solution, w.untimed.tasks.map Task.detached = w.tasks.map Task.detached := by
    intro w
    apply KeyedList.ext_get? (by simp [untimed])
    intro k
    simp only [untimed, KeyedList.get?_map, Option.map_map]
    rfl
  have hbare : ∀ w : Solution, w.untimed.bare = w.bare := fun w =>
    congrArg (Solution.mk _) (htasks w)
  rw [← hbare s', h, hbare s]

/-! ## links -/

namespace Chained

/-- Every listed task is there. -/
theorem mem_tasks (h : s.Chained lists) (hx : x ∈ lists u) : ∃ t, s.task? x = some t :=
  (h.joined u).exists_task hx

/-- No task is listed with two workers. -/
theorem eq_of_mem (h : s.Chained lists) (hu : x ∈ lists u) (hv : x ∈ lists v) : u = v := by
  by_contra hne
  exact h.disjoint hne x hu hv

/-- A task that is not there is not listed. -/
theorem not_mem_of_absent (h : s.Chained lists) (hx : s.task? x = none) : x ∉ lists u := by
  intro hmem
  obtain ⟨t, ht⟩ := h.mem_tasks hmem
  rw [hx] at ht
  cases ht

/-- Whoever is not there has no tasks. -/
theorem list_of_absent (h : s.Chained lists) (hu : s.user? u = none) : lists u = [] := by
  have hhead := (h.joined u).successor?_eq_head?
  rw [successor?, hu, Option.bind_none] at hhead
  exact List.head?_eq_none_iff.1 hhead.symm

/-- A task has a predecessor exactly if it is in a list. -/
theorem exists_mem_iff (h : s.Chained lists) (ht : s.task? x = some t) :
    (∃ u, x ∈ lists u) ↔ t.previous ≠ none := by
  constructor
  · rintro ⟨u, hx⟩ hnone
    obtain ⟨c, hc, -⟩ := (h.joined u).predecessor?_of_mem hx
    rw [predecessor?, ht, Option.bind_some, hnone] at hc
    cases hc
  · intro hprev
    by_contra hno
    rw [not_exists] at hno
    exact hprev (congrArg Task.previous (h.free ht hno)).symm

/-- A task that is linked after something is listed. -/
theorem mem_of_predecessor? (h : s.Chained lists) (hx : s.predecessor? x = some p) :
    ∃ u, x ∈ lists u := by
  obtain ⟨t, ht, hprev⟩ := task?_of_predecessor? hx
  exact (h.exists_mem_iff ht).2 (by rw [hprev]; exact Option.some_ne_none p)

/-- A task that is linked after nothing is not listed. -/
theorem not_mem_of_previous (h : s.Chained lists) (ht : s.task? x = some t)
    (hprev : t.previous = none) : x ∉ lists u :=
  fun hx => (h.exists_mem_iff ht).1 ⟨u, hx⟩ hprev

/-- Links agree on both ends. -/
theorem bothWays (h : s.Chained lists) : s.BothWays := by
  intro c x
  constructor
  · intro hc
    cases c with
    | user u => exact ((h.joined u).successor?_of_position (.inl rfl) hc).2
    | task y =>
      obtain ⟨t, ht, hnext⟩ := Option.bind_eq_some_iff.1 hc
      by_cases hy : ∃ u, y ∈ lists u
      · obtain ⟨u, hy⟩ := hy
        exact ((h.joined u).successor?_of_position (.inr (List.mem_map_of_mem hy)) hc).2
      · rw [not_exists] at hy
        rw [← h.free ht hy] at hnext
        cases hnext
  · intro hp
    obtain ⟨u, hx⟩ := h.mem_of_predecessor? hp
    obtain ⟨c', hc', hs, -⟩ := (h.joined u).predecessor?_of_mem hx
    rw [hp, Option.some.injEq] at hc'
    rw [hc']
    exact hs

/-- Where a task is linked after is a position of the chain that holds it. -/
theorem position_of_mem (h : s.Chained lists) (hx : x ∈ lists u) (hp : s.predecessor? x = some p) :
    p = .user u ∨ ∃ y ∈ lists u, .task y = p := by
  obtain ⟨c, hc, -, hpos⟩ := (h.joined u).predecessor?_of_mem hx
  rw [hp, Option.some.injEq] at hc
  subst hc
  exact hpos.imp_right List.mem_map.1

/-- No list is longer than there are tasks, so no walk reaches its bound. -/
theorem length_le (h : s.Chained lists) (u : UserId) : (lists u).length ≤ s.tasks.size := by
  have hsub : lists u ⊆ s.tasks.keys := by
    intro x hx
    obtain ⟨t, ht⟩ := h.mem_tasks hx
    exact KeyedList.mem_keys_of_get? ht
  rw [← KeyedList.length_keys]
  exact (List.subperm_of_subset (h.nodup u) hsub).length_le

/-! ## reading the lists off the links -/

/-- A chain consists of the listed tasks. -/
theorem chain_eq (h : s.Chained lists) (u : UserId) : s.chain u = (lists u).filterMap s.task? :=
  (h.joined u).follow_eq (h.length_le u)

/-- A task is in a chain if it is there and listed. -/
theorem mem_chain_iff (h : s.Chained lists) :
    t ∈ s.chain u ↔ s.task? t.id = some t ∧ t.id ∈ lists u := by
  rw [h.chain_eq, List.mem_filterMap]
  constructor
  · rintro ⟨x, hx, ht⟩
    rw [h.keyed.task_id ht]
    exact ⟨ht, hx⟩
  · rintro ⟨ht, hx⟩
    exact ⟨t.id, hx, ht⟩

/-- The tasks found under some ids have these ids. -/
theorem map_id_filterMap (h : s.Keyed) {ids : List TaskId}
    (hids : ∀ x ∈ ids, ∃ t, s.task? x = some t) :
    (ids.filterMap s.task?).map (·.id) = ids := by
  induction ids with
  | nil => rfl
  | cons x xs ih =>
    obtain ⟨t, ht⟩ := hids x List.mem_cons_self
    rw [List.filterMap_cons_some ht, List.map_cons, h.task_id ht,
      ih fun y hy => hids y (List.mem_cons_of_mem x hy)]

/-- The lists are read off the links. -/
theorem chainIds_eq (h : s.Chained lists) : s.chainIds = lists := by
  funext u
  rw [chainIds, h.chain_eq]
  exact map_id_filterMap h.keyed fun x hx => h.mem_tasks hx

/-- Walking back from a task reaches the worker whose list holds it. -/
theorem assignedUser?_eq_some_iff (h : s.Chained lists) :
    s.assignedUser? x = some u ↔ x ∈ lists u := by
  have hback : ∀ {v}, x ∈ lists v → s.assignedUser? x = some v := fun {v} hx => by
    obtain ⟨xs, ys, hsplit⟩ := List.append_of_mem hx
    have hwalk := hsplit ▸ h.joined v
    obtain ⟨t, ht, hprev⟩ := task?_of_predecessor? hwalk.append_right.2.1
    have hlen := h.length_le v
    rw [hsplit, List.length_append, List.length_cons] at hlen
    rw [assignedUser?, ht, Option.bind_some, hprev]
    exact hwalk.climb_lastPosition (by omega)
  constructor
  · intro hu
    obtain ⟨t, ht, hclimb⟩ := Option.bind_eq_some_iff.1 hu
    have hprev : t.previous ≠ none := fun hnone => by
      rw [hnone] at hclimb
      cases hclimb
    obtain ⟨v, hv⟩ := (h.exists_mem_iff ht).2 hprev
    rw [hback hv, Option.some.injEq] at hu
    exact hu ▸ hv
  · exact hback

/-- A task belongs to nobody if nobody lists it. -/
theorem assignedUser?_eq_none_iff (h : s.Chained lists) :
    s.assignedUser? x = none ↔ ∀ u, x ∉ lists u := by
  rw [Option.eq_none_iff_forall_ne_some]
  exact forall_congr' fun u => not_congr h.assignedUser?_eq_some_iff

/-- A task has no link to what is before it exactly if it belongs to nobody. -/
theorem isUnassigned_iff (h : s.Chained lists) (ht : s.task? x = some t) :
    t.isUnassigned = true ↔ s.assignedUser? x = none := by
  rw [h.assignedUser?_eq_none_iff, ← not_exists, h.exists_mem_iff ht, Task.isUnassigned]
  simp

end Chained

/-! ## times -/

/-- The time that so many tasks take together. -/
def totalDuration (ts : List Task) : Nat := (ts.map (·.duration.toNat)).sum

/-- The first task of some takes its time, and then the others take theirs. -/
theorem totalDuration_cons (t : Task) (ts : List Task) :
    totalDuration (t :: ts) = t.duration.toNat + totalDuration ts := by
  simp [totalDuration]

/-- One task after a time ends at the sum. -/
theorem ofNat_add_totalDuration_singleton (start : Minutes) (t : Task) :
    .ofNat (start.toNat + totalDuration [t]) = start + t.duration := by
  rw [totalDuration_cons]
  rfl

/-- Where the sum is cut off does not depend on whether it is taken up behind the first task. -/
theorem ofNat_add_totalDuration_cons (start : Minutes) (t : Task) (ts : List Task) :
    Minutes.ofNat (start.toNat + totalDuration (t :: ts)) =
      .ofNat ((start + t.duration).toNat + totalDuration ts) := by
  rw [totalDuration_cons, ← Nat.add_assoc]
  exact (Minutes.ofNat_toNat_ofNat_add _ _).symm

/-- A task starts when those in front of it are done, and ends its duration later; times saturate.
-/
theorem Timed.getElem? {a : Anchor} {ids : List TaskId} {k : Nat} (h : s.Timed a ids)
    (ht : (ids.filterMap s.task?)[k]? = some t) :
    t.startTime = some (.ofNat ((s.startAfter a).toNat +
        totalDuration ((ids.filterMap s.task?).take k))) ∧
      t.endTime = some (.ofNat ((s.startAfter a).toNat +
        totalDuration ((ids.filterMap s.task?).take (k + 1)))) := by
  induction ids generalizing a k with
  | nil => simp at ht
  | cons id ids ih =>
    obtain ⟨⟨w, hw, hstart, hend⟩, hrest⟩ := h
    rw [List.filterMap_cons_some hw] at ht ⊢
    cases k with
    | zero =>
      rw [List.getElem?_cons_zero, Option.some.injEq] at ht
      subst ht
      have hzero : s.startAfter a = .ofNat ((s.startAfter a).toNat + totalDuration []) :=
        (s.startAfter a).ofNat_toNat.symm
      have hone := (ofNat_add_totalDuration_singleton (s.startAfter a) w).symm
      exact ⟨hstart.trans (congrArg some hzero), hend.trans (congrArg some hone)⟩
    | succ k =>
      rw [List.getElem?_cons_succ] at ht
      obtain ⟨hs, he⟩ := ih hrest ht
      have hafter : s.startAfter (.task id) = s.startAfter a + w.duration := by
        rw [startAfter, hw, Option.bind_some, hend, Option.getD_some]
      have hsum : ∀ ts, Minutes.ofNat ((s.startAfter (.task id)).toNat + totalDuration ts) =
          .ofNat ((s.startAfter a).toNat + totalDuration (w :: ts)) := by
        intro ts
        rw [hafter, ofNat_add_totalDuration_cons]
      rw [List.take_succ_cons, List.take_succ_cons]
      exact ⟨hs.trans (congrArg some (hsum _)), he.trans (congrArg some (hsum _))⟩

namespace Arranged

/-- A task is in no list exactly if it has no links and no times. -/
theorem forall_not_mem_iff (h : s.Arranged lists) (ht : s.task? x = some t) :
    (∀ u, x ∉ lists u) ↔
      t.previous = none ∧ t.next = none ∧ t.startTime = none ∧ t.endTime = none := by
  constructor
  · intro hx
    rw [← h.free ht hx]
    exact ⟨rfl, rfl, rfl, rfl⟩
  · rintro ⟨hprev, -⟩ u
    exact h.not_mem_of_previous ht hprev

/-- The times along a chain are the sums of the durations, cut off at the longest time. -/
theorem getElem?_chain (h : s.Arranged lists) {k : Nat} (ht : (s.chain u)[k]? = some t) :
    t.startTime = some (.ofNat (totalDuration ((s.chain u).take k))) ∧
      t.endTime = some (.ofNat (totalDuration ((s.chain u).take (k + 1)))) := by
  have hzero : (s.startAfter (.user u)).toNat = 0 := rfl
  rw [h.chain_eq] at ht ⊢
  have htimes := (h.timed u).getElem? ht
  rw [hzero, Nat.zero_add, Nat.zero_add] at htimes
  exact htimes

end Arranged

end ChainPlanner.Solution
