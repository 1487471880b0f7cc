import ChainPlanner.Proofs.Chain.Operations

/-!
# ChainPlanner.Proofs.Chain.Roster

A solution as plain data: the workers, the tasks, and one list of task ids for each worker, with no
links between tasks and no times.  On this data an edit of a chain is an edit of a list, and a
position is not more than a place in a list.

`Solution.roster` forgets the links and the times of a solution.  The lemmas below are one square
for each operation: the operation on the solution, seen as a roster, is the operation on the roster.
The workers and the tasks of a roster are kept whole and in stored order, so that each square also
says what the operation leaves alone.
-/

namespace ChainPlanner

/-- Workers, tasks and one list of tasks for each worker. -/
structure Roster where
  users : KeyedList UserId User
  tasks : KeyedList TaskId Task
  lists : UserId → List TaskId

namespace Roster

/-- Put a task at the head of a worker's list. -/
def putFirst (r : Roster) (u : UserId) (id : TaskId) : Roster :=
  { r with lists := Function.update r.lists u (id :: r.lists u) }

/-- Put a task directly after another one. -/
def putAfter (r : Roster) (y id : TaskId) : Roster :=
  { r with lists := fun u => (r.lists u).flatMap fun x => if x = y then [x, id] else [x] }

/-- Put a task at a position. -/
def put (r : Roster) : Anchor → TaskId → Roster
  | .user u, id => r.putFirst u id
  | .task y, id => r.putAfter y id

/-- Take a task out of its list. -/
def take (r : Roster) (id : TaskId) : Roster :=
  { r with lists := fun u => (r.lists u).erase id }

/-- Take a task out of its list and drop it. -/
def drop (r : Roster) (id : TaskId) : Roster := { r.take id with tasks := r.tasks.erase id }

/-- Add a task in no list. -/
def add (r : Roster) (t : Task) : Roster := { r with tasks := r.tasks.insert t.id t.detached }

/-- Pin or unpin a task. -/
def pin (r : Roster) (id : TaskId) (pinned : Bool) : Roster :=
  { r with tasks := r.tasks.modify id fun t => { t with pinned } }

/-- Whether a task is there and pinned. -/
def isPinned (r : Roster) (id : TaskId) : Bool := (r.tasks.get? id).any (·.pinned)

/-- Put a task behind the leading run of pinned tasks of a worker's list. -/
def putBehindPinned (r : Roster) (u : UserId) (id : TaskId) : Roster :=
  { r with
    lists := Function.update r.lists u
      ((r.lists u).takeWhile r.isPinned ++ id :: (r.lists u).dropWhile r.isPinned) }

/-- Pin a task to a worker behind the leading run of pinned tasks; it is added if it is absent. -/
def assign (r : Roster) (t : Task) (u : UserId) : Roster :=
  ((if r.tasks.contains t.id then r.take t.id else r.add t).putBehindPinned u t.id).pin t.id true

/-- Take a task out of its list and unpin it. -/
def release (r : Roster) (id : TaskId) : Roster := (r.take id).pin id false

/-! ## the lists after an edit -/

variable {r : Roster} {u v : UserId} {id x : TaskId}

theorem lists_take (r : Roster) (id : TaskId) (u : UserId) :
    (r.take id).lists u = (r.lists u).erase id := rfl

/-- The list that the task goes to: the leading pinned ones, the task, and the rest. -/
theorem lists_putBehindPinned_self (r : Roster) (u : UserId) (id : TaskId) :
    (r.putBehindPinned u id).lists u =
      (r.lists u).takeWhile r.isPinned ++ id :: (r.lists u).dropWhile r.isPinned :=
  Function.update_self u _ r.lists

/-- The other lists stay. -/
theorem lists_putBehindPinned_of_ne (r : Roster) (id : TaskId) (h : v ≠ u) :
    (r.putBehindPinned u id).lists v = r.lists v :=
  Function.update_of_ne h _ r.lists

/-- Who is listed where after a task has been put behind the pinned ones. -/
theorem mem_putBehindPinned : x ∈ (r.putBehindPinned u id).lists v ↔
    (v = u ∧ x = id) ∨ x ∈ r.lists v := by
  by_cases hv : v = u
  · subst hv
    rw [lists_putBehindPinned_self, List.mem_append, List.mem_cons]
    have hsplit : x ∈ r.lists v ↔
        x ∈ (r.lists v).takeWhile r.isPinned ∨ x ∈ (r.lists v).dropWhile r.isPinned := by
      rw [← List.mem_append, List.takeWhile_append_dropWhile]
    rw [hsplit]
    tauto
  · rw [lists_putBehindPinned_of_ne r id hv]
    simp [hv]

end Roster

namespace Solution

/-- A solution without links and times, with its chains as lists. -/
def roster (s : Solution) : Roster := ⟨s.bare.users, s.bare.tasks, s.chainIds⟩

variable {s s' b : Solution} {lists lists' : UserId → List TaskId} {u v : UserId} {p : Anchor}
  {id x : TaskId} {t : Task} {xs ys : List TaskId}

/-- The roster of a solution from its workers, its tasks and its lists. -/
theorem Chained.roster_eq (h : s.Chained lists) (hb : s.bare = b) :
    s.roster = ⟨b.users, b.tasks, lists⟩ := by
  rw [roster, hb, h.chainIds_eq]

/-- A task of the roster is one of the solution, without links and times. -/
theorem get?_roster_tasks (s : Solution) (x : TaskId) :
    s.roster.tasks.get? x = (s.task? x).map Task.detached := task?_bare s x

/-- The roster has the tasks of the solution. -/
theorem contains_roster_tasks (s : Solution) (x : TaskId) :
    s.roster.tasks.contains x = s.containsTask x := containsTask_bare s x

/-- The roster has the workers of the solution. -/
theorem contains_roster_users (s : Solution) (u : UserId) :
    s.roster.users.contains u = s.containsUser u := containsUser_bare s u

theorem Chained.roster_lists (h : s.Chained lists) : s.roster.lists = lists := h.chainIds_eq

/-- No task is listed twice. -/
theorem Chained.nodup_roster (h : s.Chained lists) (u : UserId) : (s.roster.lists u).Nodup := by
  rw [h.roster_lists]
  exact h.nodup u

/-- Every listed task is in the roster. -/
theorem Chained.contains_of_mem_roster (h : s.Chained lists) (u : UserId) :
    ∀ x ∈ s.roster.lists u, s.roster.tasks.contains x = true := by
  intro x hx
  rw [h.roster_lists] at hx
  rw [contains_roster_tasks]
  exact containsTask_iff.2 (h.mem_tasks hx)

/-! ## linking and unlinking -/

/-- A task behind a worker goes to the head of that worker's list. -/
theorem insertBehind_user (v u : UserId) (id : TaskId) (ids : List TaskId) :
    insertBehind (.user v) id (.user u) ids = if u = v then id :: ids else ids := by
  by_cases h : u = v
  · rw [if_pos h, h, insertBehind_self]
  · rw [if_neg h]
    exact insertBehind_of_not_mem (by simpa using h) (by simp)

/-- A task behind another one follows it in the list. -/
theorem insertBehind_task (y : TaskId) (u : UserId) (id : TaskId) {ids : List TaskId}
    (hnd : ids.Nodup) : insertBehind (.task y) id (.user u) ids =
      ids.flatMap fun x => if x = y then [x, id] else [x] := by
  have hskip : ∀ zs : List TaskId, y ∉ zs →
      (zs.flatMap fun x => if x = y then [x, id] else [x]) = zs := by
    intro zs hzs
    induction zs with
    | nil => rfl
    | cons z zs ih =>
      rw [List.mem_cons, not_or] at hzs
      rw [List.flatMap_cons, if_neg (Ne.symm hzs.1), ih hzs.2]
      rfl
  by_cases hy : y ∈ ids
  · obtain ⟨xs, ys, rfl⟩ := List.append_of_mem hy
    have hxs : y ∉ xs := fun hmem =>
      (List.nodup_append.1 hnd).2.2 y hmem y List.mem_cons_self rfl
    have hys : y ∉ ys := (List.nodup_cons.1 (List.nodup_append.1 hnd).2.1).1
    rw [insertBehind_append hxs, List.flatMap_append, List.flatMap_cons, hskip xs hxs,
      hskip ys hys, if_pos rfl]
    rfl
  · rw [hskip ids hy]
    exact insertBehind_of_not_mem (by simp) fun x hx he => hy (by cases he; exact hx)

/-- Putting a task into the lists behind a position is `Roster.put`. -/
theorem roster_put (p : Anchor) (id : TaskId) (hnd : ∀ u, (lists u).Nodup) :
    (⟨b.users, b.tasks, fun u => insertBehind p id (.user u) (lists u)⟩ : Roster) =
      (⟨b.users, b.tasks, lists⟩ : Roster).put p id := by
  cases p with
  | user v =>
    refine congrArg (Roster.mk b.users b.tasks) (funext fun u => ?_)
    rw [insertBehind_user, Function.update_apply]
    by_cases h : u = v
    · rw [if_pos h, if_pos h, h]
    · rw [if_neg h, if_neg h]
  | task y =>
    exact congrArg (Roster.mk b.users b.tasks) (funext fun u => insertBehind_task y u id (hnd u))

/-- Linking a task puts it at the position. -/
theorem Arranged.roster_linkAfter (h : s.Arranged lists) (hs : s.linkAfter p id = .ok s') :
    s'.roster = s.roster.put p id := by
  obtain ⟨harr, hbare⟩ := h.linkAfter hs
  rw [harr.roster_eq hbare, roster_put p id h.nodup, h.roster_eq rfl]

/-- Unlinking a task takes it out of its list. -/
theorem Arranged.roster_unlink {r : Option Anchor} (h : s.Arranged lists)
    (hs : unlink id s = (.ok r, s')) : s'.roster = s.roster.take id := by
  cases ht : s.task? id with
  | none =>
    rw [unlink_of_task?_eq_none ht] at hs
    cases hs
  | some t =>
    obtain ⟨s₁, hunlink, harr, hbare⟩ := h.exists_unlink ht
    rw [hunlink] at hs
    cases hs
    rw [harr.roster_eq hbare, h.roster_eq rfl]
    rfl

/-- Relinking a task takes it out of its list and puts it at the position. -/
theorem Arranged.roster_relink (h : s.Arranged lists) (hs : relink id p s = (.ok (), s')) :
    s'.roster = (s.roster.take id).put p id := by
  obtain ⟨s₁, harr, hbare, hlink⟩ := h.exists_of_relink_ok hs
  rw [harr.roster_linkAfter hlink, harr.roster_eq hbare, h.roster_eq rfl]
  rfl

/-- Removing a task takes it out of its list and drops it. -/
theorem Arranged.roster_removeTask {r : Option Task} (h : s.Arranged lists)
    (hs : removeTask id s = (.ok r, s')) : s'.roster = s.roster.drop id := by
  obtain ⟨r', s₁, hok, harr, hbare⟩ := h.exists_removeTask id
  rw [hok] at hs
  cases hs
  rw [harr.roster_eq hbare, h.roster_eq rfl]
  rfl

/-! ## adding and pinning -/

/-- Adding a task, seen as a roster. -/
theorem Arranged.roster_withTask (h : s.Arranged lists) (ht : s.task? t.id = none) :
    (s.withTask t).roster = s.roster.add t := by
  rw [(h.withTask ht).roster_eq (bare_withTask s t), h.roster_eq rfl]
  rfl

/-- Pinning a task, seen as a roster. -/
theorem Arranged.roster_setPinned (h : s.Arranged lists) (id : TaskId) (pinned : Bool) :
    (s.modifyTask id fun t => { t with pinned }).roster = s.roster.pin id pinned := by
  rw [(h.setPinned id pinned).roster_eq (bare_setPinned s id pinned), h.roster_eq rfl]
  rfl

/-! ## the end of a run -/

/-- The position that a list ends at is its last task, if it has one. -/
theorem lastPosition_eq (a : Anchor) (ids : List TaskId) :
    lastPosition a ids = match ids.getLast? with
      | some x => .task x
      | none => a := by
  cases ids using List.reverseRecOn with
  | nil => rfl
  | append_singleton xs x => simp

/-- The roster says who is pinned as the tasks do. -/
theorem isPinned_roster (s : Solution) (id : TaskId) :
    s.roster.isPinned id = (s.task? id).any (·.pinned) := by
  rw [Roster.isPinned, get?_roster_tasks, Option.any_map]
  rfl

/-- The leading pinned tasks of a chain are those of its list. -/
theorem Chained.map_id_takeWhile_chain (h : s.Chained lists) (u : UserId) :
    ((s.chain u).takeWhile (·.pinned)).map (·.id) = (lists u).takeWhile s.roster.isPinned := by
  rw [h.chain_eq]
  have hmem : ∀ x ∈ lists u, ∃ t, s.task? x = some t := fun x hx => h.mem_tasks hx
  generalize lists u = ids at hmem
  induction ids with
  | nil => rfl
  | cons x xs ih =>
    obtain ⟨t, ht⟩ := hmem x List.mem_cons_self
    have hpinned : s.roster.isPinned x = t.pinned := by rw [isPinned_roster, ht, Option.any_some]
    rw [List.filterMap_cons_some ht, List.takeWhile_cons, List.takeWhile_cons, hpinned]
    cases t.pinned with
    | false => rfl
    | true =>
      rw [if_pos rfl, if_pos rfl, List.map_cons, h.keyed.task_id ht,
        ih fun y hy => hmem y (List.mem_cons_of_mem x hy)]

/-- The position behind the leading pinned tasks is the last one of that run. -/
theorem Chained.pinnedRunEnd_eq (h : s.Chained lists) (hu : s.containsUser u = true) :
    s.pinnedRunEnd u =
      .ok (lastPosition (.user u) ((lists u).takeWhile s.roster.isPinned)) := by
  rw [pinnedRunEnd, if_pos hu, lastPosition_eq, ← h.map_id_takeWhile_chain, List.getLast?_map]
  cases ((s.chain u).takeWhile (·.pinned)).getLast? <;> rfl

/-- The end of a chain is the last position of its list. -/
theorem Chained.chainTail_eq (h : s.Chained lists) (u : UserId) :
    s.chainTail u = lastPosition (.user u) (lists u) := by
  have hids := congrFun h.chainIds_eq u
  rw [chainTail, lastPosition_eq, ← hids, chainIds, List.getLast?_map]
  cases (s.chain u).getLast? <;> rfl

end Solution

end ChainPlanner
