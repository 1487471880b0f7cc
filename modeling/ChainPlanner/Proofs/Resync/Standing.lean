import ChainPlanner.Proofs.Chain.Placing

/-!
# ChainPlanner.Proofs.Resync.Standing

How a task stands in a solution, as far as mutations are concerned: whether it is there, whether it
is pinned, and to whom it is assigned.  A mutation that finds what it needs changes the standing of
the task that it is about, in a way that depends on nothing else, and of no other task.  So
mutations about different tasks do not get into each other's way.
-/

namespace ChainPlanner

open Solution

/-- How a task stands. -/
structure Standing where
  /-- Whether the task is pinned; none if it is not there. -/
  pinned : Option Bool
  /-- The worker whose chain the task is in. -/
  user : Option UserId
  deriving DecidableEq

namespace Solution

variable {s s' : Solution} {lists lists' : UserId → List TaskId} {u : UserId} {id x : TaskId}

/-- How a task stands in a solution. -/
def standing (s : Solution) (id : TaskId) : Standing :=
  ⟨(s.task? id).map (·.pinned), s.assignedUser? id⟩

/-- A task stands nowhere exactly if it is not there. -/
theorem pinned_standing_eq_none_iff : (s.standing x).pinned = none ↔ s.task? x = none :=
  Option.map_eq_none_iff

theorem containsTask_iff_standing :
    s.containsTask x = true ↔ (s.standing x).pinned.isSome = true := by
  rw [containsTask_iff, standing, Option.isSome_map, Option.isSome_iff_exists]

/-- A task that is not there is in no chain. -/
theorem Chained.standing_of_absent (h : s.Chained lists) (hx : s.task? x = none) :
    s.standing x = ⟨none, none⟩ := by
  rw [standing, hx, h.assignedUser?_eq_none_iff.2 fun u => h.not_mem_of_absent hx]
  rfl

/-- The roster says who is pinned as the tasks do. -/
theorem pinned_roster (s : Solution) (x : TaskId) :
    (s.roster.tasks.get? x).map (·.pinned) = (s.standing x).pinned := by
  rw [get?_roster_tasks, Option.map_map]
  rfl

/-- A worker lists the tasks that belong to it. -/
theorem Chained.mem_roster_lists (h : s.Chained lists) :
    x ∈ s.roster.lists u ↔ (s.standing x).user = some u := by
  rw [h.roster_lists]
  exact h.assignedUser?_eq_some_iff.symm

/-- A roster determines how the tasks stand. -/
theorem Chained.standing_eq (h : s.Chained lists) {st : Standing}
    (hpinned : (s.roster.tasks.get? x).map (·.pinned) = st.pinned)
    (huser : ∀ u, x ∈ s.roster.lists u ↔ st.user = some u) : s.standing x = st := by
  have huser' : (s.standing x).user = st.user := by
    apply Option.ext
    intro u
    rw [← h.mem_roster_lists, huser]
  rw [pinned_roster] at hpinned
  cases st
  cases hst : s.standing x
  simp_all

/-- A task that an edit is not about stands as before. -/
theorem Chained.standing_of_sameBeside (h : s.Chained lists) (h' : s'.Chained lists')
    (hbeside : s.roster.SameBeside s'.roster id) (hx : x ≠ id) : s'.standing x = s.standing x := by
  apply h'.standing_eq
  · rw [hbeside.tasks x hx, pinned_roster]
  · intro u
    rw [← h.mem_roster_lists, ← List.mem_erase_of_ne hx, hbeside.lists u, List.mem_erase_of_ne hx]

/-- An edit of a task leaves the workers. -/
theorem containsUser_of_sameBeside (hbeside : s.roster.SameBeside s'.roster id) (u : UserId) :
    s'.containsUser u = s.containsUser u := by
  rw [← contains_roster_users, hbeside.users, contains_roster_users]

/-- Whoever has a task is there. -/
theorem Chained.containsUser_of_standing (h : s.Chained lists)
    (hu : (s.standing x).user = some u) : s.containsUser u = true := by
  have hmem : x ∈ lists u := h.assignedUser?_eq_some_iff.1 hu
  by_contra hno
  rw [h.list_of_absent (containsUser_eq_false.1 (Bool.eq_false_iff.2 hno))] at hmem
  cases hmem

/-- Where lists only get longer, no task is pinned or unpinned, and whoever has a task keeps it. -/
theorem Chained.standing_of_grows (h : s.Chained lists) (h' : s'.Chained lists')
    (hgrows : s.roster.Grows s'.roster) : (s'.standing x).pinned = (s.standing x).pinned ∧
      ((s.standing x).user = some u → (s'.standing x).user = some u) := by
  rw [← pinned_roster, ← pinned_roster, hgrows.tasks, ← h.mem_roster_lists, ← h'.mem_roster_lists]
  exact ⟨rfl, hgrows.mem⟩

end Solution

namespace Roster

variable {r : Roster} {t : Task} {u v : UserId} {id x : TaskId}

/-- An assigned task is in one list, if it was in at most one before. -/
theorem mem_assign (hnd : ∀ v, (r.lists v).Nodup)
    (hin : ∀ v, ∀ x ∈ r.lists v, r.tasks.contains x = true) :
    t.id ∈ (r.assign t u).lists v ↔ v = u := by
  rw [assign, pin, mem_putBehindPinned]
  split
  · simp [take, (hnd v).mem_erase_iff]
  · next hno =>
    have hid : t.id ∉ r.lists v := fun hmem => hno (hin v t.id hmem)
    simp [add, hid]

/-- An assigned task is pinned. -/
theorem pinned_assign : ((r.assign t u).tasks.get? t.id).map (·.pinned) = some true := by
  rw [assign, pin, KeyedList.get?_modify, if_pos rfl, putBehindPinned]
  split
  · next hyes =>
    obtain ⟨w, hw⟩ := Option.isSome_iff_exists.1 hyes
    simp [take, hw]
  · simp [add, KeyedList.get?_insert]

end Roster

namespace Mutation

variable {s s' : Solution} {lists : UserId → List TaskId} {u : UserId} {id x : TaskId} {t : Task}
  {m : Mutation} {ms : List Mutation}

/-- What a mutation needs: a task that is added must be absent, and the worker it is assigned to
must be there. -/
def Applicable (s : Solution) : Mutation → Prop
  | add t => s.task? t.id = none
  | assign _ u => s.containsUser u = true
  | remove _ => True
  | release _ => True

/-- What a mutation makes of the standing of the task that it is about. -/
def effect : Mutation → Standing → Standing
  | add t, _ => ⟨some t.pinned, none⟩
  | assign _ u, _ => ⟨some true, some u⟩
  | remove _, _ => ⟨none, none⟩
  | release _, st => ⟨st.pinned.map fun _ => false, none⟩

/-! ## one mutation -/

/-- How an added task stands. -/
theorem standing_of_add (h : s.Arranged lists) (ht : s.task? t.id = none) :
    (s.withTask t).standing t.id = ⟨some t.pinned, none⟩ := by
  have hroster := h.roster_withTask ht
  apply (h.withTask ht).standing_eq
  · rw [hroster, Roster.add, KeyedList.get?_insert, if_pos rfl]
    rfl
  · intro u
    have hno : t.id ∉ s.roster.lists u := by
      rw [h.roster_lists]
      exact h.not_mem_of_absent ht
    rw [hroster, Roster.add]
    simp [hno]

/-- How an assigned task stands. -/
theorem standing_of_assign (h : s.Arranged lists) (h' : s'.Arranged lists')
    (hroster : s'.roster = s.roster.assign t u) : s'.standing t.id = ⟨some true, some u⟩ := by
  apply h'.standing_eq
  · rw [hroster, Roster.pinned_assign]
  · intro v
    rw [hroster, Roster.mem_assign h.nodup_roster h.contains_of_mem_roster, Option.some_inj,
      eq_comm]

/-- A removed task stands nowhere. -/
theorem standing_of_remove (h : s.Arranged lists) (h' : s'.Arranged lists')
    (hroster : s'.roster = s.roster.drop id) : s'.standing id = ⟨none, none⟩ := by
  apply h'.standing_eq
  · rw [hroster, Roster.drop, KeyedList.get?_erase, if_pos rfl]
    rfl
  · intro v
    rw [hroster, Roster.drop, Roster.take, (h.nodup_roster v).mem_erase_iff]
    simp

/-- How a released task stands. -/
theorem standing_of_release (h : s.Arranged lists) (h' : s'.Arranged lists')
    (hroster : s'.roster = s.roster.release id) :
    s'.standing id = ⟨(s.standing id).pinned.map fun _ => false, none⟩ := by
  apply h'.standing_eq
  · rw [hroster, Roster.release, Roster.pin, Roster.take, KeyedList.get?_modify, if_pos rfl,
      ← pinned_roster, Option.map_map, Option.map_map]
    rfl
  · intro v
    rw [hroster, Roster.release, Roster.pin, Roster.take, (h.nodup_roster v).mem_erase_iff]
    simp

/-- A change that can be made is made, and is seen in its own task only. -/
theorem exists_apply_standing (h : s.Arranged lists) (hm : m.Applicable s) :
    ∃ s' lists', m.apply s = (.ok (), s') ∧ s'.Arranged lists' ∧
      s.roster.SameBeside s'.roster m.taskId ∧
      s'.standing m.taskId = m.effect (s.standing m.taskId) := by
  cases m with
  | add t =>
    have hnone : s.roster.tasks.get? t.id = none := by
      rw [get?_roster_tasks, show s.task? t.id = none from hm]
      rfl
    have hbeside : s.roster.SameBeside (s.withTask t).roster t.id := by
      rw [h.roster_withTask hm]
      exact .add hnone
    have hstanding := standing_of_add h hm
    exact ⟨s.withTask t, lists, apply_add_of_absent hm, h.withTask hm, hbeside, hstanding⟩
  | assign t u =>
    obtain ⟨s', lists', hok, harr, hroster⟩ := exists_apply_assign h hm t
    have hbeside : s.roster.SameBeside s'.roster t.id := by
      rw [hroster]
      exact .assign h.nodup_roster h.contains_of_mem_roster
    exact ⟨s', lists', hok, harr, hbeside, standing_of_assign h harr hroster⟩
  | remove id =>
    obtain ⟨s', lists', hok, harr, hroster⟩ := exists_apply_remove h id
    have hbeside : s.roster.SameBeside s'.roster id := by
      rw [hroster]
      exact .drop h.nodup_roster
    exact ⟨s', lists', hok, harr, hbeside, standing_of_remove h harr hroster⟩
  | release id =>
    obtain ⟨s', lists', hok, harr, hroster⟩ := exists_apply_release h id
    have hbeside : s.roster.SameBeside s'.roster id := by
      rw [hroster]
      exact .release h.nodup_roster
    exact ⟨s', lists', hok, harr, hbeside, standing_of_release h harr hroster⟩

/-- Whether a change can be made depends on how its task stands and on the workers. -/
theorem applicable_congr (hm : m.Applicable s) (htask : s'.standing m.taskId = s.standing m.taskId)
    (huser : ∀ u, s'.containsUser u = s.containsUser u) : m.Applicable s' := by
  cases m with
  | add t =>
    have hnone := pinned_standing_eq_none_iff.2 hm
    exact pinned_standing_eq_none_iff.1 (by rw [← hnone]; exact congrArg Standing.pinned htask)
  | assign t u => exact (huser u).trans hm
  | remove id => trivial
  | release id => trivial

/-! ## mutations of different tasks -/

/-- A view of the tasks one by one: what a mutation is about decides what becomes of the view of
that task, and nothing else of the view changes. -/
structure Local {β : Type} (view : Solution → TaskId → β) (effect : Mutation → β → β) : Prop where
  own : ∀ {s s' lists lists'} {m : Mutation}, s.Arranged lists → s'.Arranged lists' →
    m.Applicable s → m.apply s = (.ok (), s') → view s' m.taskId = effect m (view s m.taskId)
  other : ∀ {s s' lists lists' id x}, s.Arranged lists → s'.Arranged lists' →
    s.roster.SameBeside s'.roster id → x ≠ id → view s' x = view s x

/-- How a task stands is changed by the changes of that task only. -/
theorem local_standing : Local standing effect where
  own := by
    intro s s' lists lists' m h _ hm hok
    obtain ⟨s₁, -, hok₁, -, -, hown⟩ := exists_apply_standing h hm
    rw [hok] at hok₁
    cases hok₁
    exact hown
  other h h' hbeside hx := h.standing_of_sameBeside h'.toChained hbeside hx

/-- Mutations about different tasks, each of which finds what it needs at the start, all work, and
each makes of a local view of its task at the start what it would alone. -/
theorem exists_applyAll_local {β : Type} {view : Solution → TaskId → β}
    {effect : Mutation → β → β} (hview : Local view effect) (h : s.Arranged lists)
    (hms : ∀ m ∈ ms, m.Applicable s) (hnd : (ms.map taskId).Nodup) :
    ∃ s' lists', applyAll ms s = (.ok (), s') ∧ s'.Arranged lists' ∧
      (∀ u, s'.containsUser u = s.containsUser u) ∧
      (∀ m ∈ ms, view s' m.taskId = effect m (view s m.taskId)) ∧
      ∀ x, x ∉ ms.map taskId → view s' x = view s x := by
  induction ms generalizing s lists with
  | nil => exact ⟨s, lists, rfl, h, fun _ => rfl, by simp, fun _ _ => rfl⟩
  | cons m ms ih =>
    have hm := hms m List.mem_cons_self
    obtain ⟨s₁, lists₁, hok, h₁, hbeside, -⟩ := exists_apply_standing h hm
    rw [List.map_cons, List.nodup_cons] at hnd
    have hother : ∀ x, x ≠ m.taskId → view s₁ x = view s x := fun x hx =>
      hview.other h h₁ hbeside hx
    have huser := containsUser_of_sameBeside hbeside
    have hne : ∀ m' ∈ ms, m'.taskId ≠ m.taskId := fun m' hm' heq =>
      hnd.1 (heq ▸ List.mem_map_of_mem hm')
    have happ : ∀ m' ∈ ms, m'.Applicable s₁ := fun m' hm' =>
      applicable_congr (hms m' (List.mem_cons_of_mem m hm'))
        (h.standing_of_sameBeside h₁.toChained hbeside (hne m' hm')) huser
    obtain ⟨s', lists', hall, h', huser', heffect, hsame⟩ := ih h₁ happ hnd.2
    have htail : ∀ m' ∈ ms, view s' m'.taskId = effect m' (view s m'.taskId) := by
      intro m' hm'
      rw [heffect m' hm', hother _ (hne m' hm')]
    have hhead : view s' m.taskId = effect m (view s m.taskId) := by
      rw [hsame m.taskId hnd.1, hview.own h h₁ hm hok]
    have hrest : ∀ x, x ∉ (m :: ms).map taskId → view s' x = view s x := by
      intro x hx
      rw [List.map_cons, List.mem_cons, not_or] at hx
      rw [hsame x hx.2, hother x hx.1]
    exact ⟨s', lists', by rw [applyAll_cons_of_ok hok, hall], h',
      fun u => (huser' u).trans (huser u), List.forall_mem_cons.2 ⟨hhead, htail⟩, hrest⟩

/-- Mutations about different tasks, each of which finds what it needs at the start, all work, and
each makes of the standing of its task at the start what it would alone. -/
theorem exists_applyAll_standing (h : s.Arranged lists) (hms : ∀ m ∈ ms, m.Applicable s)
    (hnd : (ms.map taskId).Nodup) :
    ∃ s' lists', applyAll ms s = (.ok (), s') ∧ s'.Arranged lists' ∧
      (∀ u, s'.containsUser u = s.containsUser u) ∧
      (∀ m ∈ ms, s'.standing m.taskId = m.effect (s.standing m.taskId)) ∧
      ∀ x, x ∉ ms.map taskId → s'.standing x = s.standing x :=
  exists_applyAll_local local_standing h hms hnd

end Mutation

end ChainPlanner
