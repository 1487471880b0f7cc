import ChainPlanner.Proofs.Chain.Reachable

/-!
# ChainPlanner.Proofs.Chain.Refinement

The linked solution refines the roster.  Each operation that succeeds on a reachable solution is one
operation on lists, and beside the task it is about it leaves everything as it was:
`Roster.SameBeside` says so of the workers, of the other tasks and their stored order, and of the
order of the other tasks in every list.
-/

namespace ChainPlanner

namespace Roster

variable {r r' r'' : Roster} {id y : TaskId} {u : UserId} {t : Task}

/-- Two rosters differ in nothing but one task and its place. -/
structure SameBeside (r r' : Roster) (id : TaskId) : Prop where
  users : r'.users = r.users
  keys : r'.tasks.keys.erase id = r.tasks.keys.erase id
  tasks : ∀ x, x ≠ id → r'.tasks.get? x = r.tasks.get? x
  lists : ∀ u, (r'.lists u).erase id = (r.lists u).erase id

namespace SameBeside

/-- What two edits leave alone, both leave alone. -/
theorem trans (h : r.SameBeside r' id) (h' : r'.SameBeside r'' id) : r.SameBeside r'' id where
  users := h'.users.trans h.users
  keys := h'.keys.trans h.keys
  tasks x hx := (h'.tasks x hx).trans (h.tasks x hx)
  lists u := (h'.lists u).trans (h.lists u)

/-- Rosters that differ in their lists only. -/
theorem of_lists {lists : UserId → List TaskId}
    (h : ∀ u, (lists u).erase id = (r.lists u).erase id) :
    r.SameBeside { r with lists } id where
  users := rfl
  keys := rfl
  tasks _ _ := rfl
  lists := h

/-- A task at the head of a list leaves the order of the others. -/
theorem putFirst (hid : ∀ v, id ∉ r.lists v) : r.SameBeside (r.putFirst u id) id := by
  have hlists : ∀ v, (Function.update r.lists u (id :: r.lists u) v).erase id =
      (r.lists v).erase id := by
    intro v
    by_cases hv : v = u
    · rw [hv, Function.update_self, List.erase_cons_head, List.erase_of_not_mem (hid u)]
    · rw [Function.update_of_ne hv]
  exact of_lists hlists

/-- A task behind another one leaves the order of the others. -/
theorem putAfter (hid : ∀ v, id ∉ r.lists v) (hnd : ∀ v, (r.lists v).Nodup) :
    r.SameBeside (r.putAfter y id) id := by
  have hlists : ∀ v, ((r.lists v).flatMap fun x => if x = y then [x, id] else [x]).erase id =
      (r.lists v).erase id := by
    intro v
    rw [← Solution.insertBehind_task y v id (hnd v), Solution.erase_insertBehind (hid v),
      List.erase_of_not_mem (hid v)]
  exact of_lists hlists

/-- A task at a position leaves the order of the others. -/
theorem put (p : Anchor) (hid : ∀ v, id ∉ r.lists v) (hnd : ∀ v, (r.lists v).Nodup) :
    r.SameBeside (r.put p id) id := by
  cases p with
  | user u => exact putFirst hid
  | task y => exact putAfter hid hnd

/-- A task that leaves its list leaves the order of the others. -/
theorem take (hnd : ∀ v, (r.lists v).Nodup) : r.SameBeside (r.take id) id := by
  have hlists : ∀ v, ((r.lists v).erase id).erase id = (r.lists v).erase id := fun v =>
    List.erase_of_not_mem (hnd v).not_mem_erase
  exact of_lists hlists

/-- A dropped task leaves the others. -/
theorem drop (hnd : ∀ v, (r.lists v).Nodup) : r.SameBeside (r.drop id) id where
  users := rfl
  keys := by
    have hkeys : (r.tasks.erase id).keys = r.tasks.keys.erase id := by
      rw [KeyedList.keys_erase, r.tasks.nodup_keys.erase_eq_filter]
      exact List.filter_congr fun x _ => by simp [bne, beq_eq_decide]
    have hid : id ∉ r.tasks.keys.erase id := r.tasks.nodup_keys.not_mem_erase
    show (r.tasks.erase id).keys.erase id = _
    rw [hkeys, List.erase_of_not_mem hid]
  tasks x hx := (KeyedList.get?_erase r.tasks id x).trans (if_neg hx)
  lists := (take hnd).lists

/-- Pinning a task leaves the others. -/
theorem pin (pinned : Bool) : r.SameBeside (r.pin id pinned) id where
  users := rfl
  keys := by
    show (r.tasks.modify id _).keys.erase id = _
    rw [KeyedList.keys_modify]
  tasks x hx := (KeyedList.get?_modify r.tasks id x _).trans (if_neg hx)
  lists _ := rfl

/-- A new task comes after the others in stored order. -/
theorem add (ht : r.tasks.get? t.id = none) : r.SameBeside (r.add t) t.id where
  users := rfl
  keys := by
    have hid : t.id ∉ r.tasks.keys := KeyedList.get?_eq_none_iff.1 ht
    show (r.tasks.insert t.id t.detached).keys.erase t.id = _
    rw [KeyedList.keys_insert, if_neg hid, List.erase_append_right _ hid, List.erase_of_not_mem hid]
    simp
  tasks x hx := (KeyedList.get?_insert r.tasks t.id x t.detached).trans (if_neg hx)
  lists _ := rfl

/-- A task behind the pinned ones leaves the order of the others. -/
theorem putBehindPinned (hid : ∀ v, id ∉ r.lists v) :
    r.SameBeside (r.putBehindPinned u id) id := by
  have hlists : ∀ v, (Function.update r.lists u ((r.lists u).takeWhile r.isPinned ++
      id :: (r.lists u).dropWhile r.isPinned) v).erase id = (r.lists v).erase id := by
    intro v
    by_cases hv : v = u
    · have hrun : id ∉ (r.lists u).takeWhile r.isPinned := fun hmem =>
        hid u ((List.takeWhile_sublist _).subset hmem)
      rw [hv, Function.update_self, List.erase_append_right _ hrun, List.erase_cons_head,
        List.takeWhile_append_dropWhile, List.erase_of_not_mem (hid u)]
    · rw [Function.update_of_ne hv]
  exact of_lists hlists

/-- An assignment leaves the others, whether the task is new or not. -/
theorem assign (hnd : ∀ v, (r.lists v).Nodup) (hin : ∀ v, ∀ x ∈ r.lists v, r.tasks.contains x) :
    r.SameBeside (r.assign t u) t.id := by
  have hrest : ∀ {r₁ : Roster}, r.SameBeside r₁ t.id → (∀ v, t.id ∉ r₁.lists v) →
      r.SameBeside ((r₁.putBehindPinned u t.id).pin t.id true) t.id := fun h hid =>
    (h.trans (putBehindPinned hid)).trans (pin true)
  rw [Roster.assign]
  split
  · exact hrest (take hnd) fun v => (hnd v).not_mem_erase
  · next hno =>
    have hnone : r.tasks.get? t.id = none := by simpa [KeyedList.contains] using hno
    exact hrest (add hnone) fun v hmem => hno (hin v t.id hmem)

/-- A release leaves the others. -/
theorem release (hnd : ∀ v, (r.lists v).Nodup) : r.SameBeside (r.release id) id :=
  (take hnd).trans (pin false)

end SameBeside

end Roster

namespace Solution

variable {s s' : Solution} {lists : UserId → List TaskId} {p : Anchor} {id : TaskId}

/-- Where a task has been linked is in somebody's chain. -/
theorem Arranged.linkAfter_position (h : s.Arranged lists) (hs : s.linkAfter p id = .ok s') :
    (∀ v, id ∉ lists v) ∧ (∀ u, p = .user u → s.containsUser u = true) ∧
      ∀ y, p = .task y → ∃ u, y ∈ lists u := by
  obtain ⟨-, t, ht, hprev, -, hnext, -⟩ := linkAfter_eq_ok_iff.1 hs
  obtain ⟨hmiss, -⟩ := nextOf_eq_ok_iff.1 hnext
  obtain ⟨u, hpos⟩ := h.toChained.exists_isPosition hnext
  have huser : ∀ u, p = .user u → s.containsUser u = true := by
    rintro u rfl
    by_contra hu
    rw [missing?, if_neg hu] at hmiss
    cases hmiss
  exact ⟨fun v => h.not_mem_of_previous ht hprev, huser, fun y hy => ⟨u, (hy ▸ hpos).mem_of_task⟩⟩

/-- On a reachable solution, linking after a worker puts a task at the head of its list, linking
after a task puts it directly after that task, unlinking takes it out of its list, relinking takes
it out and puts it in again, removing takes it out and drops it, assigning takes it out or adds it,
puts it behind the leading pinned tasks of the worker's remaining list and pins it, and releasing
takes it out and unpins it.  Beside that task, nothing but links and times changes. -/
theorem refines_roster (hs : s.Reachable) :
    (∀ u id s', s.linkAfter (.user u) id = .ok s' → s.containsUser u = true ∧
      s'.roster = s.roster.putFirst u id ∧ s.roster.SameBeside s'.roster id) ∧
    (∀ y id s', s.linkAfter (.task y) id = .ok s' → (∃ u, y ∈ s.roster.lists u) ∧
      s'.roster = s.roster.putAfter y id ∧ s.roster.SameBeside s'.roster id) ∧
    (∀ id r s', unlink id s = (.ok r, s') →
      s'.roster = s.roster.take id ∧ s.roster.SameBeside s'.roster id) ∧
    (∀ u id s', relink id (.user u) s = (.ok (), s') → s.containsUser u = true ∧
      s'.roster = (s.roster.take id).putFirst u id ∧ s.roster.SameBeside s'.roster id) ∧
    (∀ y id s', relink id (.task y) s = (.ok (), s') → (∃ u, y ∈ (s.roster.take id).lists u) ∧
      s'.roster = (s.roster.take id).putAfter y id ∧ s.roster.SameBeside s'.roster id) ∧
    (∀ id r s', removeTask id s = (.ok r, s') →
      s'.roster = s.roster.drop id ∧ s.roster.SameBeside s'.roster id) ∧
    (∀ t u s', (Mutation.assign t u).apply s = (.ok (), s') →
      s'.roster = s.roster.assign t u ∧ s.roster.SameBeside s'.roster t.id) ∧
    (∀ id s', (Mutation.release id).apply s = (.ok (), s') →
      s'.roster = s.roster.release id ∧ s.roster.SameBeside s'.roster id) := by
  have h := hs.arranged
  have hnd : ∀ v, (s.roster.lists v).Nodup := h.nodup_roster
  have htaken : ∀ id v, id ∉ (s.roster.take id).lists v := fun id v => (hnd v).not_mem_erase
  have htakenNodup : ∀ id v, ((s.roster.take id).lists v).Nodup := fun id v => (hnd v).erase id
  have hlink : ∀ p id s', s.linkAfter p id = .ok s' →
      s'.roster = s.roster.put p id ∧ s.roster.SameBeside s'.roster id := by
    intro p id s' hok
    have hroster := h.roster_linkAfter hok
    rw [hroster]
    exact ⟨rfl, .put p (h.linkAfter_position hok).1 hnd⟩
  -- relinking is linking in the solution that unlinking leaves
  have hrelink : ∀ p id s', relink id p s = (.ok (), s') →
      (∀ u, p = .user u → s.containsUser u = true) ∧
        (∀ y, p = .task y → ∃ u, y ∈ (s.roster.take id).lists u) ∧
        s'.roster = (s.roster.take id).put p id ∧ s.roster.SameBeside s'.roster id := by
    intro p id s' hok
    obtain ⟨s₁, harr, hbare, hlink₁⟩ := h.exists_of_relink_ok hok
    obtain ⟨-, huser, htask⟩ := harr.linkAfter_position hlink₁
    have hroster := h.roster_relink hok
    rw [hroster]
    exact ⟨fun u hu => by rw [← containsUser_bare, ← hbare, containsUser_bare]; exact huser u hu,
      htask, rfl, (Roster.SameBeside.take hnd).trans (.put p (htaken id) (htakenNodup id))⟩
  constructor
  · intro u id s' hok
    exact ⟨(h.linkAfter_position hok).2.1 u rfl, hlink _ id s' hok⟩
  constructor
  · intro y id s' hok
    exact ⟨(h.linkAfter_position hok).2.2 y rfl, hlink _ id s' hok⟩
  constructor
  · intro id r s' hok
    have hroster := h.roster_unlink hok
    rw [hroster]
    exact ⟨rfl, .take hnd⟩
  constructor
  · intro u id s' hok
    obtain ⟨huser, -, hrest⟩ := hrelink _ id s' hok
    exact ⟨huser u rfl, hrest⟩
  constructor
  · intro y id s' hok
    obtain ⟨-, htask, hrest⟩ := hrelink _ id s' hok
    exact ⟨htask y rfl, hrest⟩
  constructor
  · intro id r s' hok
    have hroster := h.roster_removeTask hok
    rw [hroster]
    exact ⟨rfl, .drop hnd⟩
  constructor
  · intro t u s' hok
    have hroster := Mutation.roster_of_apply_assign h hok
    rw [hroster]
    exact ⟨rfl, .assign hnd h.contains_of_mem_roster⟩
  · intro id s' hok
    obtain ⟨s₁, -, hok', -, hroster⟩ := Mutation.exists_apply_release h id
    rw [hok'] at hok
    cases hok
    rw [hroster]
    exact ⟨rfl, .release hnd⟩

/-- Calls that leave a worker with a chain of two tasks, and a third task in no chain. -/
def callsForThree : List Operation :=
  let task (n : Int64) : Task := .ofId ⟨n⟩ "" .lowest
  [.addUser (.ofId ⟨"ann"⟩), .addTask (task 1), .addTask (task 2), .addTask (task 3),
    .linkAfter (.user ⟨"ann"⟩) ⟨1⟩, .linkAfter (.task ⟨1⟩) ⟨2⟩]

/-- The third task goes between the two. -/
theorem refines_roster_between :
    (Operation.runAll callsForThree ∅).Reachable ∧
      (Operation.runAll callsForThree ∅).chainIds ⟨"ann"⟩ = [⟨1⟩, ⟨2⟩] ∧
      ∃ s', (Operation.runAll callsForThree ∅).linkAfter (.task ⟨1⟩) ⟨3⟩ = .ok s' ∧
        s'.chainIds ⟨"ann"⟩ = [⟨1⟩, ⟨3⟩, ⟨2⟩] ∧
        s'.roster = (Operation.runAll callsForThree ∅).roster.putAfter ⟨1⟩ ⟨3⟩ := by
  have hreach : (Operation.runAll callsForThree ∅).Reachable := ⟨callsForThree, rfl⟩
  have hlink : (Operation.runAll callsForThree ∅).linkAfter (.task ⟨1⟩) ⟨3⟩ =
      .ok (Operation.run (.linkAfter (.task ⟨1⟩) ⟨3⟩) (Operation.runAll callsForThree ∅)) := by
    decide +kernel
  exact ⟨hreach, by decide +kernel, _, hlink, by decide +kernel,
    ((refines_roster hreach).2.1 ⟨1⟩ ⟨3⟩ _ hlink).2.1⟩

end Solution

end ChainPlanner
