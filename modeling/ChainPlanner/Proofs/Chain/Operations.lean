import ChainPlanner.Mutation
import ChainPlanner.Proofs.Chain.Edits

/-!
# ChainPlanner.Proofs.Chain.Operations

The other operations on an arranged solution: those that touch no place (adding workers and tasks,
pinning, dropping a task in no chain), and those that are put together from smaller ones (relinking,
removing, and the four kinds of mutation).

For each there is one lemma that says what it answers and which lists it leaves.  The mutations have
theirs in terms of these in the next module, and no proof beyond it opens an `Edit`.
-/

namespace ChainPlanner

/-! ## edits in sequence -/

section Sequence

variable {ε α β : Type} {s s' : Solution} {e : Edit ε α} {f : α → Edit ε β}

/-- An edit that succeeds hands on its answer and its solution. -/
theorem Edit.bind_of_ok {a : α} (h : e s = (.ok a, s')) : (e >>= f) s = f a s' := by
  simp only [bind, ExceptT.bind, ExceptT.mk, StateT.bind, h]
  rfl

/-- An edit that fails ends the sequence and leaves its solution. -/
theorem Edit.bind_of_error {err : ε} (h : e s = (.error err, s')) :
    (e >>= f) s = (.error err, s') := by
  simp only [bind, ExceptT.bind, ExceptT.mk, StateT.bind, h]
  rfl

/-- Looking at the solution does not change it. -/
theorem Edit.bind_get {g : Solution → Edit ε β} : ((get : Edit ε Solution) >>= g) s = g s s := rfl

/-- An attempt that succeeds leaves its solution. -/
theorem Edit.attempt_of_ok {g : Solution → Except ε Solution} (h : g s = .ok s') :
    Edit.attempt g s = (.ok (), s') := by
  rw [Edit.attempt, h]

/-- An attempt that fails leaves the solution as it was. -/
theorem Edit.attempt_of_error {g : Solution → Except ε Solution} {err : ε} (h : g s = .error err) :
    Edit.attempt g s = (.error err, s) := by
  rw [Edit.attempt, h]

/-- A chain operation that succeeds is the same within a mutation. -/
theorem Mutation.chainEdit_of_ok {e : Edit ChainError α} {a : α} (h : e s = (.ok a, s')) :
    chainEdit e s = (.ok a, s') := by
  show ((e s).1.mapError MutationError.chain, (e s).2) = _
  rw [h]
  rfl

end Sequence

namespace Solution

variable {s s' : Solution} {lists : UserId → List TaskId} {u v : UserId} {p : Anchor}
  {id x : TaskId} {t : Task} {xs ys : List TaskId}

/-! ## operations that touch no place -/

/-- Where a task stands. -/
def spot (t : Task) : Option Anchor × Option TaskId × Minutes × Option Minutes × Option Minutes :=
  (t.previous, t.next, timing t)

/-- A solution stays arranged while heads of chains and places of linked tasks stay as they are. -/
theorem Arranged.of_spot (h : s.Arranged lists) (hkeyed : s'.Keyed)
    (hhead : ∀ u, s'.successor? (.user u) = s.successor? (.user u))
    (hspot : ∀ u, ∀ x ∈ lists u, (s'.task? x).map spot = (s.task? x).map spot)
    (hfree : ∀ {x t}, s'.task? x = some t → (∀ u, x ∉ lists u) → t.detached = t) :
    s'.Arranged lists := by
  -- each view of a linked task is a part of its place
  have hview : ∀ {β : Type} (g : Task → Option β), (∀ {t t'}, spot t = spot t' → g t = g t') →
      ∀ u, ∀ x ∈ lists u, (s'.task? x).bind g = (s.task? x).bind g := by
    intro β g hg u x hx
    obtain ⟨t, ht⟩ := h.mem_tasks hx
    have hx' := hspot u x hx
    rw [ht, Option.map_some] at hx'
    obtain ⟨t', ht', hsame⟩ := Option.map_eq_some_iff.1 hx'
    rw [ht, ht', Option.bind_some, Option.bind_some, hg hsame]
  have hnext : ∀ u c, c = .user u ∨ c ∈ (lists u).map Anchor.task →
      s'.successor? c = s.successor? c := by
    intro u c hc
    cases hc with
    | inl hc => rw [hc, hhead u]
    | inr hc =>
      obtain ⟨x, hx, rfl⟩ := List.mem_map.1 hc
      exact hview Task.next (fun he => congrArg (·.2.1) he) u x hx
  have hprev : ∀ u, ∀ x ∈ lists u, s'.predecessor? x = s.predecessor? x :=
    hview Task.previous fun he => congrArg (·.1) he
  have htiming : ∀ u, ∀ x ∈ lists u, (s'.task? x).map timing = (s.task? x).map timing := by
    intro u x hx
    have hpart := congrArg (Option.map (·.2.2)) (hspot u x hx)
    rw [Option.map_map, Option.map_map] at hpart
    exact hpart
  exact
    { keyed := hkeyed
      joined := fun u => (h.joined u).congr (hnext u) (hprev u)
      nodup := h.nodup
      disjoint := h.disjoint
      free := hfree
      timed := fun u => (h.timed u).congr rfl (htiming u) }

/-- Keys agree with ids after an edit if they do for every worker and task found. -/
theorem Keyed.of_task? (h : s.Keyed) (hu : ∀ {id w}, s'.user? id = some w → w.id = id)
    (ht : ∀ {id t}, s'.task? id = some t →
      (∃ t', s.task? id = some t' ∧ t'.id = t.id) ∨ t.id = id) :
    s'.Keyed where
  user_id hw := hu hw
  task_id hw := by
    rcases ht hw with ⟨t', ht', hid⟩ | hid
    · rw [← hid, h.task_id ht']
    · exact hid

/-- Pinning is seen in the task alone. -/
theorem task?_setPinned (s : Solution) (id x : TaskId) (pinned : Bool) :
    (s.modifyTask id fun t => { t with pinned }).task? x =
      if x = id then (s.task? x).map fun t => { t with pinned } else s.task? x :=
  task?_modifyTask s id x _

/-- Pinning changes no place. -/
theorem Arranged.setPinned (h : s.Arranged lists) (id : TaskId) (pinned : Bool) :
    (s.modifyTask id fun t => { t with pinned }).Arranged lists := by
  have hold : ∀ {x t}, (s.modifyTask id fun t => { t with pinned }).task? x = some t →
      ∃ t', s.task? x = some t' ∧ (t = { t' with pinned } ∨ t = t') := by
    intro x t ht
    rw [task?_setPinned] at ht
    split at ht
    · obtain ⟨t', ht', rfl⟩ := Option.map_eq_some_iff.1 ht
      exact ⟨t', ht', .inl rfl⟩
    · exact ⟨t, ht, .inr rfl⟩
  have hkeyed : (s.modifyTask id fun t => { t with pinned }).Keyed :=
    h.keyed.of_task? h.keyed.user_id fun ht => by
      obtain ⟨t', ht', rfl | rfl⟩ := hold ht
      · exact .inl ⟨t', ht', rfl⟩
      · exact .inl ⟨_, ht', rfl⟩
  have hspot : ∀ u, ∀ x ∈ lists u,
      ((s.modifyTask id fun t => { t with pinned }).task? x).map spot = (s.task? x).map spot := by
    intro u x hx
    rw [task?_setPinned]
    split
    · rw [Option.map_map]
      rfl
    · rfl
  have hfree : ∀ {x t}, (s.modifyTask id fun t => { t with pinned }).task? x = some t →
      (∀ u, x ∉ lists u) → t.detached = t := by
    intro x t ht hx
    obtain ⟨t', ht', rfl | rfl⟩ := hold ht
    · rw [← h.free ht' hx]
      rfl
    · exact h.free ht' hx
  exact h.of_spot hkeyed (fun _ => rfl) hspot hfree

/-- Pinning and forgetting links and times can be exchanged. -/
theorem bare_setPinned (s : Solution) (id : TaskId) (pinned : Bool) :
    (s.modifyTask id fun t => { t with pinned }).bare =
      s.bare.modifyTask id fun t => { t with pinned } :=
  congrArg (Solution.mk _) (KeyedList.map_modify_comm s.tasks id fun _ => rfl)

/-- A solution with one more task, in no chain. -/
def withTask (s : Solution) (t : Task) : Solution :=
  { s with tasks := s.tasks.insert t.id t.detached }

/-- A task is added unless it is there. -/
theorem addTask_eq (s : Solution) (t : Task) : s.addTask t =
    if s.containsTask t.id then .error (.duplicateTask t.id) else .ok (s.withTask t) := rfl

/-- The added task is found without links and times, every other one as before. -/
theorem task?_withTask (s : Solution) (t : Task) (x : TaskId) :
    (s.withTask t).task? x = if x = t.id then some t.detached else s.task? x :=
  KeyedList.get?_insert s.tasks t.id x t.detached

/-- Adding a task changes no place. -/
theorem Arranged.withTask (h : s.Arranged lists) (ht : s.task? t.id = none) :
    (s.withTask t).Arranged lists := by
  have hne : ∀ {u x}, x ∈ lists u → x ≠ t.id := fun hx he => h.not_mem_of_absent ht (he ▸ hx)
  have hold : ∀ {x w}, (s.withTask t).task? x = some w →
      (x = t.id ∧ w = t.detached) ∨ s.task? x = some w := by
    intro x w hw
    rw [task?_withTask] at hw
    split at hw
    · next hx => exact .inl ⟨hx, (Option.some.inj hw).symm⟩
    · exact .inr hw
  have hkeyed : (s.withTask t).Keyed :=
    h.keyed.of_task? h.keyed.user_id fun {x w} hw => by
      obtain ⟨rfl, rfl⟩ | hw := hold hw
      · exact .inr rfl
      · exact .inl ⟨w, hw, rfl⟩
  have hspot : ∀ u, ∀ x ∈ lists u, ((s.withTask t).task? x).map spot = (s.task? x).map spot := by
    intro u x hx
    rw [task?_withTask, if_neg (hne hx)]
  have hfree : ∀ {x w}, (s.withTask t).task? x = some w → (∀ u, x ∉ lists u) → w.detached = w := by
    intro x w hw hx
    obtain ⟨-, rfl⟩ | hw := hold hw
    · rfl
    · exact h.free hw hx
  exact h.of_spot hkeyed (fun _ => rfl) hspot hfree

/-- Adding and forgetting links and times can be exchanged. -/
theorem bare_withTask (s : Solution) (t : Task) : (s.withTask t).bare = s.bare.withTask t :=
  congrArg (Solution.mk _) (KeyedList.map_insert s.tasks t.id t.detached Task.detached)

/-- A solution without a task. -/
def withoutTask (s : Solution) (id : TaskId) : Solution := { s with tasks := s.tasks.erase id }

/-- The dropped task is not found, every other one is as before. -/
theorem task?_withoutTask (s : Solution) (id x : TaskId) :
    (s.withoutTask id).task? x = if x = id then none else s.task? x :=
  KeyedList.get?_erase s.tasks id x

/-- Dropping a task in no chain changes no place. -/
theorem Arranged.withoutTask (h : s.Arranged lists) (hid : ∀ u, id ∉ lists u) :
    (s.withoutTask id).Arranged lists := by
  have hold : ∀ {x t}, (s.withoutTask id).task? x = some t → s.task? x = some t := by
    intro x t ht
    rw [task?_withoutTask] at ht
    split at ht
    · cases ht
    · exact ht
  have hkeyed : (s.withoutTask id).Keyed :=
    h.keyed.of_task? h.keyed.user_id fun ht => .inl ⟨_, hold ht, rfl⟩
  have hspot : ∀ u, ∀ x ∈ lists u,
      ((s.withoutTask id).task? x).map spot = (s.task? x).map spot := by
    intro u x hx
    rw [task?_withoutTask, if_neg (ne_of_mem_of_not_mem hx (hid u))]
  exact h.of_spot hkeyed (fun _ => rfl) hspot fun ht hx => h.free (hold ht) hx

/-- Dropping and forgetting links and times can be exchanged. -/
theorem bare_withoutTask (s : Solution) (id : TaskId) :
    (s.withoutTask id).bare = s.bare.withoutTask id :=
  congrArg (Solution.mk _) (KeyedList.map_erase s.tasks id Task.detached)

/-- Adding a worker is not seen in the others. -/
theorem user?_addUser_of_ne {w : User} (h : u ≠ w.id) : (s.addUser w).user? u = s.user? u := by
  rw [addUser]
  split
  · exact (KeyedList.get?_modify s.users w.id u _).trans (if_neg h)
  · exact (KeyedList.get?_insert s.users w.id u _).trans (if_neg h)

/-- Who stands under the id of a worker that has been added. -/
theorem user?_addUser_self (s : Solution) (w : User) : (s.addUser w).user? w.id =
    some (((s.user? w.id).map fun old => { old with groups := w.groups }).getD
      { w with next := none }) := by
  rw [addUser]
  split
  · next hw =>
    obtain ⟨old, hold⟩ := containsUser_iff.1 hw
    rw [hold, user?, KeyedList.get?_modify, if_pos rfl, show s.users.get? w.id = some old from hold]
    rfl
  · next hw =>
    rw [containsUser_eq_false.1 (Bool.eq_false_iff.2 hw)]
    exact (KeyedList.get?_insert s.users w.id w.id _).trans (if_pos rfl)

/-- Adding a worker touches no task. -/
theorem tasks_addUser (s : Solution) (w : User) : (s.addUser w).tasks = s.tasks := by
  rw [addUser]
  split <;> rfl

theorem task?_addUser (s : Solution) (w : User) (x : TaskId) :
    (s.addUser w).task? x = s.task? x := by
  rw [task?, tasks_addUser]
  rfl

/-- Adding a worker changes no place; a new worker has an empty chain. -/
theorem Arranged.addUser (h : s.Arranged lists) (w : User) : (s.addUser w).Arranged lists := by
  have huser : ∀ {u w'}, (s.addUser w).user? u = some w' → w'.id = u := by
    intro u w' hw
    by_cases hu : u = w.id
    · subst hu
      rw [user?_addUser_self, Option.some.injEq] at hw
      rw [← hw]
      cases hold : s.user? w.id with
      | none => rfl
      | some old => exact show old.id = w.id from h.keyed.user_id hold
    · rw [user?_addUser_of_ne hu] at hw
      exact h.keyed.user_id hw
  have hkeyed : (s.addUser w).Keyed := by
    apply h.keyed.of_task? huser
    intro x t ht
    rw [task?_addUser] at ht
    exact .inl ⟨t, ht, rfl⟩
  have hhead : ∀ u, (s.addUser w).successor? (.user u) = s.successor? (.user u) := by
    intro u
    by_cases hu : u = w.id
    · subst hu
      rw [successor?, successor?, user?_addUser_self]
      cases hold : s.user? w.id <;> rfl
    · rw [successor?, successor?, user?_addUser_of_ne hu]
  have hfree : ∀ {x t}, (s.addUser w).task? x = some t → (∀ u, x ∉ lists u) → t.detached = t := by
    intro x t ht hx
    rw [task?_addUser] at ht
    exact h.free ht hx
  exact h.of_spot hkeyed hhead (fun u x _ => by rw [task?_addUser]) hfree

/-! ## operations put together from smaller ones -/

/-- No task can be linked after itself. -/
theorem relink_self (s : Solution) (id : TaskId) :
    relink id (.task id) s = (.error (.selfLink id), s) := by
  rw [relink, if_pos rfl]
  rfl

/-- A task that is not there cannot be linked elsewhere. -/
theorem relink_of_absent (hp : p ≠ .task id) (hx : s.task? id = none) :
    relink id p s = (.error (.unknownTask id), s) := by
  rw [relink, if_neg hp]
  exact Edit.bind_of_error (unlink_of_task?_eq_none hx)

/-- Once a task is out of its chain, linking it elsewhere is linking it. -/
theorem relink_of_unlink {r : Option Anchor} (hp : p ≠ .task id) (hu : unlink id s = (.ok r, s')) :
    relink id p s = Edit.attempt (·.linkAfter p id) s' := by
  rw [relink, if_neg hp]
  exact Edit.bind_of_ok hu

/-- Relinking keeps a solution arranged, and what it leaves at an error is the solution without
the task's place or the solution as it was. -/
theorem Arranged.relink_cases (h : s.Arranged lists) (id : TaskId) (p : Anchor) :
    (relink id p s = (.error (.selfLink id), s) ∧ p = .task id) ∨
    (relink id p s = (.error (.unknownTask id), s) ∧ s.task? id = none) ∨
    ∃ s₁, s₁.Arranged (fun v => (lists v).erase id) ∧ s₁.bare = s.bare ∧
      ((∃ e, relink id p s = (.error e, s₁)) ∨
        ∃ s', relink id p s = (.ok (), s') ∧ s₁.linkAfter p id = .ok s') := by
  by_cases hp : p = .task id
  · exact .inl ⟨hp ▸ relink_self s id, hp⟩
  · cases ht : s.task? id with
    | none => exact .inr (.inl ⟨relink_of_absent hp ht, rfl⟩)
    | some t =>
      obtain ⟨s₁, hunlink, harr, hbare⟩ := h.exists_unlink ht
      have hrelink := relink_of_unlink hp hunlink
      have hanswer : (∃ e, relink id p s = (.error e, s₁)) ∨
          ∃ s', relink id p s = (.ok (), s') ∧ s₁.linkAfter p id = .ok s' := by
        cases hlink : s₁.linkAfter p id with
        | error e => exact .inl ⟨e, by rw [hrelink, Edit.attempt_of_error hlink]⟩
        | ok s' => exact .inr ⟨s', by rw [hrelink, Edit.attempt_of_ok hlink], rfl⟩
      exact .inr (.inr ⟨s₁, harr, hbare, hanswer⟩)

/-- A task that has been relinked was taken out first. -/
theorem Arranged.exists_of_relink_ok (h : s.Arranged lists)
    (hs : Solution.relink id p s = (.ok (), s')) :
    ∃ s₁ : Solution, s₁.Arranged (fun v => (lists v).erase id) ∧ s₁.bare = s.bare ∧
      s₁.linkAfter p id = .ok s' := by
  obtain ⟨herr, -⟩ | ⟨herr, -⟩ | ⟨s₁, harr, hbare, ⟨e, herr⟩ | ⟨s₂, hok, hlink⟩⟩ :=
    h.relink_cases id p
  · rw [herr] at hs
    cases hs
  · rw [herr] at hs
    cases hs
  · rw [herr] at hs
    cases hs
  · rw [hok] at hs
    cases hs
    exact ⟨s₁, harr, hbare, hlink⟩

/-- Removing a task that is not there does nothing. -/
theorem removeTask_of_absent (hx : s.task? id = none) : removeTask id s = (.ok none, s) := by
  rw [removeTask, Edit.bind_get, containsTask_eq_false.2 hx]
  rfl

/-- Once a task is out of its chain, removing it drops it. -/
theorem removeTask_of_unlink {r : Option Anchor} (ht : s.task? id = some t)
    (hu : unlink id s = (.ok r, s')) :
    removeTask id s = (.ok (s'.task? id), s'.withoutTask id) := by
  rw [removeTask, Edit.bind_get, if_pos (containsTask_iff.2 ⟨t, ht⟩), Edit.bind_of_ok hu]
  rfl

/-- Removing a task always works. -/
theorem Arranged.exists_removeTask (h : s.Arranged lists) (id : TaskId) :
    ∃ r s', removeTask id s = (.ok r, s') ∧ s'.Arranged (fun v => (lists v).erase id) ∧
      s'.bare = s.bare.withoutTask id := by
  cases ht : s.task? id with
  | none =>
    have hid : ∀ v, id ∉ lists v := fun v => h.not_mem_of_absent ht
    have hnone : s.bare.task? id = none := by rw [task?_bare, ht, Option.map_none]
    have hdropped : s.bare = s.bare.withoutTask id :=
      congrArg (Solution.mk s.bare.users) (KeyedList.erase_of_get?_eq_none hnone).symm
    rw [erase_eq_of_forall_not_mem hid]
    exact ⟨none, s, removeTask_of_absent ht, h, hdropped⟩
  | some t =>
    obtain ⟨s₁, hunlink, harr, hbare⟩ := h.exists_unlink ht
    have hid : ∀ v, id ∉ (lists v).erase id := fun v => (h.nodup v).not_mem_erase
    have hdropped : (s₁.withoutTask id).bare = s.bare.withoutTask id := by
      rw [bare_withoutTask, hbare]
    exact ⟨_, _, removeTask_of_unlink ht hunlink, harr.withoutTask hid, hdropped⟩

end Solution

end ChainPlanner
