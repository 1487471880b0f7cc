import ChainPlanner.Proofs.Chain.Arrangement

/-!
# ChainPlanner.Proofs.Chain.Rewire

The writes that linking and unlinking a task have in common: the task itself, what comes after a
position, and what the task behind comes after.  `rewire` makes all three; the lemmas say what it
does to each view of a solution, so that the edits themselves are never unfolded further.
-/

namespace ChainPlanner.Solution

variable {s s' : Solution} {lists : UserId → List TaskId} {c p q : Anchor} {id x : TaskId}
  {t : Task} {f : Task → Task} {n m : Option TaskId}

/-! ## one write -/

/-- A change of one task is not seen in another. -/
theorem task?_modifyTask_of_ne (h : x ≠ id) : (s.modifyTask id f).task? x = s.task? x := by
  rw [task?_modifyTask, if_neg h]

/-- A change of a task is seen in that task. -/
theorem task?_modifyTask_self (ht : s.task? id = some t) :
    (s.modifyTask id f).task? id = some (f t) := by
  rw [task?_modifyTask, if_pos rfl, ht, Option.map_some]

/-- A change of links and times is not seen without them. -/
theorem bare_modifyTask (s : Solution) (id : TaskId) (h : ∀ t, (f t).detached = t.detached) :
    (s.modifyTask id f).bare = s.bare :=
  congrArg (Solution.mk _) (KeyedList.map_modify_of_eq s.tasks id h)

/-- What comes after a position is written at that position only. -/
theorem task?_setNext_of_ne (h : p ≠ .task x) : (s.setNext p n).task? x = s.task? x := by
  cases p with
  | user u => rfl
  | task y => exact task?_modifyTask_of_ne fun he => h (by rw [he])

/-- Of a task only its next link is written. -/
theorem map_task?_setNext {β : Type} (g : Task → β) (hg : ∀ t, g { t with next := n } = g t)
    (s : Solution) (p : Anchor) (x : TaskId) :
    ((s.setNext p n).task? x).map g = (s.task? x).map g := by
  cases p with
  | user u => rfl
  | task y =>
    rw [setNext, task?_modifyTask]
    split
    · rw [Option.map_map]
      exact congrArg (Option.map · _) (funext hg)
    · rfl

/-- The next link of a position is not seen without links and times. -/
theorem bare_setNext (s : Solution) (p : Anchor) (n : Option TaskId) :
    (s.setNext p n).bare = s.bare := by
  cases p with
  | user u =>
    have husers := KeyedList.map_modify_of_eq s.users u (f := fun w => { w with next := n })
      (g := fun w => { w with next := none }) fun _ => rfl
    exact congrArg (Solution.mk · (s.tasks.map Task.detached)) husers
  | task y => exact bare_modifyTask s y fun _ => rfl

/-- What comes after other positions stays. -/
theorem successor?_setNext_of_ne (h : c ≠ p) : (s.setNext p n).successor? c = s.successor? c := by
  cases c with
  | user u =>
    cases p with
    | user v =>
      have huv : u ≠ v := fun he => h (by rw [he])
      rw [successor?, successor?, setNext, user?, KeyedList.get?_modify, if_neg huv]
      rfl
    | task y => rfl
  | task x =>
    rw [successor?, successor?, task?_setNext_of_ne (Ne.symm h)]

/-- What comes after a position that is there is what has been written. -/
theorem successor?_setNext_self (h : s.missing? p = none) :
    (s.setNext p n).successor? p = n := by
  cases p with
  | user u =>
    have hu : s.containsUser u = true := by
      by_contra hu
      rw [missing?, if_neg hu] at h
      cases h
    obtain ⟨w, hw⟩ := containsUser_iff.1 hu
    rw [successor?, setNext, user?, KeyedList.get?_modify, if_pos rfl]
    change ((s.user? u).map _).bind _ = n
    rw [hw]
    rfl
  | task y =>
    have hy : s.containsTask y = true := by
      by_contra hy
      rw [missing?, if_neg hy] at h
      cases h
    obtain ⟨t, ht⟩ := containsTask_iff.1 hy
    rw [successor?, setNext, task?_modifyTask_self ht]
    rfl

/-! ## all three -/

/-- Change a task, write what comes after a position, and write what the next task comes after. -/
def rewire (s : Solution) (id : TaskId) (f : Task → Task) (p : Anchor) (n m : Option TaskId)
    (q : Anchor) : Solution :=
  ((s.modifyTask id f).setNext p n).setPrevious m q

/-- What a task comes after is written in that task only. -/
theorem task?_setPrevious_of_ne (h : m ≠ some x) : (s.setPrevious m q).task? x = s.task? x := by
  cases m with
  | none => rfl
  | some y => exact task?_modifyTask_of_ne fun he => h (by rw [he])

/-- A task that is neither moved nor next to the moved one is not touched. -/
theorem task?_rewire_of_ne (hid : x ≠ id) (hp : p ≠ .task x) (hm : m ≠ some x) :
    (s.rewire id f p n m q).task? x = s.task? x := by
  rw [rewire, task?_setPrevious_of_ne hm, task?_setNext_of_ne hp, task?_modifyTask_of_ne hid]

/-- What a view that does not see links is told of another task. -/
theorem map_task?_rewire {β : Type} {g : Task → β} (hid : x ≠ id)
    (hn : ∀ t, g { t with next := n } = g t)
    (hq : ∀ t, g { t with previous := some q } = g t) :
    ((s.rewire id f p n m q).task? x).map g = (s.task? x).map g := by
  have hprev : ((s.rewire id f p n m q).task? x).map g =
      (((s.modifyTask id f).setNext p n).task? x).map g := by
    cases m with
    | none => rfl
    | some y =>
      rw [rewire, setPrevious, task?_modifyTask]
      split
      · rw [Option.map_map]
        exact congrArg (Option.map · _) (funext hq)
      · rfl
  rw [hprev, map_task?_setNext g hn, task?_modifyTask_of_ne hid]

/-- The three writes are not seen without links and times. -/
theorem bare_rewire (s : Solution) (id : TaskId) (p : Anchor) (n m : Option TaskId) (q : Anchor)
    (h : ∀ t, (f t).detached = t.detached) : (s.rewire id f p n m q).bare = s.bare := by
  have hprev : (s.rewire id f p n m q).bare = ((s.modifyTask id f).setNext p n).bare := by
    cases m with
    | none => rfl
    | some y => exact bare_modifyTask _ y fun _ => rfl
  rw [hprev, bare_setNext, bare_modifyTask s id h]

/-- Previous links do not say what comes after a position. -/
theorem successor?_setPrevious (s : Solution) (m : Option TaskId) (q c : Anchor) :
    (s.setPrevious m q).successor? c = s.successor? c := by
  cases m with
  | none => rfl
  | some y =>
    cases c with
    | user u => rfl
    | task x =>
      rw [successor?, successor?, setPrevious, task?_modifyTask]
      split
      · rw [Option.bind_map]
        rfl
      · rfl

/-- A change of a task makes no position appear or vanish. -/
theorem missing?_modifyTask (s : Solution) (id : TaskId) (f : Task → Task) (p : Anchor) :
    (s.modifyTask id f).missing? p = s.missing? p := by
  cases p with
  | user u => rfl
  | task y =>
    have hsame : (s.modifyTask id f).containsTask y = s.containsTask y :=
      KeyedList.contains_eq_of_keys (KeyedList.keys_modify s.tasks id f) y
    rw [missing?, missing?, hsame]

/-- What comes after the position. -/
theorem successor?_rewire_position (h : s.missing? p = none) :
    (s.rewire id f p n m q).successor? p = n := by
  rw [rewire, successor?_setPrevious,
    successor?_setNext_self (by rw [missing?_modifyTask]; exact h)]

/-- What comes after the moved task. -/
theorem successor?_rewire_task (ht : s.task? id = some t) (hp : p ≠ .task id) :
    (s.rewire id f p n m q).successor? (.task id) = (f t).next := by
  rw [rewire, successor?_setPrevious, successor?_setNext_of_ne (Ne.symm hp), successor?,
    task?_modifyTask_self ht, Option.bind_some]

/-- What comes after any other position stays. -/
theorem successor?_rewire_other (hp : c ≠ p) (hid : c ≠ .task id) :
    (s.rewire id f p n m q).successor? c = s.successor? c := by
  rw [rewire, successor?_setPrevious, successor?_setNext_of_ne hp]
  cases c with
  | user u => rfl
  | task x => rw [successor?, successor?, task?_modifyTask_of_ne fun he => hid (by rw [he])]

/-- Next links do not say what a task comes after. -/
theorem predecessor?_setNext (s : Solution) (p : Anchor) (n : Option TaskId) (x : TaskId) :
    (s.setNext p n).predecessor? x = s.predecessor? x := by
  have hmap := congrArg (Option.bind · id)
    (map_task?_setNext (n := n) Task.previous (fun _ => rfl) s p x)
  rw [Option.bind_map, Option.bind_map] at hmap
  exact hmap

/-- What the task behind comes after. -/
theorem predecessor?_rewire_next (hx : ∃ t, s.task? x = some t) :
    (s.rewire id f p n (some x) q).predecessor? x = some q := by
  have hsome : ∃ t, ((s.modifyTask id f).setNext p n).task? x = some t := by
    rw [← containsTask_iff] at hx ⊢
    rw [← hx]
    refine KeyedList.contains_eq_of_keys ?_ x
    cases p <;> simp [setNext, modifyTask]
  obtain ⟨t, ht⟩ := hsome
  rw [rewire, setPrevious, predecessor?, task?_modifyTask_self ht]
  rfl

theorem predecessor?_rewire_of_ne (hm : m ≠ some x) :
    (s.rewire id f p n m q).predecessor? x = (s.modifyTask id f).predecessor? x := by
  rw [← predecessor?_setNext (s.modifyTask id f) p n x, rewire, predecessor?, predecessor?,
    task?_setPrevious_of_ne hm]

/-- What the moved task comes after. -/
theorem predecessor?_rewire_task (ht : s.task? id = some t) (hm : m ≠ some id) :
    (s.rewire id f p n m q).predecessor? id = (f t).previous := by
  rw [predecessor?_rewire_of_ne hm, predecessor?, task?_modifyTask_self ht, Option.bind_some]

/-- What any other task comes after stays. -/
theorem predecessor?_rewire_other (hid : x ≠ id) (hm : m ≠ some x) :
    (s.rewire id f p n m q).predecessor? x = s.predecessor? x := by
  rw [predecessor?_rewire_of_ne hm, predecessor?, predecessor?, task?_modifyTask_of_ne hid]

end ChainPlanner.Solution
