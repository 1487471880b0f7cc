import ChainPlanner.Proofs.Chain.Refinement

/-!
# ChainPlanner.Proofs.Chain.Relinking

What a relinking that fails leaves.  Relinking takes the task out of its chain before it looks at
the new position, so a position that no task can be linked after (`Solution.IsAnchor`) is found
when the task has lost its place, and nothing puts it back.  A task linked behind itself and a task
that is not there are found before anything is changed.
-/

namespace ChainPlanner.Solution

variable {s s' : Solution} {lists : UserId → List TaskId} {p : Anchor} {id : TaskId} {t : Task}

/-! ## positions to link after -/

/-- A position that a task can be linked after: a worker that is there, or a task in a chain. -/
def IsAnchor (s : Solution) : Anchor → Prop
  | .user u => s.containsUser u = true
  | .task y => ∃ u, s.assignedUser? y = some u

/-- What is wrong with a position that no task can be linked after. -/
def anchorError (s : Solution) : Anchor → ChainError
  | .user u => .unknownUser u
  | .task y => if s.containsTask y then .detachedAnchor y else .unknownTask y

/-- A task can be linked after every position. -/
theorem Chained.nextOf_of_isAnchor (h : s.Chained lists) (hp : s.IsAnchor p) :
    s.nextOf p = .ok (s.successor? p) := by
  rw [nextOf_eq_ok_iff]
  cases p with
  | user u => exact ⟨if_pos hp, rfl, fun y he => by cases he⟩
  | task y =>
    obtain ⟨u, hu⟩ := hp
    have hy : y ∈ lists u := h.assignedUser?_eq_some_iff.1 hu
    obtain ⟨q, hq, -⟩ := (h.joined u).predecessor?_of_mem hy
    refine ⟨if_pos (containsTask_iff.2 (h.mem_tasks hy)), rfl, fun z he => ?_⟩
    cases he
    rw [hq]
    exact Option.some_ne_none q

/-- After nothing else a task can be linked, and the answer says what is wrong. -/
theorem Chained.nextOf_of_not_isAnchor (h : s.Chained lists) (hp : ¬s.IsAnchor p) :
    s.nextOf p = .error (s.anchorError p) := by
  cases p with
  | user u =>
    have hu : s.user? u = none := containsUser_eq_false.1 (Bool.eq_false_iff.2 hp)
    simp [nextOf, hu, anchorError]
  | task y =>
    cases hy : s.task? y with
    | none => simp [nextOf, hy, anchorError, containsTask_eq_false.2 hy]
    | some t =>
      have hloose : s.assignedUser? y = none := by
        rw [Option.eq_none_iff_forall_ne_some]
        exact fun u hu => hp ⟨u, hu⟩
      have hprevious : t.previous.isNone = true := (h.isUnassigned_iff hy).2 hloose
      simp [nextOf, hy, hprevious, anchorError, containsTask_iff.2 ⟨t, hy⟩]

/-- Linking a task in no chain fails exactly if the position is at fault. -/
theorem Chained.linkAfter_cases (h : s.Chained lists) (ht : s.task? id = some t)
    (hid : ∀ u, id ∉ lists u) (hp : p ≠ .task id) :
    (s.IsAnchor p ∧ ∃ s', s.linkAfter p id = .ok s') ∨
      (¬s.IsAnchor p ∧ s.linkAfter p id = .error (s.anchorError p)) := by
  have hdetached := h.free ht hid
  have hprevious : t.previous = none := (congrArg Task.previous hdetached).symm
  have hnext : t.next = none := (congrArg Task.next hdetached).symm
  by_cases hanchor : s.IsAnchor p
  · exact .inl ⟨hanchor, _, linkAfter_eq_ok_iff.2
      ⟨hp, t, ht, hprevious, hnext, h.nextOf_of_isAnchor hanchor, rfl⟩⟩
  · refine .inr ⟨hanchor, ?_⟩
    rw [linkAfter, if_neg hp, ht]
    simp [hprevious, hnext, h.nextOf_of_not_isAnchor hanchor]

/-! ## after taking the task out -/

/-- Taking a task out of its chain leaves every other position as good as it was. -/
theorem Arranged.isAnchor_iff_of_erase (h : s.Arranged lists)
    (h' : s'.Arranged fun v => (lists v).erase id) (hb : s'.bare = s.bare) (hp : p ≠ .task id) :
    s'.IsAnchor p ↔ s.IsAnchor p := by
  cases p with
  | user u =>
    show s'.containsUser u = true ↔ s.containsUser u = true
    rw [containsUser_of_bare hb]
  | task y =>
    have hne : y ≠ id := fun he => hp (congrArg Anchor.task he)
    refine exists_congr fun u => ?_
    rw [h'.assignedUser?_eq_some_iff, h.assignedUser?_eq_some_iff, List.mem_erase_of_ne hne]

/-- What is wrong with a position does not depend on links and times. -/
theorem anchorError_of_bare (hb : s'.bare = s.bare) (p : Anchor) :
    s'.anchorError p = s.anchorError p := by
  cases p with
  | user u => rfl
  | task y => rw [anchorError, anchorError, containsTask_of_bare hb]

/-- Taking a task out changes something exactly if the task belongs to somebody. -/
theorem Arranged.unlink_eq_self_iff (h : s.Arranged lists) (ht : s.task? id = some t) :
    (unlink id s).2 = s ↔ s.assignedUser? id = none := by
  constructor
  · intro hsame
    obtain ⟨s₁, hunlink, harr, -⟩ := h.exists_unlink ht
    rw [hunlink] at hsame
    subst hsame
    exact harr.assignedUser?_eq_none_iff.2 fun u => (h.nodup u).not_mem_erase
  · intro hnone
    have hfree := h.free ht (h.assignedUser?_eq_none_iff.1 hnone)
    rw [unlink_of_previous_eq_none ht (congrArg Task.previous hfree).symm]

/-- A relinking whose position is at fault has taken the task out and stops there. -/
theorem Arranged.relink_of_there (h : s.Arranged lists) (ht : s.task? id = some t)
    (hp : p ≠ .task id) :
    (s.IsAnchor p ∧ ∃ s', relink id p s = (.ok (), s')) ∨
      (¬s.IsAnchor p ∧ relink id p s = (.error (s.anchorError p), (unlink id s).2)) := by
  obtain ⟨s₁, hunlink, harr, hbare⟩ := h.exists_unlink ht
  have hgone : ∀ u, id ∉ (lists u).erase id := fun u => (h.nodup u).not_mem_erase
  obtain ⟨t₁, ht₁, -⟩ := exists_task?_of_bare hbare ht
  rw [relink_of_unlink hp hunlink, hunlink, ← h.isAnchor_iff_of_erase harr hbare hp,
    ← anchorError_of_bare hbare p]
  obtain ⟨hanchor, s', hlink⟩ | ⟨hanchor, hlink⟩ := harr.linkAfter_cases ht₁ hgone hp
  · exact .inl ⟨hanchor, s', Edit.attempt_of_ok hlink⟩
  · exact .inr ⟨hanchor, Edit.attempt_of_error hlink⟩

/-! ## what a failure leaves -/

/-- Relinking works exactly for a task that is there and a position, other than the task itself,
that a task can be linked after.  It works or leaves the solution as it was exactly if the task was
to be linked behind itself, had no place, or was to go to such a position.  Otherwise what is wrong
is the position, and the task is out of its list. -/
theorem relink_whole_iff (hs : s.Reachable) (id : TaskId) (p : Anchor) :
    ((relink id p s).1 = .ok () ↔
      p ≠ .task id ∧ s.containsTask id = true ∧ s.IsAnchor p) ∧
    ((relink id p s).1 = .ok () ∨ (relink id p s).2 = s ↔
      p = .task id ∨ s.assignedUser? id = none ∨ s.IsAnchor p) ∧
    (p ≠ .task id → s.containsTask id = true → ¬s.IsAnchor p →
      (relink id p s).1 = .error (s.anchorError p) ∧ (relink id p s).2 = (unlink id s).2 ∧
        (relink id p s).2.roster = s.roster.take id) := by
  have h := hs.arranged
  by_cases hp : p = .task id
  · subst hp
    rw [relink_self]
    simp
  cases ht : s.task? id with
  | none =>
    have hloose : s.assignedUser? id = none := by simp [assignedUser?, ht]
    rw [relink_of_absent hp ht]
    simp [containsTask_eq_false.2 ht, hloose]
  | some t =>
    have hid : s.containsTask id = true := containsTask_iff.2 ⟨t, ht⟩
    obtain ⟨hanchor, s', hok⟩ | ⟨hanchor, herr⟩ := h.relink_of_there ht hp
    · simp [hok, hp, hid, hanchor]
    · obtain ⟨r, s₁, hunlink⟩ : ∃ r s₁, unlink id s = (.ok r, s₁) := by
        obtain ⟨s₁, hunlink, -⟩ := h.exists_unlink ht
        exact ⟨_, s₁, hunlink⟩
      have hroster : (unlink id s).2.roster = s.roster.take id := by
        rw [hunlink]
        exact h.roster_unlink hunlink
      simp [herr, hp, hanchor, h.unlink_eq_self_iff ht, hroster]

/-- The worker to go to is not there. -/
theorem relink_whole_iff_unknown_worker :
    let s := Operation.runAll callsForThree ∅
    s.Reachable ∧ s.assignedUser? ⟨1⟩ = some ⟨"ann"⟩ ∧
      ¬((relink ⟨1⟩ (.user ⟨"ghost"⟩) s).1 = .ok () ∨ (relink ⟨1⟩ (.user ⟨"ghost"⟩) s).2 = s) ∧
      (relink ⟨1⟩ (.user ⟨"ghost"⟩) s).1 = .error (.unknownUser ⟨"ghost"⟩) ∧
      (relink ⟨1⟩ (.user ⟨"ghost"⟩) s).2.roster = s.roster.take ⟨1⟩ := by
  intro s
  have hreach : s.Reachable := ⟨callsForThree, rfl⟩
  have hann : s.assignedUser? ⟨1⟩ = some ⟨"ann"⟩ := by decide +kernel
  have hanchor : ¬s.IsAnchor (.user ⟨"ghost"⟩) :=
    show ¬s.containsUser ⟨"ghost"⟩ = true by decide +kernel
  obtain ⟨-, hwhole, hfailed⟩ := relink_whole_iff hreach ⟨1⟩ (.user ⟨"ghost"⟩)
  obtain ⟨herr, -, hroster⟩ := hfailed (by decide) (by decide +kernel) hanchor
  have hno : ¬((.user ⟨"ghost"⟩ : Anchor) = .task ⟨1⟩ ∨ s.assignedUser? ⟨1⟩ = none ∨
      s.IsAnchor (.user ⟨"ghost"⟩)) := by
    simp [hann, hanchor]
  exact ⟨hreach, hann, fun h => hno (hwhole.1 h), herr, hroster⟩

/-- For each of the three ways in which a position can be at fault, a task of a chain of two is
refused the position and has lost its place. -/
theorem refused_relink_loses_place :
    let s := Operation.runAll callsForThree ∅
    s.Reachable ∧ s.chainIds ⟨"ann"⟩ = [⟨1⟩, ⟨2⟩] ∧
      ∀ refused ∈ [(Anchor.user ⟨"ghost"⟩, ChainError.unknownUser ⟨"ghost"⟩),
          (.task ⟨9⟩, .unknownTask ⟨9⟩), (.task ⟨3⟩, .detachedAnchor ⟨3⟩)],
        (relink ⟨1⟩ refused.1 s).1 = .error refused.2 ∧ (relink ⟨1⟩ refused.1 s).2 ≠ s ∧
          (relink ⟨1⟩ refused.1 s).2.chainIds ⟨"ann"⟩ = [⟨2⟩] :=
  ⟨⟨callsForThree, rfl⟩, by decide +kernel, by decide +kernel⟩

end ChainPlanner.Solution
