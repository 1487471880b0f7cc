import ChainPlanner.Proofs.Chain.Roster

/-!
# ChainPlanner.Proofs.Chain.Mutations

What each kind of mutation answers on an arranged solution, and what it does to the roster.  Adding
fails exactly on a task that is there and assigning exactly on a worker that is not; both leave the
solution as it was then.  Removing and releasing always work.  No error of a chain operation can
come out of a mutation: each step finds what it needs, because the step before it has put it there.
-/

namespace ChainPlanner

open Solution

namespace Mutation

variable {s s' : Solution} {lists : UserId → List TaskId} {u : UserId} {id : TaskId} {t : Task}

/-! ## adding -/

/-- A task that is there cannot be added again. -/
theorem apply_add_of_contains (h : s.containsTask t.id = true) :
    (add t).apply s = (.error (.duplicateTask t.id), s) := by
  rw [apply, Edit.bind_get, if_pos h]
  rfl

/-- A new task is added in no chain. -/
theorem apply_add_of_absent (h : s.task? t.id = none) :
    (add t).apply s = (.ok (), s.withTask t) := by
  have hadd : s.addTask t = .ok (s.withTask t) := by
    rw [addTask_eq, if_neg (by simp [containsTask_eq_false.2 h])]
  rw [apply, Edit.bind_get, if_neg (by simp [containsTask_eq_false.2 h])]
  exact chainEdit_of_ok (Edit.attempt_of_ok hadd)

/-! ## assigning -/

/-- No task can be assigned to somebody who is not there. -/
theorem apply_assign_of_absent (h : s.containsUser u = false) :
    (assign t u).apply s = (.error (.unknownUser u), s) := by
  rw [apply, Edit.bind_get, if_pos (by simp [h])]
  rfl

/-- The last steps of an assignment: the task, which is in no chain, is linked behind the pinned
tasks and pinned. -/
def placePinned (id : TaskId) (u : UserId) : Edit MutationError Unit := do
  let position ← chainEdit (Edit.ask (·.pinnedRunEnd u))
  chainEdit (Edit.attempt (·.linkAfter position id))
  chainEdit (Edit.attempt (·.setPinned id true))

/-- A task that is there is taken out of its chain and placed behind the pinned ones. -/
theorem apply_assign_of_contains (hu : s.containsUser u = true)
    (ht : s.containsTask t.id = true) :
    (assign t u).apply s = (do
      let _ ← chainEdit (unlink t.id)
      placePinned t.id u : Edit MutationError Unit) s := by
  rw [apply, Edit.bind_get, if_neg (by simp [hu])]
  change (get >>= _ : Edit MutationError Unit) s = _
  rw [Edit.bind_get, if_pos ht]
  rfl

/-- A new task is added and placed behind the pinned ones. -/
theorem apply_assign_of_new (hu : s.containsUser u = true) (ht : s.containsTask t.id = false) :
    (assign t u).apply s = (do
      chainEdit (Edit.attempt (·.addTask t))
      placePinned t.id u : Edit MutationError Unit) s := by
  rw [apply, Edit.bind_get, if_neg (by simp [hu])]
  change (get >>= _ : Edit MutationError Unit) s = _
  rw [Edit.bind_get, if_neg (by simp [ht])]
  rfl

/-- A task in no chain can be placed behind the pinned ones of any worker. -/
theorem exists_placePinned (h : s.Arranged lists) (hu : s.containsUser u = true)
    (ht : s.task? id = some t) (hid : ∀ v, id ∉ lists v) :
    ∃ s' lists', placePinned id u s = (.ok (), s') ∧ s'.Arranged lists' ∧
      s'.roster = (s.roster.putBehindPinned u id).pin id true := by
  have hsplit : lists u = (lists u).takeWhile s.roster.isPinned ++
      (lists u).dropWhile s.roster.isPinned := List.takeWhile_append_dropWhile.symm
  obtain ⟨s₁, hlink, harr, hbare⟩ := h.exists_linkAfter hu hsplit ht hid
  have hroster : s₁.roster = s.roster.putBehindPinned u id := by
    rw [harr.roster_eq hbare, Roster.putBehindPinned, h.roster_lists]
    rfl
  have hthere : s₁.containsTask id = true :=
    (containsTask_of_bare hbare id).trans (containsTask_iff.2 ⟨t, ht⟩)
  have hpin : s₁.setPinned id true =
      .ok (s₁.modifyTask id fun t => { t with pinned := true }) := by
    rw [setPinned, if_pos hthere]
  have hask : Edit.ask (·.pinnedRunEnd u) s =
      (.ok (lastPosition (.user u) ((lists u).takeWhile s.roster.isPinned)), s) := by
    rw [Edit.ask, h.pinnedRunEnd_eq hu]
  have hok : placePinned id u s =
      (.ok (), s₁.modifyTask id fun t => { t with pinned := true }) := by
    rw [placePinned, Edit.bind_of_ok (chainEdit_of_ok hask),
      Edit.bind_of_ok (chainEdit_of_ok (Edit.attempt_of_ok hlink))]
    exact chainEdit_of_ok (Edit.attempt_of_ok hpin)
  exact ⟨_, _, hok, harr.setPinned id true, by rw [harr.roster_setPinned, hroster]⟩

/-- Assigning to a worker that is there always works. -/
theorem exists_apply_assign (h : s.Arranged lists) (hu : s.containsUser u = true) (t : Task) :
    ∃ s' lists', (assign t u).apply s = (.ok (), s') ∧ s'.Arranged lists' ∧
      s'.roster = s.roster.assign t u := by
  cases ht : s.task? t.id with
  | none =>
    have hno := containsTask_eq_false.2 ht
    have hadd : s.addTask t = .ok (s.withTask t) := by
      rw [addTask_eq, if_neg (by simp [hno])]
    obtain ⟨s', lists', hplace, harr, hroster⟩ := exists_placePinned (h.withTask ht) hu
      (by rw [task?_withTask, if_pos rfl]) fun v => h.not_mem_of_absent ht
    have hok : (assign t u).apply s = (.ok (), s') := by
      rw [apply_assign_of_new hu hno, Edit.bind_of_ok (chainEdit_of_ok (Edit.attempt_of_ok hadd)),
        hplace]
    have hassign : s'.roster = s.roster.assign t u := by
      rw [hroster, h.roster_withTask ht, Roster.assign, contains_roster_tasks,
        if_neg (by simp [hno])]
    exact ⟨s', lists', hok, harr, hassign⟩
  | some w =>
    have hyes : s.containsTask t.id = true := containsTask_iff.2 ⟨w, ht⟩
    obtain ⟨s₁, hunlink, harr₁, hbare⟩ := h.exists_unlink ht
    have hthere : s₁.containsTask t.id = true := (containsTask_of_bare hbare t.id).trans hyes
    have hu₁ : s₁.containsUser u = true := (containsUser_of_bare hbare u).trans hu
    obtain ⟨w₁, hw₁⟩ := containsTask_iff.1 hthere
    obtain ⟨s', lists', hplace, harr, hroster⟩ := exists_placePinned harr₁ hu₁ hw₁ fun v =>
      (h.nodup v).not_mem_erase
    have hok : (assign t u).apply s = (.ok (), s') := by
      rw [apply_assign_of_contains hu hyes, Edit.bind_of_ok (chainEdit_of_ok hunlink), hplace]
    have hassign : s'.roster = s.roster.assign t u := by
      rw [hroster, h.roster_unlink hunlink, Roster.assign, contains_roster_tasks, if_pos hyes]
    exact ⟨s', lists', hok, harr, hassign⟩

/-- On the roster an assignment is `Roster.assign`. -/
theorem roster_of_apply_assign (h : s.Arranged lists)
    (hs : (assign t u).apply s = (.ok (), s')) : s'.roster = s.roster.assign t u := by
  cases hu : s.containsUser u with
  | false =>
    rw [apply_assign_of_absent hu] at hs
    cases hs
  | true =>
    obtain ⟨s₁, -, hok, -, hroster⟩ := exists_apply_assign h hu t
    rw [hok] at hs
    cases hs
    exact hroster

/-! ## removing and releasing -/

/-- Removing always works. -/
theorem exists_apply_remove (h : s.Arranged lists) (id : TaskId) :
    ∃ s' lists', (remove id).apply s = (.ok (), s') ∧ s'.Arranged lists' ∧
      s'.roster = s.roster.drop id := by
  obtain ⟨r, s', hok, harr, -⟩ := h.exists_removeTask id
  have happly : (remove id).apply s = (.ok (), s') := by
    rw [apply, Edit.bind_of_ok (chainEdit_of_ok hok)]
    rfl
  exact ⟨s', _, happly, harr, h.roster_removeTask hok⟩

/-- Releasing always works. -/
theorem exists_apply_release (h : s.Arranged lists) (id : TaskId) :
    ∃ s' lists', (release id).apply s = (.ok (), s') ∧ s'.Arranged lists' ∧
      s'.roster = s.roster.release id := by
  cases ht : s.task? id with
  | none =>
    have hok : (release id).apply s = (.ok (), s) := by
      rw [apply, Edit.bind_get, if_neg (by simp [containsTask_eq_false.2 ht])]
      rfl
    have hnone : s.roster.tasks.get? id = none := by rw [get?_roster_tasks, ht, Option.map_none]
    have hlists : (fun u => (lists u).erase id) = lists :=
      erase_eq_of_forall_not_mem fun v => h.not_mem_of_absent ht
    have hroster : s.roster = s.roster.release id := by
      rw [Roster.release, Roster.pin, Roster.take, KeyedList.modify_of_get?_eq_none hnone,
        h.roster_eq rfl]
      exact congrArg (Roster.mk _ _) hlists.symm
    exact ⟨s, lists, hok, h, hroster⟩
  | some t =>
    obtain ⟨s₁, hunlink, harr, hbare⟩ := h.exists_unlink ht
    have hthere : s₁.containsTask id = true :=
      (containsTask_of_bare hbare id).trans (containsTask_iff.2 ⟨t, ht⟩)
    have hpin : s₁.setPinned id false =
        .ok (s₁.modifyTask id fun t => { t with pinned := false }) := by
      rw [setPinned, if_pos hthere]
    have hok : (release id).apply s =
        (.ok (), s₁.modifyTask id fun t => { t with pinned := false }) := by
      rw [apply, Edit.bind_get, if_pos (containsTask_iff.2 ⟨t, ht⟩),
        Edit.bind_of_ok (chainEdit_of_ok hunlink)]
      exact chainEdit_of_ok (Edit.attempt_of_ok hpin)
    have hroster : (s₁.modifyTask id fun t => { t with pinned := false }).roster =
        s.roster.release id := by
      rw [harr.roster_setPinned, h.roster_unlink hunlink]
      rfl
    exact ⟨_, _, hok, harr.setPinned id false, hroster⟩

/-! ## any mutation -/

/-- What a mutation can do to the roster; a rejected one leaves the solution as it is. -/
theorem roster_run_cases (h : s.Arranged lists) (m : Mutation) :
    m.run s = s ∨
    (∃ t, m = add t ∧ s.task? t.id = none ∧ (m.run s).roster = s.roster.add t) ∨
    (∃ t u, m = assign t u ∧ (m.run s).roster = s.roster.assign t u) ∨
    (∃ id, m = remove id ∧ (m.run s).roster = s.roster.drop id) ∨
    ∃ id, m = release id ∧ (m.run s).roster = s.roster.release id := by
  cases m with
  | add t =>
    cases ht : s.task? t.id with
    | none =>
      refine .inr (.inl ⟨t, rfl, ht, ?_⟩)
      rw [run, apply_add_of_absent ht, h.roster_withTask ht]
    | some w =>
      refine .inl ?_
      rw [run, apply_add_of_contains (containsTask_iff.2 ⟨w, ht⟩)]
  | assign t u =>
    cases hu : s.containsUser u with
    | false =>
      refine .inl ?_
      rw [run, apply_assign_of_absent hu]
    | true =>
      obtain ⟨s', -, hok, -, hroster⟩ := exists_apply_assign h hu t
      exact .inr (.inr (.inl ⟨t, u, rfl, by rw [run, hok, hroster]⟩))
  | remove id =>
    obtain ⟨s', -, hok, -, hroster⟩ := exists_apply_remove h id
    exact .inr (.inr (.inr (.inl ⟨id, rfl, by rw [run, hok, hroster]⟩)))
  | release id =>
    obtain ⟨s', -, hok, -, hroster⟩ := exists_apply_release h id
    exact .inr (.inr (.inr (.inr ⟨id, rfl, by rw [run, hok, hroster]⟩)))

/-- Why a solution rejects a mutation, if it does. -/
def rejection? (s : Solution) : Mutation → Option MutationError
  | add t => if s.containsTask t.id then some (.duplicateTask t.id) else none
  | assign _ u => if s.containsUser u then none else some (.unknownUser u)
  | remove _ => none
  | release _ => none

/-- Two kinds of mutation can be rejected, each for one reason. -/
theorem rejection?_eq_some_iff {m : Mutation} {e : MutationError} : m.rejection? s = some e ↔
    (∃ t, m = add t ∧ s.containsTask t.id = true ∧ .duplicateTask t.id = e) ∨
      ∃ t u, m = assign t u ∧ s.containsUser u = false ∧ .unknownUser u = e := by
  cases m with
  | add t => simp [rejection?]
  | assign t u => simp [rejection?]
  | remove id => simp [rejection?]
  | release id => simp [rejection?]

/-- A mutation is made whole unless the solution rejects it. -/
theorem apply_eq (h : s.Arranged lists) (m : Mutation) :
    m.apply s = match m.rejection? s with
      | some e => (.error e, s)
      | none => (.ok (), m.run s) := by
  cases m with
  | add t =>
    cases ht : s.task? t.id with
    | none => simp [rejection?, containsTask_eq_false.2 ht, run, apply_add_of_absent ht]
    | some w =>
      have hthere : s.containsTask t.id = true := containsTask_iff.2 ⟨w, ht⟩
      simp [rejection?, hthere, apply_add_of_contains hthere]
  | assign t u =>
    cases hu : s.containsUser u with
    | false => simp [rejection?, hu, apply_assign_of_absent hu]
    | true =>
      obtain ⟨s', -, hok, -⟩ := exists_apply_assign h hu t
      simp [rejection?, hu, run, hok]
  | remove id =>
    obtain ⟨s', -, hok, -⟩ := exists_apply_remove h id
    simp [rejection?, run, hok]
  | release id =>
    obtain ⟨s', -, hok, -⟩ := exists_apply_release h id
    simp [rejection?, run, hok]

/-- A rejected mutation answers why, and changes nothing. -/
theorem apply_of_rejection (h : s.Arranged lists) {m : Mutation} {e : MutationError}
    (he : m.rejection? s = some e) : m.apply s = (.error e, s) := by
  rw [apply_eq h, he]

/-- A mutation that is not rejected succeeds. -/
theorem apply_of_acceptance (h : s.Arranged lists) {m : Mutation} (hm : m.rejection? s = none) :
    m.apply s = (.ok (), m.run s) := by
  rw [apply_eq h, hm]

/-- A mutation fails exactly if it is rejected, and says why. -/
theorem fst_apply_eq_error_iff (h : s.Arranged lists) {m : Mutation} {e : MutationError} :
    (m.apply s).1 = .error e ↔ m.rejection? s = some e := by
  rw [apply_eq h]
  cases m.rejection? s <;> simp

/-- A rejected mutation changes nothing. -/
theorem apply_of_error (h : s.Arranged lists) {m : Mutation} {e : MutationError}
    (he : (m.apply s).1 = .error e) : (m.apply s).2 = s := by
  rw [apply_of_rejection h ((fst_apply_eq_error_iff h).1 he)]

/-- A mutation keeps a solution arranged, whether it succeeds or not. -/
theorem exists_arranged_apply (h : s.Arranged lists) (m : Mutation) :
    ∃ lists', (m.apply s).2.Arranged lists' := by
  cases m with
  | add t =>
    cases ht : s.task? t.id with
    | none =>
      rw [apply_add_of_absent ht]
      exact ⟨lists, h.withTask ht⟩
    | some w =>
      rw [apply_add_of_contains (containsTask_iff.2 ⟨w, ht⟩)]
      exact ⟨lists, h⟩
  | assign t u =>
    cases hu : s.containsUser u with
    | false =>
      rw [apply_assign_of_absent hu]
      exact ⟨lists, h⟩
    | true =>
      obtain ⟨s', lists', hok, harr, -⟩ := exists_apply_assign h hu t
      rw [hok]
      exact ⟨lists', harr⟩
  | remove id =>
    obtain ⟨s', lists', hok, harr, -⟩ := exists_apply_remove h id
    rw [hok]
    exact ⟨lists', harr⟩
  | release id =>
    obtain ⟨s', lists', hok, harr, -⟩ := exists_apply_release h id
    rw [hok]
    exact ⟨lists', harr⟩

/-- After a mutation that succeeds the others follow. -/
theorem applyAll_cons_of_ok {m : Mutation} {ms : List Mutation} (h : m.apply s = (.ok (), s')) :
    applyAll (m :: ms) s = applyAll ms s' := by
  rw [applyAll, Edit.bind_of_ok h]

/-- A mutation that fails ends the batch. -/
theorem applyAll_cons_of_error {m : Mutation} {ms : List Mutation} {e : MutationError}
    (h : m.apply s = (.error e, s')) : applyAll (m :: ms) s = (.error e, s') := by
  rw [applyAll, Edit.bind_of_error h]

/-- A batch keeps a solution arranged, wherever it ends. -/
theorem exists_arranged_applyAll (h : s.Arranged lists) (ms : List Mutation) :
    ∃ lists', (applyAll ms s).2.Arranged lists' := by
  induction ms generalizing s lists with
  | nil => exact ⟨lists, h⟩
  | cons m ms ih =>
    obtain ⟨lists', harr⟩ := exists_arranged_apply h m
    cases hm : m.apply s with
    | mk answer s' =>
      rw [hm] at harr
      cases answer with
      | ok _ =>
        rw [applyAll_cons_of_ok hm]
        exact ih harr
      | error e =>
        rw [applyAll_cons_of_error hm]
        exact ⟨lists', harr⟩

end Mutation

end ChainPlanner
