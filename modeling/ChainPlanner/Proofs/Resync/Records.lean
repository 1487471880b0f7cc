import ChainPlanner.Assembly.Resync
import ChainPlanner.Proofs.Chain.Arrangement

/-!
# ChainPlanner.Proofs.Resync.Records

Records and what each of them asks for.  Of the records of a task the first one counts
(`firstRecord?`).  A record is one of a ready task, one of a task that somebody holds, or one that
asks for nothing (`record_cases`), and what it asks for and does to the published tasks concerns its
own task only (`taskId_of_judge`, `mem_judge`).
-/

namespace ChainPlanner

/-- The owner of a task that is reserved or worked on. -/
def TaskRecord.holder? (r : TaskRecord) : Option UserId :=
  match r.status with
  | .reserved | .inProgress | .suspended => r.actualOwner
  | _ => none

namespace Assembly

open Solution

variable {s : Solution} {known : Option Task} {r : TaskRecord} {p p' : PublishedTasks}
  {records : List TaskRecord} {id x : TaskId} {u : UserId} {t : Task} {m : Mutation}

/-! ## the record that counts -/

/-- The record of a task that counts: the first one. -/
def firstRecord? (records : List TaskRecord) (id : TaskId) : Option TaskRecord :=
  records.find? (·.taskId = id)

/-- The first record of a task is about that task. -/
theorem taskId_of_firstRecord? (h : firstRecord? records id = some r) : r.taskId = id := by
  simpa using List.find?_some h

/-- Where each task has one record, every record counts. -/
theorem firstRecord?_of_mem (hnd : (records.map (·.taskId)).Nodup) (hr : r ∈ records) :
    firstRecord? records r.taskId = some r := by
  induction records with
  | nil => cases hr
  | cons r₁ records ih =>
    rw [List.map_cons, List.nodup_cons] at hnd
    rcases List.mem_cons.1 hr with rfl | hr
    · simp [firstRecord?]
    · have hne : r₁.taskId ≠ r.taskId := fun he => hnd.1 (he ▸ List.mem_map_of_mem hr)
      rw [firstRecord?, List.find?_cons_of_neg (by simpa using hne)]
      exact ih hnd.2 hr

/-- With one record for each task, the first is any. -/
theorem firstRecord?_eq_some_iff (hnd : (records.map (·.taskId)).Nodup) :
    firstRecord? records x = some r ↔ r ∈ records ∧ r.taskId = x := by
  constructor
  · exact fun hr => ⟨List.mem_of_find?_eq_some hr, taskId_of_firstRecord? hr⟩
  · rintro ⟨hr, rfl⟩
    exact firstRecord?_of_mem hnd hr

/-- The first record of a task comes from the first part that has one. -/
theorem firstRecord?_append (records records' : List TaskRecord) (x : TaskId) :
    firstRecord? (records ++ records') x =
      (firstRecord? records x).or (firstRecord? records' x) := List.find?_append

theorem firstRecord?_singleton (r : TaskRecord) (x : TaskId) :
    firstRecord? [r] x = if r.taskId = x then some r else none := by
  by_cases hx : r.taskId = x <;> simp [firstRecord?, hx]

/-- Records that follow do not matter to a task that has one. -/
theorem firstRecord?_append_of_some {records' : List TaskRecord}
    (h : firstRecord? records x = some r) : firstRecord? (records ++ records') x = some r := by
  rw [firstRecord?_append, h, Option.some_or]

/-- A second record of a task changes no first record. -/
theorem firstRecord?_append_of_seen (h : (firstRecord? records r.taskId).isSome = true) :
    firstRecord? (records ++ [r]) = firstRecord? records := by
  funext x
  by_cases hx : r.taskId = x
  · subst hx
    obtain ⟨r₁, hr₁⟩ := Option.isSome_iff_exists.1 h
    rw [firstRecord?_append_of_some hr₁, hr₁]
  · rw [firstRecord?_append, firstRecord?_singleton, if_neg hx, Option.or_none]

/-- A new record is the first of its task. -/
theorem firstRecord?_append_of_new (h : firstRecord? records r.taskId = none) :
    firstRecord? (records ++ [r]) =
      Function.update (firstRecord? records) r.taskId (some r) := by
  funext x
  rw [firstRecord?_append, firstRecord?_singleton]
  by_cases hx : x = r.taskId
  · subst hx
    simp [h]
  · simp [hx, Ne.symm hx]

/-! ## judging a record -/

open Comparison

/-- A held task is not done with. -/
theorem isTerminal_of_holder? (h : r.holder? = some u) : r.status.isTerminal = false := by
  unfold TaskRecord.holder? at h
  cases hs : r.status <;> simp [hs] at h <;> rfl

/-- Nobody holds a ready task. -/
theorem holder?_of_ready (h : r.status = .ready) : r.holder? = none := by
  rw [TaskRecord.holder?, h]

/-- A held task is not ready. -/
theorem not_ready_of_holder? (h : r.holder? = some u) : r.status ≠ .ready := by
  intro hready
  rw [holder?_of_ready hready] at h
  cases h

/-- How the record of a ready task is judged. -/
theorem judge_of_ready (h : r.status = .ready) : judge s known r p = judgeReady known r p := by
  simp [judge, h]

/-- How the record of a held task is judged: it is published from then on. -/
theorem judge_of_holder? (h : r.holder? = some u) :
    judge s known r p = (p.insert r.taskId, judgeOwned s known r u) := by
  unfold TaskRecord.holder? at h
  cases hs : r.status <;> simp [hs] at h <;> simp [judge, hs, h]

/-- A task that is neither ready nor held asks for nothing. -/
theorem judge_of_idle (hready : r.status ≠ .ready) (h : r.holder? = none) :
    judge s known r p = (p, .ok none) := by
  unfold TaskRecord.holder? at h
  cases hs : r.status <;> simp [hs] at h hready <;> simp [judge, hs, h]

/-- A record in a terminal status asks for nothing. -/
theorem idle_of_isTerminal (h : r.status.isTerminal = true) :
    r.status ≠ .ready ∧ r.holder? = none := by
  cases hs : r.status <;> simp_all [TaskStatus.isTerminal, TaskRecord.holder?]

/-- The task of a record has the number that the record says. -/
theorem taskId_of_task? (h : r.task? = .ok t) : t.id = r.taskId := by
  unfold TaskRecord.task? at h
  split at h
  · cases h
  · cases h
    rfl

/-- The task of a record can be read exactly if its priority is one. -/
theorem exists_task?_iff : (∃ t, r.task? = .ok t) ↔
    0 ≤ r.priority.toInt ∧ r.priority.toInt ≤ 10 := by
  rw [TaskRecord.task?, Priority.ofInt?]
  by_cases h : 0 ≤ r.priority.toInt ∧ r.priority.toInt ≤ 10 <;> simp [h]

/-- The task of a record is not pinned. -/
theorem pinned_of_task? (h : r.task? = .ok t) : t.pinned = false := by
  unfold TaskRecord.task? at h
  split at h <;> cases h
  rfl

/-- A record is one of a ready task, one of a task that somebody holds, or asks for nothing. -/
theorem record_cases (r : TaskRecord) : r.status = .ready ∨ (∃ u, r.holder? = some u) ∨
    (r.status ≠ .ready ∧ r.holder? = none) := by
  cases hholder : r.holder? with
  | none => by_cases hready : r.status = .ready <;> simp [hready]
  | some u => exact .inr (.inl ⟨u, rfl⟩)

/-- An answer made from the task of a record shows that the record can be read. -/
theorem exists_of_map_task? {f : Task → Option Mutation} {answer : Option Mutation}
    (h : r.task?.map f = .ok answer) : ∃ t, r.task? = .ok t ∧ f t = answer := by
  cases ht : r.task? with
  | error e =>
    rw [ht] at h
    cases h
  | ok t =>
    rw [ht] at h
    cases h
    exact ⟨t, rfl, rfl⟩

/-- A record asks for changes of its own task only. -/
theorem taskId_of_judge (hknown : ∀ t, known = some t → t.id = r.taskId)
    (h : (judge s known r p).2 = .ok (some m)) : m.taskId = r.taskId := by
  obtain hready | ⟨u, hholder⟩ | ⟨hready, hholder⟩ := record_cases r
  · rw [judge_of_ready hready] at h
    cases known with
    | none =>
      obtain ⟨t, ht, hm⟩ := exists_of_map_task? h
      cases hm
      exact taskId_of_task? ht
    | some t =>
      rw [judgeReady] at h
      split at h <;> cases h
      rfl
  · rw [judge_of_holder? hholder] at h
    cases known with
    | none =>
      obtain ⟨t, ht, hm⟩ := exists_of_map_task? h
      split at hm <;> cases hm <;> exact taskId_of_task? ht
    | some t =>
      simp only [judgeOwned, Except.ok.injEq] at h
      split at h
      · split at h <;> cases h
        exact hknown t rfl
      · split at h <;> cases h
        rfl
  · rw [judge_of_idle hready hholder] at h
    cases h

/-- Whether a task is published matters to a record of it only if the task is known, not pinned and
ready. -/
theorem judge_congr_of_ready (h : ∀ t, known = some t → t.pinned = false → r.status = .ready →
    (r.taskId ∈ p ↔ r.taskId ∈ p')) : (judge s known r p).2 = (judge s known r p').2 := by
  obtain hready | ⟨u, hholder⟩ | ⟨hready, hholder⟩ := record_cases r
  · rw [judge_of_ready hready, judge_of_ready hready]
    cases known with
    | none => rfl
    | some t =>
      cases hpinned : t.pinned with
      | true => simp [judgeReady, hpinned]
      | false =>
        have hsame := h t rfl hpinned hready
        simp only [judgeReady, hpinned, Bool.false_or, decide_eq_true_eq, hsame]
        split <;> rfl
  · rw [judge_of_holder? hholder, judge_of_holder? hholder]
  · rw [judge_of_idle hready hholder, judge_of_idle hready hholder]

/-- Of the published tasks only its own matters to a record. -/
theorem judge_congr (h : r.taskId ∈ p ↔ r.taskId ∈ p') :
    (judge s known r p).2 = (judge s known r p').2 :=
  judge_congr_of_ready fun _ _ _ _ => h

/-- A record does not fit exactly if its task would have to be added and cannot be read. -/
theorem judge_eq_error_iff : (∃ e, (judge s known r p).2 = .error e) ↔
    known = none ∧ (r.status = .ready ∨ r.holder?.isSome = true) ∧ ∀ t, r.task? ≠ .ok t := by
  have hmap : ∀ f : Task → Option Mutation,
      (∃ e, r.task?.map f = .error e) ↔ ∀ t, r.task? ≠ .ok t := by
    intro f
    cases r.task? <;> simp [Except.map]
  obtain hready | ⟨u, hholder⟩ | ⟨hready, hholder⟩ := record_cases r
  · rw [judge_of_ready hready]
    cases known with
    | none => simp [judgeReady, hready, hmap]
    | some t =>
      simp only [judgeReady]
      split <;> simp
  · rw [judge_of_holder? hholder]
    cases known with
    | none => simp [judgeOwned, hholder, hmap]
    | some t => simp [judgeOwned]
  · simp [judge_of_idle hready hholder, hready, hholder]

/-- A record asks for a release exactly if its task is known, and ready although it is pinned or
published, or held by a stranger although it is in a chain. -/
theorem judge_eq_release_iff : (judge s known r p).2 = .ok (some (.release x)) ↔
    x = r.taskId ∧ ∃ t, known = some t ∧ ((r.status = .ready ∧ (t.pinned = true ∨ x ∈ p)) ∨
      ∃ u, r.holder? = some u ∧ s.containsUser u = false ∧ t.isUnassigned = false) := by
  -- what is made from the task of a record is an addition or an assignment
  have hmap : ∀ f : Task → Mutation, (∀ t, f t ≠ .release x) →
      r.task?.map (fun t => some (f t)) ≠ .ok (some (.release x)) := by
    intro f hf h
    obtain ⟨t, -, ht⟩ := exists_of_map_task? h
    exact hf t (Option.some.inj ht)
  obtain hready | ⟨u, hholder⟩ | ⟨hready, hholder⟩ := record_cases r
  · rw [judge_of_ready hready]
    cases known with
    | none => simpa [judgeReady] using hmap .add (by simp)
    | some t =>
      by_cases hp : t.pinned = true ∨ r.taskId ∈ p
      · have hanswer : (judgeReady (some t) r p).2 = .ok (some (.release r.taskId)) := by
          simp [judgeReady, hp]
        rw [hanswer]
        constructor
        · rintro ⟨⟩
          exact ⟨rfl, t, rfl, .inl ⟨hready, hp⟩⟩
        · rintro ⟨rfl, -⟩
          rfl
      · have hanswer : (judgeReady (some t) r p).2 = .ok none := by simp [judgeReady, hp]
        rw [hanswer]
        constructor
        · rintro ⟨⟩
        · rintro ⟨rfl, t, ⟨⟩, ⟨-, hheld⟩ | ⟨u, hu, -⟩⟩
          · exact absurd hheld hp
          · simp [holder?_of_ready hready] at hu
  · have hready := not_ready_of_holder? hholder
    rw [judge_of_holder? hholder]
    cases known with
    | none =>
      have hno := hmap (fun t => if s.containsUser u then .assign t u else .add t)
        fun t => by split <;> simp
      simpa [judgeOwned] using hno
    | some t =>
      cases hu : s.containsUser u with
      | true =>
        by_cases hassigned : s.assignedUser? r.taskId = some u <;>
          simp [judgeOwned, hu, hready, hholder, hassigned]
      | false =>
        cases hfree : t.isUnassigned <;>
          simp [judgeOwned, hu, hready, hholder, hfree, eq_comm (a := x)]
  · simp [judge_of_idle hready hholder, hready, hholder]

/-- The task of a record enters the published tasks if somebody holds it, and leaves them if it is
known and ready. -/
theorem mem_judge : x ∈ (judge s known r p).1 ↔ (x = r.taskId ∧ r.holder?.isSome = true) ∨
    (x ∈ p ∧ ¬ (x = r.taskId ∧ r.status = .ready ∧ known.isSome = true)) := by
  obtain hready | ⟨u, hholder⟩ | ⟨hready, hholder⟩ := record_cases r
  · have hholder := holder?_of_ready hready
    rw [judge_of_ready hready]
    cases known with
    | none => simp [judgeReady, hholder]
    | some t =>
      simp only [judgeReady]
      split
      · simp [hholder, hready, SortedSet.mem_erase, and_comm]
      · next hno =>
        have hx : x ∈ p → x ≠ r.taskId := by
          rintro hx rfl
          simp [hx] at hno
        simp only [hholder, hready]
        simpa using hx
  · have hready := not_ready_of_holder? hholder
    rw [judge_of_holder? hholder, SortedSet.mem_insert]
    simp [hholder, hready]
  · rw [judge_of_idle hready hholder]
    simp [hholder, hready]

end Assembly

end ChainPlanner
