import ChainPlanner.Proofs.Resync.Comparison
import ChainPlanner.Proofs.Resync.Standing

/-!
# ChainPlanner.Proofs.Resync.Soundness

The changes that a comparison finds can be made, all of them, and bring the solution in line with
the records.  There is at most one change for a task and it finds what it needs in the solution that
was compared, so the standing of each task afterwards is that of its own change alone.  What remains
is one case analysis on the first record of a task.
-/

namespace ChainPlanner

/-- How a task stands after a change, if there is one. -/
def Standing.after (st : Standing) : Option Mutation → Standing
  | none => st
  | some m => m.effect st

namespace Assembly

open Solution Comparison

variable {s s' : Solution} {lists : UserId → List TaskId} {r : TaskRecord} {p p' : PublishedTasks}
  {records : List TaskRecord} {x : TaskId} {u : UserId} {m : Mutation} {ms : List Mutation}
  {answer : Option Mutation} {first : TaskId → Option TaskRecord} {c : Comparison}

/-! ## the changes that are found -/

/-- A change that a record asks for can be made. -/
theorem applicable_of_verdict (h : (verdict s p r).2 = .ok (some m)) : m.Applicable s := by
  rw [verdict_eq_judge] at h
  obtain hready | ⟨u, hholder⟩ | ⟨hready, hholder⟩ := record_cases r
  · rw [judge_of_ready hready] at h
    cases hknown : s.task? r.taskId with
    | none =>
      rw [hknown] at h
      obtain ⟨t, ht, hm⟩ := exists_of_map_task? h
      cases hm
      rw [← taskId_of_task? ht] at hknown
      exact hknown
    | some t =>
      rw [hknown, judgeReady] at h
      split at h <;> cases h
      trivial
  · rw [judge_of_holder? hholder] at h
    cases hknown : s.task? r.taskId with
    | none =>
      rw [hknown] at h
      obtain ⟨t, ht, hm⟩ := exists_of_map_task? h
      rw [← taskId_of_task? ht] at hknown
      split at hm <;> cases hm
      · assumption
      · exact hknown
    | some t =>
      simp only [hknown, judgeOwned, Except.ok.injEq] at h
      split at h
      · next hu =>
        split at h <;> cases h
        exact hu
      · split at h <;> cases h
        trivial
  · rw [judge_of_idle hready hholder] at h
    cases h

/-- Every change asked for so far can be made. -/
theorem Tracks.applicable (h : Tracks s p first c) :
    ∀ m ∈ c.changes, m.Applicable s := by
  intro m hm
  cases List.mem_append.1 hm with
  | inl hm =>
    obtain ⟨r, -, hverdict⟩ := (h.mutations m).1 hm
    exact applicable_of_verdict hverdict
  | inr hm =>
    obtain ⟨x, -, rfl⟩ := List.mem_map.1 hm
    trivial

theorem map_taskId_remove (ids : List TaskId) :
    (ids.map Mutation.remove).map Mutation.taskId = ids := by
  rw [List.map_map]
  exact List.map_id ids

/-- No two changes asked for are about one task. -/
theorem Tracks.nodup_ids (h : Tracks s p first c) (hs : s.Keyed) :
    (c.changes.map Mutation.taskId).Nodup := by
  rw [changes, List.map_append, map_taskId_remove, List.nodup_append]
  have hdisjoint : ∀ x ∈ c.mutations.map Mutation.taskId, ∀ y ∈ c.remaining, x ≠ y := by
    rintro x hx y hy rfl
    obtain ⟨m, hm, rfl⟩ := List.mem_map.1 hx
    obtain ⟨r, hr, hverdict⟩ := (h.mutations m).1 hm
    have hopen := (taskId_of_verdict hs hverdict).2
    rw [((h.remaining m.taskId).1 hy).2.2 r hr] at hopen
    cases hopen
  exact ⟨h.nodup_mutations, h.nodup_remaining, hdisjoint⟩

/-- A change is about a task whose first record asks for one, or about one that is to be removed. -/
theorem Tracks.exists_of_mem_ids (h : Tracks s p first c)
    (hx : x ∈ c.changes.map Mutation.taskId) :
    (∃ r m, first x = some r ∧ (verdict s p r).2 = .ok (some m)) ∨ x ∈ c.remaining := by
  rw [changes, List.map_append, map_taskId_remove, List.mem_append] at hx
  cases hx with
  | inl hx =>
    obtain ⟨m, hm, rfl⟩ := List.mem_map.1 hx
    obtain ⟨r, hr, hverdict⟩ := (h.mutations m).1 hm
    exact .inl ⟨r, m, hr, hverdict⟩
  | inr hx => exact .inr hx

/-! ## one record -/

/-- A ready task is there afterwards, not pinned, and it keeps its place exactly if it was neither
pinned nor published. -/
theorem standing_after_ready (hready : r.status = .ready)
    (hanswer : (verdict s p r).2 = .ok answer) : (s.standing r.taskId).after answer =
      ⟨some false, if (s.standing r.taskId).pinned = some false ∧ r.taskId ∉ p then
        (s.standing r.taskId).user else none⟩ := by
  rw [verdict_eq_judge, judge_of_ready hready] at hanswer
  cases hknown : s.task? r.taskId with
  | none =>
    rw [hknown] at hanswer
    obtain ⟨t, ht, rfl⟩ := exists_of_map_task? hanswer
    have hunpinned := pinned_of_task? ht
    simp [Standing.after, Mutation.effect, standing, hknown, hunpinned]
  | some t =>
    have hstanding : s.standing r.taskId = ⟨some t.pinned, s.assignedUser? r.taskId⟩ := by
      rw [standing, hknown, Option.map_some]
    rw [hknown, judgeReady] at hanswer
    cases hpinned : t.pinned <;> by_cases hpublished : r.taskId ∈ p <;>
      simp [hpinned, hpublished] at hanswer <;> subst hanswer <;>
      simp [Standing.after, Mutation.effect, hstanding, hpinned, hpublished]

/-- A ready task is there afterwards.  If it was pinned or published it is free, and if it was not
there it is in no chain. -/
theorem standing_of_ready (hready : r.status = .ready) (hanswer : (verdict s p r).2 = .ok answer) :
    ((s.standing r.taskId).after answer).pinned.isSome = true ∧
      (∀ t, s.task? r.taskId = some t → (t.pinned = true ∨ r.taskId ∈ p) →
        (s.standing r.taskId).after answer = ⟨some false, none⟩) ∧
      (s.task? r.taskId = none → ((s.standing r.taskId).after answer).user = none) := by
  rw [standing_after_ready hready hanswer]
  refine ⟨rfl, fun t ht hheld => ?_, fun ht => ?_⟩
  · rw [if_neg]
    rintro ⟨hpinned, hpublished⟩
    simp_all [standing]
  · rw [if_neg]
    simp [standing, ht]

/-- A task that somebody holds is there afterwards, assigned to the holder if the holder is known
and to nobody otherwise. -/
theorem standing_of_holder? (h : s.Arranged lists) (hholder : r.holder? = some u)
    (hanswer : (verdict s p r).2 = .ok answer) :
    ((s.standing r.taskId).after answer).pinned.isSome = true ∧
      ((s.standing r.taskId).after answer).user =
        if s.containsUser u = true then some u else none := by
  rw [verdict_eq_judge, judge_of_holder? hholder] at hanswer
  cases hknown : s.task? r.taskId with
  | none =>
    rw [hknown] at hanswer
    obtain ⟨t, -, rfl⟩ := exists_of_map_task? hanswer
    split <;> simp [Standing.after, Mutation.effect]
  | some t =>
    have hpinned : (s.standing r.taskId).pinned = some t.pinned := by
      rw [standing, hknown, Option.map_some]
    simp only [hknown, judgeOwned, Except.ok.injEq] at hanswer
    split at hanswer
    · next hu =>
      rw [if_pos hu]
      split at hanswer
      · next hassigned =>
        cases hanswer
        exact ⟨by simp [Standing.after, hpinned], hassigned⟩
      · cases hanswer
        simp [Standing.after, Mutation.effect]
    · next hu =>
      rw [if_neg hu]
      split at hanswer
      · next hfree =>
        cases hanswer
        have hno : s.assignedUser? r.taskId = none :=
          h.assignedUser?_eq_none_iff.2 fun v =>
            h.not_mem_of_previous hknown (Option.isNone_iff_eq_none.1 hfree)
        exact ⟨by simp [Standing.after, hpinned], hno⟩
      · cases hanswer
        simp [Standing.after, Mutation.effect, hpinned]

/-- A record that asks for nothing leaves its task as it stands. -/
theorem standing_of_idle (hready : r.status ≠ .ready) (hholder : r.holder? = none)
    (hanswer : (verdict s p r).2 = .ok answer) :
    (s.standing r.taskId).after answer = s.standing r.taskId := by
  rw [verdict_eq_judge, judge_of_idle hready hholder] at hanswer
  cases hanswer
  rfl

/-! ## the solution afterwards -/

/-- A solution is in line with records, as a comparison of another one with them asks: a task whose
first record is not terminal stands as the verdict on that record says, and any other one is
gone. -/
structure InLine (s : Solution) (records : List TaskRecord) (p : PublishedTasks) (s' : Solution) :
    Prop where
  judged : ∀ {x r}, firstRecord? records x = some r → r.status.isTerminal = false →
    ∃ answer, (verdict s p r).2 = .ok answer ∧ s'.standing x = (s.standing x).after answer
  gone : ∀ {x}, x ≠ .placeholder →
    (∀ r, firstRecord? records x = some r → r.status.isTerminal = true) →
    s'.standing x = ⟨none, none⟩

namespace InLine

/-- How a ready task stands after the changes. -/
theorem standing_eq_of_ready (h : InLine s records p s') (hr : firstRecord? records x = some r)
    (hready : r.status = .ready) : s'.standing x =
      ⟨some false, if (s.standing x).pinned = some false ∧ x ∉ p then (s.standing x).user
        else none⟩ := by
  obtain ⟨answer, hanswer, hstanding⟩ := h.judged hr (by rw [hready]; rfl)
  have hcase := standing_after_ready hready hanswer
  rwa [taskId_of_firstRecord? hr, ← hstanding] at hcase

/-- A ready task is there afterwards, without a pin and without a place if it is new or was
released. -/
theorem of_ready (h : InLine s records p s') (hr : firstRecord? records x = some r)
    (hready : r.status = .ready) :
    (s'.standing x).pinned.isSome = true ∧
      (∀ t, s.task? x = some t → (t.pinned = true ∨ x ∈ p) → s'.standing x = ⟨some false, none⟩) ∧
      (s.task? x = none → (s'.standing x).user = none) := by
  obtain ⟨answer, hanswer, hstanding⟩ := h.judged hr (by rw [hready]; rfl)
  have hcase := standing_of_ready hready hanswer
  rw [taskId_of_firstRecord? hr, ← hstanding] at hcase
  exact hcase

/-- A held task is there afterwards, with its holder if that worker is known. -/
theorem of_holder? (h : InLine s records p s') (hs : s.Arranged lists)
    (hr : firstRecord? records x = some r) (hholder : r.holder? = some u) :
    (s'.standing x).pinned.isSome = true ∧
      (s'.standing x).user = if s.containsUser u = true then some u else none := by
  obtain ⟨answer, hanswer, hstanding⟩ := h.judged hr (isTerminal_of_holder? hholder)
  have hcase := standing_of_holder? hs hholder hanswer
  rw [taskId_of_firstRecord? hr, ← hstanding] at hcase
  exact hcase

/-- A task that is neither ready nor held nor done with stands as before. -/
theorem of_idle (h : InLine s records p s') (hr : firstRecord? records x = some r)
    (hterm : r.status.isTerminal = false) (hready : r.status ≠ .ready)
    (hholder : r.holder? = none) : s'.standing x = s.standing x := by
  obtain ⟨answer, hanswer, hstanding⟩ := h.judged hr hterm
  have hcase := standing_of_idle hready hholder hanswer
  rw [taskId_of_firstRecord? hr, ← hstanding] at hcase
  exact hcase

/-- A task is there afterwards exactly if its first record is not terminal and it was there, is
ready or is held by somebody. -/
theorem containsTask_iff (h : InLine s records p s') (hs : s.Arranged lists)
    (hx : x ≠ .placeholder) : s'.containsTask x = true ↔
      ∃ r, firstRecord? records x = some r ∧ r.status.isTerminal = false ∧
        (s.containsTask x = true ∨ r.status = .ready ∨ r.holder?.isSome = true) := by
  by_cases hex : ∃ r, firstRecord? records x = some r ∧ r.status.isTerminal = false
  · obtain ⟨r, hr, hterm⟩ := hex
    have hkeep : s'.containsTask x = true ↔
        s.containsTask x = true ∨ r.status = .ready ∨ r.holder?.isSome = true := by
      obtain hready | ⟨u, hholder⟩ | ⟨hready, hholder⟩ := record_cases r
      · simp [containsTask_iff_standing, (h.of_ready hr hready).1, hready]
      · simp [containsTask_iff_standing, (h.of_holder? hs hr hholder).1, hholder]
      · rw [containsTask_iff_standing, h.of_idle hr hterm hready hholder,
          ← containsTask_iff_standing]
        simp [hready, hholder]
    rw [hkeep]
    simp [hr, hterm]
  · have hdone : ∀ r, firstRecord? records x = some r → r.status.isTerminal = true := by
      intro r hr
      by_contra hterm
      exact hex ⟨r, hr, by simpa using hterm⟩
    have habsent : s'.containsTask x ≠ true := by
      simp [containsTask_iff_standing, h.gone hx hdone]
    constructor
    · intro hthere
      exact absurd hthere habsent
    · rintro ⟨r, hr, hterm, -⟩
      exact absurd ⟨r, hr, hterm⟩ hex

end InLine

/-- All changes that a comparison finds can be made, and bring the solution in line with the
records.  A task without a change stands as it did. -/
theorem exists_applyAll_resync (h : s.Arranged lists)
    (hrecords : ∀ r ∈ records, r.taskId ≠ .placeholder)
    (hresync : resync s records p = (.ok ms, p')) :
    (ms.map Mutation.taskId).Nodup ∧ .placeholder ∉ ms.map Mutation.taskId ∧
      ∃ s' lists', Mutation.applyAll ms s = (.ok (), s') ∧ s'.Arranged lists' ∧
        InLine s records p s' ∧ ∀ x, x ∉ ms.map Mutation.taskId → s'.standing x = s.standing x := by
  obtain ⟨c, htracks, rfl, -⟩ := exists_tracks h.keyed hrecords hresync
  have hnd := htracks.nodup_ids h.keyed
  obtain ⟨s', lists', hall, h', -, heffect, hsame⟩ :=
    Mutation.exists_applyAll_standing h htracks.applicable hnd
  have hplaceholder :
      .placeholder ∉ c.changes.map Mutation.taskId := by
    intro hmem
    obtain ⟨r, -, hr, -⟩ | hmem := htracks.exists_of_mem_ids hmem
    · exact hrecords r (List.mem_of_find?_eq_some hr) (taskId_of_firstRecord? hr)
    · exact ((htracks.remaining _).1 hmem).1 rfl
  -- a task with an open record is changed by what its record asks for, and by nothing else
  have hjudged : ∀ {x r}, firstRecord? records x = some r → r.status.isTerminal = false →
      ∃ answer, (verdict s p r).2 = .ok answer ∧
        s'.standing x = (s.standing x).after answer := by
    intro x r hr hterm
    obtain ⟨answer, hanswer⟩ := htracks.answered x r hr
    cases answer with
    | none =>
      have hno : x ∉ c.changes.map Mutation.taskId := by
        intro hmem
        obtain ⟨r₁, m, hr₁, hverdict⟩ | hmem := htracks.exists_of_mem_ids hmem
        · rw [hr] at hr₁
          cases hr₁
          rw [hanswer] at hverdict
          cases hverdict
        · have hdone := ((htracks.remaining x).1 hmem).2.2 r hr
          rw [hterm] at hdone
          cases hdone
      exact ⟨none, hanswer, hsame x hno⟩
    | some m =>
      have hid : m.taskId = x := by
        rw [(taskId_of_verdict h.keyed hanswer).1, taskId_of_firstRecord? hr]
      have hm : m ∈ c.mutations := (htracks.mutations m).2 ⟨r, by rw [hid]; exact hr, hanswer⟩
      have hstanding := heffect m (List.mem_append_left _ hm)
      rw [hid] at hstanding
      exact ⟨some m, hanswer, hstanding⟩
  -- a task without an open record is removed if it is there
  have hgone : ∀ {x}, x ≠ .placeholder →
      (∀ r, firstRecord? records x = some r → r.status.isTerminal = true) →
      s'.standing x = ⟨none, none⟩ := by
    intro x hx hdone
    cases hx' : s.task? x with
    | some t =>
      have hmem : x ∈ c.remaining :=
        (htracks.remaining x).2 ⟨hx, containsTask_iff.2 ⟨t, hx'⟩, hdone⟩
      exact heffect (.remove x) (List.mem_append_right _ (List.mem_map_of_mem hmem))
    | none =>
      have hno : x ∉ c.changes.map Mutation.taskId := by
        intro hmem
        obtain ⟨r, m, hr, hverdict⟩ | hmem := htracks.exists_of_mem_ids hmem
        · have hopen := (taskId_of_verdict h.keyed hverdict).2
          rw [hdone r hr] at hopen
          cases hopen
        · have hthere := ((htracks.remaining x).1 hmem).2.1
          rw [containsTask_eq_false.2 hx'] at hthere
          cases hthere
      rw [hsame x hno, h.standing_of_absent hx']
  exact ⟨hnd, hplaceholder, s', lists', hall, h', ⟨hjudged, hgone⟩, hsame⟩

/-! ## the published tasks afterwards -/

/-- A comparison enters the tasks that somebody holds into the published tasks, and takes out those
of the solution that are ready. -/
theorem mem_published_resync (hs : s.Keyed) (hrecords : ∀ r ∈ records, r.taskId ≠ .placeholder)
    (hresync : resync s records p = (.ok ms, p')) :
    x ∈ p' ↔ (∃ r, firstRecord? records x = some r ∧ r.holder?.isSome = true) ∨
      (x ∈ p ∧ ¬ ∃ r, firstRecord? records x = some r ∧ r.status = .ready ∧
        s.containsTask x = true) := by
  obtain ⟨c, htracks, -, rfl⟩ := exists_tracks hs hrecords hresync
  cases hr : firstRecord? records x with
  | none => simp [htracks.published_of_new x hr]
  | some r =>
    have hid := taskId_of_firstRecord? hr
    rw [htracks.published_of_seen x r hr, mem_verdict, hid]
    simp

/-! ## soundness -/

/-- The changes that a comparison with records finds are about different tasks, never about the
placeholder, and can all be made.  Afterwards a task is there exactly if its first record is not
terminal and it was there, is ready or is held by somebody; a task that a known worker holds is
assigned to that worker, and one that anybody else holds to nobody; a ready task that was pinned or
published is free, and one that was not there is in no chain; and a task without a change stands as
it did.  The published tasks are the held ones and those published before, without the ready ones of
the solution. -/
theorem resync_sound (hs : s.Reachable) (hrecords : ∀ r ∈ records, r.taskId ≠ .placeholder)
    (hresync : resync s records p = (.ok ms, p')) :
    (ms.map Mutation.taskId).Nodup ∧ .placeholder ∉ ms.map Mutation.taskId ∧
      (∃ s', Mutation.applyAll ms s = (.ok (), s') ∧
        (∀ id, id ≠ .placeholder → (s'.containsTask id = true ↔
          ∃ r, firstRecord? records id = some r ∧ r.status.isTerminal = false ∧
            (s.containsTask id = true ∨ r.status = .ready ∨ r.holder?.isSome = true))) ∧
        (∀ id r u, firstRecord? records id = some r → r.holder? = some u →
          s.containsUser u = true → s'.assignedUser? id = some u) ∧
        (∀ id r u, firstRecord? records id = some r → r.holder? = some u →
          s.containsUser u = false → s'.assignedUser? id = none) ∧
        (∀ id r, firstRecord? records id = some r → r.status = .ready →
          (∀ t, s.task? id = some t → (t.pinned = true ∨ id ∈ p) →
            s'.assignedUser? id = none ∧ (s'.task? id).map (·.pinned) = some false) ∧
          (s.task? id = none → s'.assignedUser? id = none)) ∧
        (∀ id, id ∉ ms.map Mutation.taskId → s'.assignedUser? id = s.assignedUser? id ∧
          (s'.task? id).map (·.pinned) = (s.task? id).map (·.pinned))) ∧
      ∀ id, id ∈ p' ↔ (∃ r, firstRecord? records id = some r ∧ r.holder?.isSome = true) ∨
        (id ∈ p ∧ ¬ ∃ r, firstRecord? records id = some r ∧ r.status = .ready ∧
          s.containsTask id = true) := by
  have h := hs.arranged
  obtain ⟨hnd, hplaceholder, s', -, hall, -, hline, hsame⟩ :=
    exists_applyAll_resync h hrecords hresync
  have hknown : ∀ id r u, firstRecord? records id = some r → r.holder? = some u →
      s.containsUser u = true → s'.assignedUser? id = some u := by
    intro id r u hr hholder hu
    have huser := (hline.of_holder? h hr hholder).2
    rwa [if_pos hu] at huser
  have hunknown : ∀ id r u, firstRecord? records id = some r → r.holder? = some u →
      s.containsUser u = false → s'.assignedUser? id = none := by
    intro id r u hr hholder hu
    have huser := (hline.of_holder? h hr hholder).2
    rwa [if_neg (by simp [hu])] at huser
  have hready : ∀ id r, firstRecord? records id = some r → r.status = .ready →
      (∀ t, s.task? id = some t → (t.pinned = true ∨ id ∈ p) →
        s'.assignedUser? id = none ∧ (s'.task? id).map (·.pinned) = some false) ∧
      (s.task? id = none → s'.assignedUser? id = none) := by
    intro id r hr hstatus
    obtain ⟨-, hreleased, hadded⟩ := hline.of_ready hr hstatus
    have hfree : ∀ t, s.task? id = some t → (t.pinned = true ∨ id ∈ p) →
        s'.assignedUser? id = none ∧ (s'.task? id).map (·.pinned) = some false := by
      intro t ht hheld
      have hstanding := hreleased t ht hheld
      exact ⟨congrArg Standing.user hstanding, congrArg Standing.pinned hstanding⟩
    exact ⟨hfree, hadded⟩
  have hkept : ∀ id, id ∉ ms.map Mutation.taskId → s'.assignedUser? id = s.assignedUser? id ∧
      (s'.task? id).map (·.pinned) = (s.task? id).map (·.pinned) := fun id hid =>
    ⟨congrArg Standing.user (hsame id hid), congrArg Standing.pinned (hsame id hid)⟩
  exact ⟨hnd, hplaceholder,
    ⟨s', hall, fun id hid => hline.containsTask_iff h hid, hknown, hunknown, hready, hkept⟩,
    fun id => mem_published_resync h.keyed hrecords hresync⟩

/-- A record of a task with nothing to say beside its status and its owner. -/
def recordOf (n : Int64) (status : TaskStatus) (owner : Option UserId) : TaskRecord where
  taskId := ⟨n⟩
  processInstanceId := 0
  processId := ""
  containerId := ""
  name := ""
  priority := 10
  status
  actualOwner := owner
  potentialOwners := []
  inputData := []
  planningParameters := none

/-- Of a chain of two tasks the first is ready again and the second is gone, the third task is taken
by the worker of the chain, whatever a later record says, and a fourth one is new. -/
theorem resync_sound_three_tasks :
    let s := Operation.runAll callsForThree ∅
    let records := [recordOf 1 .ready none, recordOf 3 .suspended (some ⟨"ann"⟩),
      recordOf 3 .completed none, recordOf 4 .ready none]
    let ms := [.release ⟨1⟩, .assign (.ofId ⟨3⟩ "" .lowest) ⟨"ann"⟩, .add (.ofId ⟨4⟩ "" .lowest),
      .remove ⟨2⟩]
    s.Reachable ∧ (∀ r ∈ records, r.taskId ≠ .placeholder) ∧
      resync s records (.ofList [⟨1⟩]) = (.ok ms, .ofList [⟨3⟩]) ∧
      ∃ s', Mutation.applyAll ms s = (.ok (), s') ∧ s'.assignedUser? ⟨3⟩ = some ⟨"ann"⟩ := by
  intro s records ms
  have hreach : s.Reachable := ⟨callsForThree, rfl⟩
  have hrecords : ∀ r ∈ records, r.taskId ≠ .placeholder := by decide +kernel
  have hresync : resync s records (.ofList [⟨1⟩]) = (.ok ms, .ofList [⟨3⟩]) := by decide +kernel
  obtain ⟨-, -, ⟨s', hall, -, hknown, -⟩, -⟩ := resync_sound hreach hrecords hresync
  exact ⟨hreach, hrecords, hresync, s', hall,
    hknown ⟨3⟩ (recordOf 3 .suspended (some ⟨"ann"⟩)) ⟨"ann"⟩ (by decide +kernel)
      (by decide +kernel) (by decide +kernel)⟩

end Assembly

end ChainPlanner
