import ChainPlanner.Proofs.Resync.Extent

/-!
# ChainPlanner.Proofs.Resync.Comparison

What a comparison with records comes to.  It goes through the records one by one and keeps what it
has seen, but what it asks for is known task by task: `verdict` judges the first record of a task
against the solution and the published tasks as they were before the first record.  `Tracks` says so
of a comparison that has come to its end, for a keyed solution and records of which none is about
the placeholder.
-/

namespace ChainPlanner.Assembly

open Solution Comparison

variable {s : Solution} {known : Option Task} {r : TaskRecord} {p p' : PublishedTasks}
  {records : List TaskRecord} {id x : TaskId} {u : UserId} {t : Task} {m : Mutation}

/-! ## the verdict on a task -/

/-- What the first record of a task asks for, and the published tasks after it. -/
def verdict (s : Solution) (published : PublishedTasks) (r : TaskRecord) :
    PublishedTasks × Except AssemblyError (Option Mutation) :=
  if r.status.isTerminal then (published, .ok none)
  else judge s (s.task? r.taskId) r published

/-- A task that is done with asks for nothing, and stays to be removed if it is there. -/
theorem verdict_of_terminal (h : r.status.isTerminal = true) : verdict s p r = (p, .ok none) :=
  if_pos h

theorem verdict_of_open (h : r.status.isTerminal = false) :
    verdict s p r = judge s (s.task? r.taskId) r p := if_neg (by simp [h])

/-- A record in a terminal status is judged no other way. -/
theorem verdict_eq_judge : verdict s p r = judge s (s.task? r.taskId) r p := by
  cases hterm : r.status.isTerminal with
  | true =>
    obtain ⟨hready, hholder⟩ := idle_of_isTerminal hterm
    rw [verdict_of_terminal hterm, judge_of_idle hready hholder]
  | false => exact verdict_of_open hterm

/-- A record asks for a change of its own task only, and only if the task is not done with. -/
theorem taskId_of_verdict (hs : s.Keyed) (h : (verdict s p r).2 = .ok (some m)) :
    m.taskId = r.taskId ∧ r.status.isTerminal = false := by
  cases hterm : r.status.isTerminal with
  | true =>
    rw [verdict_of_terminal hterm] at h
    cases h
  | false =>
    rw [verdict_of_open hterm] at h
    exact ⟨taskId_of_judge (fun t ht => hs.task_id ht) h, rfl⟩

/-- After a record its task is published if somebody holds it, and no longer so if it is ready and
known. -/
theorem mem_verdict : x ∈ (verdict s p r).1 ↔ (x = r.taskId ∧ r.holder?.isSome = true) ∨
    (x ∈ p ∧ ¬ (x = r.taskId ∧ r.status = .ready ∧ s.containsTask r.taskId = true)) := by
  rw [verdict_eq_judge, mem_judge]
  rfl

/-! ## the loop over the records -/

/-- What a comparison has kept of the records so far, given the first of them for each task: the
verdict on each task that a record has named, and the tasks of the solution still to be removed. -/
structure Tracks (s : Solution) (published : PublishedTasks) (first : TaskId → Option TaskRecord)
    (c : Comparison) : Prop where
  seen : ∀ x, x ∈ c.seen ↔ (first x).isSome = true
  remaining : ∀ x, x ∈ c.remaining ↔ x ≠ .placeholder ∧ s.containsTask x = true ∧
    ∀ r, first x = some r → r.status.isTerminal = true
  nodup_remaining : c.remaining.Nodup
  published_of_new : ∀ x, first x = none → (x ∈ c.published ↔ x ∈ published)
  published_of_seen : ∀ x r, first x = some r →
    (x ∈ c.published ↔ x ∈ (verdict s published r).1)
  answered : ∀ x r, first x = some r → ∃ answer, (verdict s published r).2 = .ok answer
  mutations : ∀ m, m ∈ c.mutations ↔
    ∃ r, first m.taskId = some r ∧ (verdict s published r).2 = .ok (some m)
  nodup_mutations : (c.mutations.map Mutation.taskId).Nodup

/-- At first every task but the placeholder remains to be removed. -/
theorem mem_remaining_start (hs : s.Keyed) (p : PublishedTasks) :
    x ∈ (start s p).remaining ↔ x ≠ .placeholder ∧ s.containsTask x = true := by
  have hmem : x ∈ s.tasks.values.map (·.id) ↔ s.containsTask x = true := by
    rw [List.mem_map, containsTask_iff]
    constructor
    · rintro ⟨t, ht, rfl⟩
      obtain ⟨k, hk⟩ := KeyedList.mem_values_iff.1 ht
      have hkey : t.id = k := hs.task_id hk
      exact ⟨t, by rw [hkey]; exact hk⟩
    · rintro ⟨t, ht⟩
      exact ⟨t, KeyedList.mem_values_iff.2 ⟨x, ht⟩, hs.task_id ht⟩
  simp only [start, List.mem_eraseDups, List.mem_filter, hmem]
  simp [TaskId.isPlaceholder, and_comm]

/-- In a keyed solution a record is judged against the task of its id, unless that is the
placeholder. -/
theorem subject?_eq (hs : s.Keyed) (hx : x ≠ .placeholder) : subject? s x = s.task? x := by
  rw [subject?]
  split
  · rfl
  · next hno =>
    rw [mem_remaining_start hs] at hno
    have habsent : ¬ s.containsTask x = true := fun hthere => hno ⟨hx, hthere⟩
    exact (containsTask_eq_false.1 (Bool.eq_false_iff.2 habsent)).symm

variable {c : Comparison} {first : TaskId → Option TaskRecord}

/-- The changes of a comparison are about different tasks. -/
theorem nodup_mutations_addAll (hs : s.Keyed) (hseen : ∀ m ∈ c.mutations, m.taskId ∈ c.seen)
    (hnd : (c.mutations.map Mutation.taskId).Nodup) :
    ((c.addAll s records).1.mutations.map Mutation.taskId).Nodup := by
  induction records generalizing c with
  | nil => exact hnd
  | cons r records ih =>
    -- only tasks that have been seen are changed, and each is seen once
    have hstep : (∀ m ∈ (c.add s r).1.mutations, m.taskId ∈ (c.add s r).1.seen) ∧
        ((c.add s r).1.mutations.map Mutation.taskId).Nodup := by
      by_cases hmet : r.taskId ∈ c.seen
      · rw [add_of_seen hmet]
        exact ⟨hseen, hnd⟩
      · rw [add_of_new hmet rfl]
        have hid : ∀ m ∈ asked (judge s (if r.taskId ∈ c.remaining then s.task? r.taskId else none)
            r c.published).2, m.taskId = r.taskId := by
          intro m hm
          refine taskId_of_judge (fun t ht => ?_) (mem_asked_iff.1 hm)
          split at ht
          · exact hs.task_id ht
          · cases ht
        constructor
        · intro m hm
          rcases List.mem_append.1 hm with hm | hm
          · exact List.mem_cons_of_mem _ (hseen m hm)
          · exact hid m hm ▸ List.mem_cons_self
        · have hone : ((asked (judge s (if r.taskId ∈ c.remaining then s.task? r.taskId else none)
              r c.published).2).map Mutation.taskId).Nodup := by
            unfold asked
            split <;> simp
          rw [List.map_append, List.nodup_append]
          refine ⟨hnd, hone, fun x hx y hy heq => hmet ?_⟩
          obtain ⟨m, hm, rfl⟩ := List.mem_map.1 hx
          obtain ⟨m', hm', rfl⟩ := List.mem_map.1 hy
          rw [← hid m' hm', ← heq]
          exact hseen m hm
    rw [Comparison.addAll]
    cases hadd : c.add s r with
    | mk c₁ answer =>
      rw [hadd] at hstep
      cases answer with
      | error e => exact hstep.2
      | ok _ => exact ih hstep.1 hstep.2

/-- What has been heard of all records, if all fit, is the verdict on each task. -/
theorem Heard.tracks (h : Heard s p (firstRecord? records) c) (hs : s.Keyed)
    (hrecords : ∀ r ∈ records, r.taskId ≠ .placeholder) (hfit : AllFit s (firstRecord? records))
    (hnd : (c.mutations.map Mutation.taskId).Nodup) : Tracks s p (firstRecord? records) c := by
  have hreal : ∀ x r, firstRecord? records x = some r → r.taskId = x ∧ x ≠ .placeholder :=
    fun x r hr => ⟨taskId_of_firstRecord? hr,
      taskId_of_firstRecord? hr ▸ hrecords r (List.mem_of_find?_eq_some hr)⟩
  -- the placeholder has no record, so judging a record is the verdict on it
  have hverdict : ∀ x r, firstRecord? records x = some r →
      judge s (subject? s x) r p = verdict s p r := by
    intro x r hr
    obtain ⟨hid, hx⟩ := hreal x r hr
    rw [verdict_eq_judge, hid, subject?_eq hs hx]
  exact {
    seen := h.seen
    remaining := fun x => by rw [h.remaining, mem_remaining_start hs, and_assoc]
    nodup_remaining := h.nodup_remaining
    published_of_new := fun x hx => h.published_iff hx
    published_of_seen := fun x r hr => by
      obtain ⟨hid, hx⟩ := hreal x r hr
      rw [h.published, mem_verdict, hid, hr, subject?_eq hs hx]
      simp only [Option.some.injEq, exists_eq_left', true_and]
      rfl
    answered := fun x r hr => by
      have hfits : ¬ Unfit s r := hfit x r hr
      rw [unfit_iff (p := p), (hreal x r hr).1, hverdict x r hr] at hfits
      cases hanswer : (verdict s p r).2 with
      | error e => exact absurd ⟨e, hanswer⟩ hfits
      | ok answer => exact ⟨answer, rfl⟩
    mutations := fun m => by
      rw [h.mutations]
      constructor
      · rintro ⟨x, r, hr, hm⟩
        rw [hverdict x r hr] at hm
        have hid : m.taskId = x := (taskId_of_verdict hs hm).1.trans (hreal x r hr).1
        exact ⟨r, by rw [hid, hr], hm⟩
      · rintro ⟨r, hr, hm⟩
        exact ⟨m.taskId, r, hr, by rw [hverdict _ r hr, hm]⟩
    nodup_mutations := hnd }

/-- The changes that a comparison asks for after the last record. -/
def Comparison.changes (c : Comparison) : List Mutation := c.mutations ++ c.remaining.map .remove

/-- A comparison that succeeds has judged the first record of each task. -/
theorem exists_tracks {ms : List Mutation} (hs : s.Keyed)
    (hrecords : ∀ r ∈ records, r.taskId ≠ .placeholder)
    (hresync : resync s records p = (.ok ms, p')) :
    ∃ c, Tracks s p (firstRecord? records) c ∧ ms = c.changes ∧ p' = c.published := by
  have hheard := heard_addAll s p records
  have hnd : (((start s p).addAll s records).1.mutations.map Mutation.taskId).Nodup :=
    nodup_mutations_addAll hs (by simp [start]) (by simp [start])
  rcases resync_cases s records p with ⟨-, hall, hfit⟩ | ⟨e, -, -, -, he, -⟩
  · rw [hall] at hheard
    refine ⟨_, hheard.tracks hs hrecords hfit hnd, ?_⟩
    rw [resync_eq] at hresync
    cases hanswer : ((start s p).addAll s records).2 with
    | error e =>
      rw [hanswer] at hresync
      cases hresync
    | ok _ =>
      rw [hanswer] at hresync
      cases hresync
      exact ⟨rfl, rfl⟩
  · rw [hresync] at he
    cases he

/-! ## when a comparison succeeds -/

/-- A comparison with records whose tasks can be read succeeds. -/
theorem exists_resync_ok (s : Solution) (p : PublishedTasks)
    (h : ∀ r ∈ records, ∃ t, r.task? = .ok t) : ∃ ms p', resync s records p = (.ok ms, p') := by
  have hfit : AllFit s (firstRecord? records) := by
    intro x r hr hbad
    obtain ⟨t, ht⟩ := h r (List.mem_of_find?_eq_some hr)
    exact hbad.unreadable t ht
  obtain ⟨ms, hok⟩ := resync_isOk_iff.2 hfit
  exact ⟨ms, (resync s records p).2, by rw [← hok]⟩

end ChainPlanner.Assembly
