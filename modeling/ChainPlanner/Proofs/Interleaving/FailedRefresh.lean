import ChainPlanner.Proofs.Interleaving.StaleRecords

/-!
# ChainPlanner.Proofs.Interleaving.FailedRefresh

What a refresh that fails leaves behind.

The next look at the task runtime is meant to be the retry, and almost everything is still as it
was: the solutions, the changes submitted, the optimizer and its queue.  Only the comparison has
worked on the published tasks themselves, record by record, up to the record at which it stopped.
So a published task that was ready in one of the records before has been forgotten, and nobody has
been told to release it.  The next comparison looks whether the task is published, finds that it is
not, and leaves it where it is.  `failed_refresh` says that these releases are lost, and that
nothing else is.
-/

namespace ChainPlanner

open Assembly Comparison

namespace Assembly

variable {s : Solution} {p p' : PublishedTasks} {records done rest : List TaskRecord}
  {stop : Option TaskRecord} {ms : List Mutation} {m : Mutation} {x : TaskId}

/-- Where a refresh stops that fails: at the first record that does not fit, or behind all of them
because the optimizer has not been built. -/
inductive StopsAt (s : Solution) (d : Driver) :
    (done : List TaskRecord) → (stop : Option TaskRecord) → (rest : List TaskRecord) → Prop
  | unfit {done : List TaskRecord} {bad : TaskRecord} (rest : List TaskRecord)
      (fit : AllFit s (firstRecord? done)) (new : firstRecord? done bad.taskId = none)
      (unfit : Unfit s bad) : StopsAt s d done (some bad) rest
  | refused {done : List TaskRecord} (fit : AllFit s (firstRecord? done))
      (unbuilt : d.submit = .error .notInitialized) : StopsAt s d done none []

/-- A published task that is in the solution, not pinned, and ready in records that were heard. -/
structure Forgotten (s : Solution) (p : PublishedTasks) (done : List TaskRecord) (x : TaskId) :
    Prop where
  published : x ∈ p
  unpinned : ∃ t, subject? s x = some t ∧ t.pinned = false
  ready : ∃ r, firstRecord? done x = some r ∧ r.status = .ready

/-- What has been heard when a refresh stops. -/
structure HeardUpTo (s : Solution) (p p' : PublishedTasks) (done : List TaskRecord)
    (stop : Option TaskRecord) : Prop where
  new : ∀ bad, stop = some bad → subject? s bad.taskId = none
  published : ∀ x, x ∈ p' ↔
    (∃ r, firstRecord? (done ++ stop.toList) x = some r ∧ r.holder?.isSome = true) ∨
    (x ∈ p ∧ ¬ ∃ r, firstRecord? (done ++ stop.toList) x = some r ∧ r.status = .ready ∧
      (subject? s x).isSome = true)

namespace HeardUpTo

/-- The record at which the refresh stopped is about none of the tasks that are there. -/
theorem firstRecord?_eq (h : HeardUpTo s p p' done stop) (hx : (subject? s x).isSome = true) :
    firstRecord? (done ++ stop.toList) x = firstRecord? done x := by
  cases hstop : stop with
  | none => simp
  | some bad =>
    have hne : bad.taskId ≠ x := by
      rintro rfl
      simp [h.new bad hstop] at hx
    simp [firstRecord?, hne]

/-- A task that is there and ready is still published if it was, and no record heard named it. -/
theorem mem_iff_of_ready (h : HeardUpTo s p p' done stop) (hx : (subject? s x).isSome = true)
    {r : TaskRecord} (hr : firstRecord? (done ++ rest) x = some r) (hready : r.status = .ready) :
    x ∈ p' ↔ x ∈ p ∧ firstRecord? done x = none := by
  rw [h.published, h.firstRecord?_eq hx]
  cases hfirst : firstRecord? done x with
  | none => simp
  | some r₁ =>
    have hsame : r₁ = r := by simpa [firstRecord?_append_of_some hfirst] using hr
    simp [hsame, hready, hx, holder?_of_ready hready]

/-- What a record asks for afterwards: the same as before, unless that is a release that has been
forgotten. -/
theorem judge_eq_some_iff (h : HeardUpTo s p p' done stop) {r : TaskRecord}
    (hr : firstRecord? (done ++ rest) x = some r) :
    (judge s (subject? s x) r p').2 = .ok (some m) ↔
      (judge s (subject? s x) r p).2 = .ok (some m) ∧
        ∀ y, m = .release y → ¬ Forgotten s p done y := by
  have hid : r.taskId = x := taskId_of_firstRecord? hr
  by_cases hforgotten : Forgotten s p done x
  · obtain ⟨hp, ⟨t, ht, hpinned⟩, r₁, hr₁, hready⟩ := hforgotten
    obtain rfl : r₁ = r := by simpa [firstRecord?_append_of_some hr₁] using hr
    have hgone : x ∉ p' := by
      rw [h.mem_iff_of_ready (by simp [ht]) hr hready, hr₁]
      simp
    rw [ht, judge_of_ready hready, judge_of_ready hready]
    have hafter : (judgeReady (some t) r₁ p').2 = .ok none := by
      simp [judgeReady, hpinned, hid, hgone]
    have hbefore : (judgeReady (some t) r₁ p).2 = .ok (some (.release x)) := by
      simp [judgeReady, hid, hp]
    rw [hafter, hbefore]
    constructor
    · rintro ⟨⟩
    · rintro ⟨⟨⟩, hkept⟩
      exact absurd ⟨hp, ⟨t, ht, hpinned⟩, r₁, hr₁, hready⟩ (hkept x rfl)
  · have hsame : (judge s (subject? s x) r p').2 = (judge s (subject? s x) r p).2 := by
      refine judge_congr_of_ready fun t ht hpinned hready => ?_
      rw [hid, h.mem_iff_of_ready (by simp [ht]) hr hready, and_iff_left_iff_imp]
      intro hp
      by_contra hnamed
      obtain ⟨r₁, hr₁⟩ := Option.ne_none_iff_exists'.1 hnamed
      obtain rfl : r₁ = r := by simpa [firstRecord?_append_of_some hr₁] using hr
      exact hforgotten ⟨hp, ⟨t, ht, hpinned⟩, r₁, hr₁, hready⟩
    rw [hsame, iff_self_and]
    rintro hjudge y rfl
    obtain ⟨rfl, -⟩ := judge_eq_release_iff.1 hjudge
    rwa [hid]

/-- A comparison with the records that were heard and any further ones succeeds if it would have,
and asks for the same changes without the forgotten releases. -/
theorem exists_resync (h : HeardUpTo s p p' done stop)
    (hok : (resync s (done ++ rest) p).1 = .ok ms) :
    ∃ ms', (resync s (done ++ rest) p').1 = .ok ms' ∧
      ∀ m, m ∈ ms' ↔ m ∈ ms ∧ ∀ y, m = .release y → ¬ Forgotten s p done y := by
  obtain ⟨ms', hok'⟩ := resync_isOk_iff.2 (resync_isOk_iff.1 ⟨ms, hok⟩)
  refine ⟨ms', hok', fun m => ?_⟩
  rw [mem_of_resync_ok hok, mem_of_resync_ok hok', or_and_right]
  refine or_congr ?_ ?_
  · constructor
    · rintro ⟨x, r, hr, hjudge⟩
      obtain ⟨hbefore, hkept⟩ := (h.judge_eq_some_iff hr).1 hjudge
      exact ⟨⟨x, r, hr, hbefore⟩, hkept⟩
    · rintro ⟨⟨x, r, hr, hjudge⟩, hkept⟩
      exact ⟨x, r, hr, (h.judge_eq_some_iff hr).2 ⟨hjudge, hkept⟩⟩
  · refine iff_self_and.2 ?_
    rintro ⟨x, rfl, -⟩ y hy
    cases hy

/-- The published tasks are as before exactly if every task that a heard record shows held was
published and no task that is there and that one shows ready was. -/
theorem published_eq_iff (h : HeardUpTo s p p' done stop) :
    p' = p ↔ ∀ x r, firstRecord? (done ++ stop.toList) x = some r →
      (r.holder?.isSome = true → x ∈ p) ∧
      (r.status = .ready → (subject? s x).isSome = true → x ∉ p) := by
  constructor
  · rintro rfl x r hr
    refine ⟨fun hholder => (h.published x).2 (.inl ⟨r, hr, hholder⟩), fun hready hthere hx => ?_⟩
    rcases (h.published x).1 hx with ⟨r', hr', hholder⟩ | ⟨-, hkept⟩
    · rw [hr, Option.some.injEq] at hr'
      simp [← hr', holder?_of_ready hready] at hholder
    · exact hkept ⟨r, hr, hready, hthere⟩
  · intro hsame
    refine SortedSet.ext_mem fun x => ?_
    rw [h.published]
    constructor
    · rintro (⟨r, hr, hholder⟩ | ⟨hx, -⟩)
      · exact (hsame x r hr).1 hholder
      · exact hx
    · refine fun hx => .inr ⟨hx, ?_⟩
      rintro ⟨r, hr, hready, hthere⟩
      exact (hsame x r hr).2 hready hthere hx

end HeardUpTo

/-- Where a refresh stops of which the comparison or the submission fails, and what has been heard
by then. -/
theorem exists_stopsAt {d : Driver} (h : (∃ e, (resync s records p).1 = .error e) ∨
      ((∃ ms, (resync s records p).1 = .ok ms) ∧ d.submit = .error .notInitialized)) :
    ∃ done stop rest, records = done ++ stop.toList ++ rest ∧ StopsAt s d done stop rest ∧
      HeardUpTo s p (resync s records p).2 done stop := by
  have hpublished := mem_published_of_resync s records p
  rcases resync_cases s records p with ⟨⟨ms, hok⟩, hall, hfit⟩ |
    ⟨e, done, bad, rest, he, hsplit, hheard, hfit, hnew, hbad⟩
  · have hdriver : d.submit = .error .notInitialized := by
      rcases h with ⟨e, he⟩ | ⟨-, hdriver⟩
      · rw [hok] at he
        cases he
      · exact hdriver
    refine ⟨records, none, [], by simp, .refused hfit hdriver, nofun, ?_⟩
    simpa [hall] using hpublished
  · refine ⟨done, some bad, rest, by simp [hsplit], .unfit rest hfit hnew hbad, ?_, ?_⟩
    · rintro _ ⟨⟩
      exact hbad.new
    · simpa [hheard] using hpublished

end Assembly

/-- Once there is a solution, new records are compared with the expected one. -/
theorem Coordination.compare_of_expected {c : Coordination} {s : Solution}
    (h : c.expected? = some s) (records : List TaskRecord) : c.compare records =
      ((resync s records c.published).1,
        { c with published := (resync s records c.published).2 }) := by
  rw [compare, h]

namespace Planner

variable {p : Planner} {s : Solution} {records : List TaskRecord}

/-- Changes cannot be submitted only if the optimizer has not been built. -/
theorem submit_of_error {ms : List Mutation} {e : PlannerError} (h : (p.submit ms).1 = .error e) :
    p.driver.submit = .error .notInitialized ∧ (p.submit ms).2 = p := by
  have hcases : p.driver.submit = .ok () ∨ p.driver.submit = .error .destroyed ∨
      p.driver.submit = .error .notStarted ∨ p.driver.submit = .error .notInitialized := by
    unfold Driver.submit
    cases p.driver.state <;> cases p.driver.built <;> simp
  rcases hcases with hd | hd | hd | hd <;> simp [submit, hd] at h ⊢

/-- A refresh fails only after a comparison, and keeps what that has done to the published tasks. -/
theorem exists_of_refresh_eq_none (hfailed : (refresh records p).1 = none) :
    ∃ s, p.coordination.expected? = some s ∧
      (refresh records p).2 = { p with coordination := { p.coordination with
        published := (resync s records p.coordination.published).2 } } ∧
      ((∃ e, (resync s records p.coordination.published).1 = .error e) ∨
        ((∃ ms, (resync s records p.coordination.published).1 = .ok ms) ∧
          p.driver.submit = .error .notInitialized)) := by
  cases hs : p.coordination.expected? with
  | none => simp [refresh, Coordination.compare, hs] at hfailed
  | some s =>
    refine ⟨s, rfl, ?_⟩
    have hcompare := Coordination.compare_of_expected hs records
    cases hanswer : (resync s records p.coordination.published).1 with
    | error e =>
      rw [hanswer] at hcompare
      exact ⟨by rw [refresh_of_error hcompare], .inl ⟨e, rfl⟩⟩
    | ok ms =>
      rw [hanswer] at hcompare
      rw [refresh, hcompare] at hfailed ⊢
      cases ms with
      | nil => cases hfailed
      | cons m ms =>
        cases hsubmit : ({ p with coordination := { p.coordination with
            published := (resync s records p.coordination.published).2 } } : Planner).submit
              (m :: ms) with
        | mk answer after =>
          cases answer with
          | ok n => simp [hsubmit] at hfailed
          | error e =>
            obtain ⟨hdriver, hafter⟩ := submit_of_error (by rw [hsubmit])
            rw [hsubmit] at hafter
            simp only [hsubmit]
            exact ⟨hafter, .inr ⟨⟨_, rfl⟩, hdriver⟩⟩

/-- After a refresh that fails, everything is as it was but the published tasks.  The refresh has
stopped at a record of a new task that cannot be read, or behind all records because the optimizer
has not been built.  The published tasks are as they were exactly if the records heard showed no
unpublished task held and no published task of the solution ready.  The next comparison on the
other records asks for what it would have asked for, except for the releases that have been
forgotten: those of tasks that are published and not pinned, and ready in a record before the one at
which the refresh stopped. -/
theorem failed_refresh (p : Planner) (records : List TaskRecord)
    (hfailed : (refresh records p).1 = none) :
    let c := p.coordination
    let after := (refresh records p).2
    (∃ published, after = { p with coordination := { c with published } }) ∧
      ∃ s done stop rest, c.expected? = some s ∧ records = done ++ stop.toList ++ rest ∧
        StopsAt s p.driver done stop rest ∧
        (after.coordination.published = c.published ↔
          ∀ x r, firstRecord? (done ++ stop.toList) x = some r →
            (r.holder?.isSome = true → x ∈ c.published) ∧
            (r.status = .ready → (subject? s x).isSome = true → x ∉ c.published)) ∧
        ∀ ms, (c.compare (done ++ rest)).1 = .ok ms →
          ∃ ms', (after.coordination.compare (done ++ rest)).1 = .ok ms' ∧
            ∀ m, m ∈ ms' ↔ m ∈ ms ∧ ∀ x, m = .release x → ¬ Forgotten s c.published done x := by
  intro c after
  obtain ⟨s, hs, hafter, hanswer⟩ := exists_of_refresh_eq_none hfailed
  have hexpected : after.coordination.expected? = some s := by
    rw [show after = _ from hafter]
    exact hs
  obtain ⟨done, stop, rest, hsplit, hstops, hheard⟩ := exists_stopsAt hanswer
  have hafterPublished : after.coordination.published = (resync s records c.published).2 := by
    rw [show after = _ from hafter]
  refine ⟨⟨_, hafter⟩, s, done, stop, rest, hs, hsplit, hstops, ?_, fun ms hok => ?_⟩
  · rw [hafterPublished]
    exact hheard.published_eq_iff
  · rw [Coordination.compare_of_expected hs] at hok
    rw [Coordination.compare_of_expected hexpected, hafterPublished]
    exact hheard.exists_resync hok

/-- A planner that has published its only task, which is ready. -/
def onePublished : Planner :=
  ((aboutToSolve (Operation.runAll callsForOne ∅) [recordOf 1 .ready none]).takePermit.run
    firstReport).run [.publish, .publish]

/-- A record of a new task whose priority is out of range. -/
def unreadable : TaskRecord := { recordOf 9 .ready none with priority := 99 }

/-- A refresh that stops at the second of two records. -/
theorem failed_refresh_unreadable :
    (refresh [recordOf 1 .ready none, unreadable] onePublished).1 = none ∧
      ∃ s done stop rest, onePublished.coordination.expected? = some s ∧
        [recordOf 1 .ready none, unreadable] = done ++ stop.toList ++ rest ∧
        StopsAt s onePublished.driver done stop rest := by
  have hfailed : (refresh [recordOf 1 .ready none, unreadable] onePublished).1 = none := by
    decide +kernel
  obtain ⟨-, s, done, stop, rest, hs, hsplit, hstops, -⟩ := failed_refresh onePublished _ hfailed
  exact ⟨hfailed, s, done, stop, rest, hs, hsplit, hstops⟩

/-- A published task is ready again, and would be released.  A refresh on its record and one that
cannot be read fails, and the next refresh, without that one, finds nothing to do: the task is not
among the published tasks any more, and stays where it is. -/
theorem failed_refresh_loses_release :
    let after := (refresh [recordOf 1 .ready none, unreadable] onePublished).2
    onePublished.coordination.published = .ofList [⟨1⟩] ∧
      (refresh [recordOf 1 .ready none] onePublished).1 = some 1 ∧
      (refresh [recordOf 1 .ready none] onePublished).2.batches = [[.release ⟨1⟩]] ∧
      (refresh [recordOf 1 .ready none, unreadable] onePublished).1 = none ∧
      after.coordination.published = ∅ ∧
      (refresh [recordOf 1 .ready none] after).1 = some 0 ∧
      (refresh [recordOf 1 .ready none] after).2.batches = [] := by
  intro after
  exact ⟨by decide +kernel, by decide +kernel, by decide +kernel, by decide +kernel,
    by decide +kernel, by decide +kernel, by decide +kernel⟩

end Planner

end ChainPlanner
