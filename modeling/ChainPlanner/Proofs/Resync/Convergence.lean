import ChainPlanner.Proofs.Resync.Settled
import ChainPlanner.Proofs.Resync.Soundness

/-!
# ChainPlanner.Proofs.Resync.Convergence

One comparison is enough.  Once its changes have been made and the optimizer has placed what is
loose, the same records ask for nothing more.

The changes leave each task as its first record wants it (`InLine`), and placing only makes chains
longer, so it moves no task that somebody holds.  Both facts are about how a task stands, and how it
stands is all that `settled_iff` looks at.
-/

namespace ChainPlanner.Assembly

open Solution

variable {s s₁ s₂ : Solution} {lists lists₁ lists₂ : UserId → List TaskId} {r : TaskRecord}
  {p p' : PublishedTasks} {records : List TaskRecord} {x : TaskId} {ms : List Mutation}

/-- The first record of a task is settled once the changes have been made, however much longer the
chains have become since. -/
theorem InLine.settled (hline : InLine s records p s₁) (h : s.Arranged lists)
    (h₁ : s₁.Chained lists₁) (h₂ : s₂.Chained lists₂) (hgrows : s₁.roster.Grows s₂.roster)
    (hr : firstRecord? records x = some r) (hreal : x ≠ .placeholder)
    (hready : r.status = .ready → x ∉ p')
    (hholder : ∀ u, r.holder? = some u → s.containsUser u = true) : Settled s₂ p' r := by
  rw [settled_iff h₂, taskId_of_firstRecord? hr]
  constructor
  · intro hstatus
    have hpinned : (s₂.standing x).pinned = some false := by
      rw [(h₁.standing_of_grows (u := default) h₂ hgrows).1,
        hline.standing_eq_of_ready hr hstatus]
    exact ⟨hreal, hpinned, hready hstatus⟩
  · intro u hu
    obtain ⟨hthere, huser⟩ := hline.of_holder? h hr hu
    rw [if_pos (hholder u hu)] at huser
    obtain ⟨hpinned, hkept⟩ := h₁.standing_of_grows (x := x) (u := u) h₂ hgrows
    have hkeeps : (s₂.standing x).user = some u := hkept huser
    rw [hpinned, hkeeps, if_pos (h₂.containsUser_of_standing hkeeps)]
    exact ⟨hreal, hthere, rfl⟩

/-- Let every holder of a task be a worker of the solution and every published task be in it.  Once
the changes that a comparison with records finds have been made and the loose tasks have been
placed, a comparison with the same records asks for nothing and leaves the published tasks as they
are. -/
theorem resync_converges (hs : s.Reachable) (hp : ∀ x ∈ p, s.containsTask x = true)
    (hrecords : ∀ r ∈ records, r.taskId ≠ .placeholder)
    (hholders : ∀ r ∈ records, ∀ u, r.holder? = some u → s.containsUser u = true)
    (hresync : resync s records p = (.ok ms, p')) :
    ∃ s₁, Mutation.applyAll ms s = (.ok (), s₁) ∧
      resync s₁.placeUnassigned.1 records p' = (.ok [], p') := by
  have h := hs.arranged
  obtain ⟨-, -, s₁, lists₁, hall, h₁, hline, -⟩ := exists_applyAll_resync h hrecords hresync
  obtain ⟨h₂, hgrows⟩ := h₁.grows_placeEach s₁.pending
  have hpublished := fun x => mem_published_resync (x := x) h.keyed hrecords hresync
  have hreal : ∀ x r, firstRecord? records x = some r → x ≠ .placeholder := fun x r hr =>
    taskId_of_firstRecord? hr ▸ hrecords r (List.mem_of_find?_eq_some hr)
  -- a ready task is not published: if it was, it was in the solution and has been released
  have hready : ∀ x r, firstRecord? records x = some r → r.status = .ready → x ∉ p' := by
    intro x r hr hstatus hmem
    rcases (hpublished x).1 hmem with ⟨r', hr', hholder⟩ | ⟨hbefore, hkept⟩
    · rw [hr] at hr'
      cases hr'
      simp [holder?_of_ready hstatus] at hholder
    · exact hkept ⟨r, hr, hstatus, hp x hbefore⟩
  refine ⟨s₁, hall, (resync_eq_nil_iff h₂.keyed).2 ⟨?_, ?_, ?_⟩⟩
  · intro x r hr
    exact hline.settled h h₁.toChained h₂.toChained hgrows hr (hreal x r hr) (hready x r hr)
      (hholders r (List.mem_of_find?_eq_some hr))
  · intro x hx hthere
    have hthere₁ : s₁.containsTask x = true := by
      rw [← containsTask_bare, ← bare_of_grows hgrows, containsTask_bare]
      exact hthere
    obtain ⟨r, hr, hopen, -⟩ := (hline.containsTask_iff h hx).1 hthere₁
    exact ⟨r, hr, hopen⟩
  · intro x
    refine ⟨.inl, ?_⟩
    rintro (hmem | hheld)
    · exact hmem
    · exact (hpublished x).2 (.inl hheld)

/-- Of a chain of two tasks the first, which was published, is ready again and the second is gone;
the third task is taken by the worker of the chain and a fourth one is new. -/
theorem resync_converges_four_tasks :
    let s := Operation.runAll callsForThree ∅
    let records := [recordOf 1 .ready none, recordOf 3 .suspended (some ⟨"ann"⟩),
      recordOf 4 .ready none]
    let ms := [.release ⟨1⟩, .assign (.ofId ⟨3⟩ "" .lowest) ⟨"ann"⟩, .add (.ofId ⟨4⟩ "" .lowest),
      .remove ⟨2⟩]
    s.Reachable ∧ (∀ x ∈ (SortedSet.ofList [⟨1⟩] : PublishedTasks), s.containsTask x = true) ∧
      (∀ r ∈ records, r.taskId ≠ .placeholder) ∧
      (∀ r ∈ records, ∀ u, r.holder? = some u → s.containsUser u = true) ∧
      resync s records (.ofList [⟨1⟩]) = (.ok ms, .ofList [⟨3⟩]) ∧
      ∃ s₁, Mutation.applyAll ms s = (.ok (), s₁) ∧
        resync s₁.placeUnassigned.1 records (.ofList [⟨3⟩]) = (.ok [], .ofList [⟨3⟩]) := by
  intro s records ms
  have hreach : s.Reachable := ⟨callsForThree, rfl⟩
  have hp : ∀ x ∈ (SortedSet.ofList [⟨1⟩] : PublishedTasks), s.containsTask x = true := by
    intro x hx
    rw [SortedSet.mem_ofList, List.mem_singleton] at hx
    rw [hx]
    decide +kernel
  have hrecords : ∀ r ∈ records, r.taskId ≠ .placeholder := by decide +kernel
  have hholders : ∀ r ∈ records, ∀ u, r.holder? = some u → s.containsUser u = true := by
    simp only [records, List.forall_mem_cons]
    refine ⟨by simp [recordOf, TaskRecord.holder?], ?_, by simp [recordOf, TaskRecord.holder?],
      by simp⟩
    rintro u hu
    cases hu
    decide +kernel
  have hresync : resync s records (.ofList [⟨1⟩]) = (.ok ms, .ofList [⟨3⟩]) := by decide +kernel
  exact ⟨hreach, hp, hrecords, hholders, hresync,
    resync_converges hreach hp hrecords hholders hresync⟩

end ChainPlanner.Assembly
