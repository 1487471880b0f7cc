import ChainPlanner.Proofs.Resync.Soundness

/-!
# ChainPlanner.Proofs.Resync.Reordering

The order of records does not matter where each task has one record.  A comparison then finds the
same changes in another order and leaves the same published tasks (`Tracks` says both task by task),
and the order of the changes does not matter either: each is about a task of its own.

The chains may differ.  Two tasks that go to one worker stand in the order in which their changes
are made, so what is said of the solutions is `Alike`: the same tasks up to links and times, with
the same workers.
-/

namespace ChainPlanner

open Solution

namespace Solution

/-- Two solutions have the same tasks, up to links and times, and have given them to the same
workers. -/
structure Alike (a b : Solution) : Prop where
  task : ∀ x, (a.task? x).map Task.detached = (b.task? x).map Task.detached
  user : ∀ x, a.assignedUser? x = b.assignedUser? x

end Solution

namespace Mutation

variable {s : Solution} {lists : UserId → List TaskId} {ms ms' : List Mutation}

/-- What a mutation makes of the task that it is about, links and times left aside. -/
def content : Mutation → Option Task → Option Task
  | add t, _ => some t.detached
  | assign t _, known => some { known.getD t.detached with pinned := true }
  | remove _, _ => none
  | release _, known => known.map fun t => { t with pinned := false }

/-- What a task contains is changed by the changes of that task only. -/
theorem local_content : Local (fun s x => s.roster.tasks.get? x) content where
  own := by
    intro s s' lists lists' m h _ hm hok
    cases m with
    | add t =>
      rw [apply_add_of_absent hm] at hok
      cases hok
      show (s.withTask t).roster.tasks.get? t.id = _
      rw [h.roster_withTask hm]
      exact (KeyedList.get?_insert s.roster.tasks t.id t.id t.detached).trans (if_pos rfl)
    | assign t u =>
      show s'.roster.tasks.get? t.id = content (.assign t u) (s.roster.tasks.get? t.id)
      rw [roster_of_apply_assign h hok, Roster.assign, Roster.pin, KeyedList.get?_modify,
        if_pos rfl, Roster.putBehindPinned, KeyedList.contains]
      cases hknown : s.roster.tasks.get? t.id with
      | none =>
        have hadded := KeyedList.get?_insert s.roster.tasks t.id t.id t.detached
        rw [if_pos rfl] at hadded
        simp [Roster.add, hadded, content]
      | some w => simp [Roster.take, hknown, content]
    | remove id =>
      obtain ⟨s₁, -, hok₁, -, hroster⟩ := exists_apply_remove h id
      rw [hok] at hok₁
      cases hok₁
      show s'.roster.tasks.get? id = none
      rw [hroster, Roster.drop, KeyedList.get?_erase, if_pos rfl]
    | release id =>
      obtain ⟨s₁, -, hok₁, -, hroster⟩ := exists_apply_release h id
      rw [hok] at hok₁
      cases hok₁
      show s'.roster.tasks.get? id = content (.release id) (s.roster.tasks.get? id)
      rw [hroster, Roster.release, Roster.pin, KeyedList.get?_modify, if_pos rfl]
      rfl
  other _ _ hbeside hx := hbeside.tasks _ hx

/-- Mutations about different tasks can be made in any order, and no local view tells the order. -/
theorem exists_applyAll_perm (h : s.Arranged lists) (hms : ∀ m ∈ ms, m.Applicable s)
    (hnd : (ms.map taskId).Nodup) (hperm : ms.Perm ms') :
    ∃ a b, applyAll ms s = (.ok (), a) ∧ applyAll ms' s = (.ok (), b) ∧
      ∀ {β : Type} {view : Solution → TaskId → β} {effect : Mutation → β → β},
        Local view effect → ∀ x, view a x = view b x := by
  have hms' : ∀ m ∈ ms', m.Applicable s := fun m hm => hms m (hperm.mem_iff.2 hm)
  have hnd' : (ms'.map taskId).Nodup := (hperm.map taskId).nodup_iff.1 hnd
  obtain ⟨a, -, ha, -⟩ := exists_applyAll_standing h hms hnd
  obtain ⟨b, -, hb, -⟩ := exists_applyAll_standing h hms' hnd'
  refine ⟨a, b, ha, hb, fun {β view effect} hview x => ?_⟩
  obtain ⟨a₁, -, ha₁, -, -, hown, hother⟩ := exists_applyAll_local hview h hms hnd
  obtain ⟨b₁, -, hb₁, -, -, hown', hother'⟩ := exists_applyAll_local hview h hms' hnd'
  rw [ha] at ha₁
  rw [hb] at hb₁
  cases ha₁
  cases hb₁
  by_cases hx : x ∈ ms.map taskId
  · obtain ⟨m, hm, rfl⟩ := List.mem_map.1 hx
    rw [hown m hm, hown' m (hperm.mem_iff.1 hm)]
  · have hx' : x ∉ ms'.map taskId := fun hmem => hx ((hperm.map taskId).mem_iff.2 hmem)
    rw [hother x hx, hother' x hx']

end Mutation

namespace Assembly

variable {s : Solution} {p : PublishedTasks} {records records' : List TaskRecord}
  {first : TaskId → Option TaskRecord} {c c' : Comparison}

/-! ## one record for each task -/

/-- With one record for each task, the order of records does not matter. -/
theorem firstRecord?_of_perm (hnd : (records.map (·.taskId)).Nodup)
    (hperm : records.Perm records') : firstRecord? records = firstRecord? records' := by
  have hnd' : (records'.map (·.taskId)).Nodup := (hperm.map _).nodup_iff.1 hnd
  funext x
  apply Option.ext
  intro r
  rw [firstRecord?_eq_some_iff hnd, firstRecord?_eq_some_iff hnd', hperm.mem_iff]

/-- Two comparisons that have come to an end and have seen the same first records ask for the same
changes, in some order. -/
theorem Tracks.changes_perm (h : Tracks s p first c) (h' : Tracks s p first c') (hs : s.Keyed) :
    c.changes.Perm c'.changes := by
  have hmem : ∀ m, m ∈ c.changes ↔ m ∈ c'.changes := by
    intro m
    have hremove : m ∈ c.remaining.map .remove ↔ m ∈ c'.remaining.map .remove := by
      rw [List.mem_map, List.mem_map]
      exact exists_congr fun x => and_congr_left' ((h.remaining x).trans (h'.remaining x).symm)
    rw [Comparison.changes, Comparison.changes, List.mem_append, List.mem_append, h.mutations,
      h'.mutations, hremove]
  exact (List.perm_ext_iff_of_nodup (h.nodup_ids hs).of_map (h'.nodup_ids hs).of_map).2 hmem

/-- What a comparison leaves of the published tasks depends on the first records alone. -/
theorem Tracks.published_eq (h : Tracks s p first c) (h' : Tracks s p first c') :
    c.published = c'.published := by
  apply SortedSet.ext_mem
  intro x
  cases hx : first x with
  | none => rw [h.published_of_new x hx, h'.published_of_new x hx]
  | some r => rw [h.published_of_seen x r hx, h'.published_of_seen x r hx]

/-! ## any order -/

/-- Where each task has one record, the order of the records decides neither whether a comparison
succeeds nor which changes it asks for nor which tasks are published afterwards.  The changes in
the one order and in the other can all be made, and leave the same tasks, up to links and times and
so with the same pins, with the same workers. -/
theorem resync_of_perm (hs : s.Reachable) (hrecords : ∀ r ∈ records, r.taskId ≠ .placeholder)
    (hnd : (records.map (·.taskId)).Nodup) (hperm : records.Perm records') :
    ((∃ ms, (resync s records p).1 = .ok ms) ↔ ∃ ms, (resync s records' p).1 = .ok ms) ∧
      ∀ ms ms' p₁ p₂, resync s records p = (.ok ms, p₁) → resync s records' p = (.ok ms', p₂) →
        ms.Perm ms' ∧ p₁ = p₂ ∧ ∃ a b, Mutation.applyAll ms s = (.ok (), a) ∧
          Mutation.applyAll ms' s = (.ok (), b) ∧ a.Alike b := by
  have hfirst := firstRecord?_of_perm hnd hperm
  refine ⟨by rw [resync_isOk_iff, resync_isOk_iff, hfirst], fun ms ms' p₁ p₂ hok hok' => ?_⟩
  have h := hs.arranged
  have hrecords' : ∀ r ∈ records', r.taskId ≠ .placeholder := fun r hr =>
    hrecords r (hperm.mem_iff.2 hr)
  obtain ⟨c, htracks, rfl, rfl⟩ := exists_tracks h.keyed hrecords hok
  obtain ⟨c', htracks', rfl, rfl⟩ := exists_tracks h.keyed hrecords' hok'
  rw [← hfirst] at htracks'
  have hchanges := htracks.changes_perm htracks' h.keyed
  obtain ⟨a, b, ha, hb, hviews⟩ := Mutation.exists_applyAll_perm h htracks.applicable
    (htracks.nodup_ids h.keyed) hchanges
  have halike : a.Alike b :=
    { task := fun x => by
        have hcontent := hviews Mutation.local_content x
        simpa only [get?_roster_tasks] using hcontent
      user := fun x => congrArg Standing.user (hviews Mutation.local_standing x) }
  exact ⟨hchanges, htracks.published_eq htracks', a, b, ha, hb, halike⟩

/-- Two tasks come to one worker, in the one order and in the other: the chains differ, and nothing
else does. -/
theorem resync_of_perm_two_arrivals :
    let s := Operation.runAll callsForThree ∅
    let records := [recordOf 3 .suspended (some ⟨"ann"⟩), recordOf 4 .inProgress (some ⟨"ann"⟩),
      recordOf 1 .ready none]
    s.Reachable ∧ (∀ r ∈ records, r.taskId ≠ .placeholder) ∧ (records.map (·.taskId)).Nodup ∧
      records.Perm records.reverse ∧
      ∃ a b : Solution, a.Alike b ∧ a.chainIds ⟨"ann"⟩ = [⟨3⟩, ⟨4⟩] ∧
        b.chainIds ⟨"ann"⟩ = [⟨4⟩, ⟨3⟩] := by
  intro s records
  have hreach : s.Reachable := ⟨callsForThree, rfl⟩
  have hrecords : ∀ r ∈ records, r.taskId ≠ .placeholder := by decide +kernel
  have hnd : (records.map (·.taskId)).Nodup := by decide +kernel
  have hperm : records.Perm records.reverse := (List.reverse_perm records).symm
  have hok : resync s records (.ofList [⟨1⟩]) =
      (.ok [.assign (.ofId ⟨3⟩ "" .lowest) ⟨"ann"⟩, .assign (.ofId ⟨4⟩ "" .lowest) ⟨"ann"⟩,
        .release ⟨1⟩, .remove ⟨2⟩], .ofList [⟨3⟩, ⟨4⟩]) := by
    decide +kernel
  have hok' : resync s records.reverse (.ofList [⟨1⟩]) =
      (.ok [.release ⟨1⟩, .assign (.ofId ⟨4⟩ "" .lowest) ⟨"ann"⟩,
        .assign (.ofId ⟨3⟩ "" .lowest) ⟨"ann"⟩, .remove ⟨2⟩], .ofList [⟨3⟩, ⟨4⟩]) := by
    decide +kernel
  obtain ⟨-, -, a, b, ha, hb, halike⟩ :=
    (resync_of_perm hreach hrecords hnd hperm).2 _ _ _ _ hok hok'
  have hchain : (Mutation.applyAll [.assign (.ofId ⟨3⟩ "" .lowest) ⟨"ann"⟩,
      .assign (.ofId ⟨4⟩ "" .lowest) ⟨"ann"⟩, .release ⟨1⟩, .remove ⟨2⟩] s).2.chainIds ⟨"ann"⟩ =
      [⟨3⟩, ⟨4⟩] := by
    decide +kernel
  have hchain' : (Mutation.applyAll [.release ⟨1⟩, .assign (.ofId ⟨4⟩ "" .lowest) ⟨"ann"⟩,
      .assign (.ofId ⟨3⟩ "" .lowest) ⟨"ann"⟩, .remove ⟨2⟩] s).2.chainIds ⟨"ann"⟩ =
      [⟨4⟩, ⟨3⟩] := by
    decide +kernel
  rw [ha] at hchain
  rw [hb] at hchain'
  exact ⟨hreach, hrecords, hnd, hperm, a, b, halike, hchain, hchain'⟩

end Assembly

end ChainPlanner
