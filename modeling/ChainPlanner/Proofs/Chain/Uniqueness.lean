import ChainPlanner.Proofs.Chain.Roster

/-!
# ChainPlanner.Proofs.Chain.Uniqueness

Links and times add nothing to a roster.  In an arranged solution the tasks in front of a task
decide what it is linked after and when it starts and ends (`Arranged.place_of_split`), and the task
behind it is what it is linked to (`Arranged.next_of_split`).  So two arranged solutions with one
roster are equal (`Arranged.eq_of_roster`), down to every link, time and stored position.
-/

namespace ChainPlanner

/-- Two tasks that differ in their places only, and not in what is in front of them, differ in what
comes behind them only. -/
theorem Task.eq_of_detached {t t' : Task} (h : t'.detached = t.detached)
    (hprevious : t'.previous = t.previous) (hstart : t'.startTime = t.startTime)
    (hend : t'.endTime = t.endTime) : t' = { t with next := t'.next } := by
  cases t
  cases t'
  simp_all [detached]

namespace Solution

variable {s s' : Solution} {lists lists' : UserId → List TaskId} {u : UserId} {x : TaskId}
  {t : Task} {xs ys : List TaskId}

/-! ## what decides a place -/

/-- How long tasks take does not depend on links and times. -/
theorem totalDuration_of_bare (hb : s'.bare = s.bare) (ids : List TaskId) :
    totalDuration (ids.filterMap s'.task?) = totalDuration (ids.filterMap s.task?) := by
  have hdurations : ∀ w : Solution, (ids.filterMap w.task?).map (·.duration.toNat) =
      (ids.filterMap w.bare.task?).map (·.duration.toNat) := by
    intro w
    rw [List.map_filterMap, List.map_filterMap]
    apply List.filterMap_congr
    intro x _
    rw [task?_bare, Option.map_map]
    rfl
  rw [totalDuration, totalDuration, hdurations s', hdurations s, hb]

/-- The tasks in front of a task decide what it is linked after and when it starts and ends. -/
theorem Arranged.place_of_split (h : s.Arranged lists) (hsplit : lists u = xs ++ x :: ys)
    (ht : s.task? x = some t) :
    t.previous = some (lastPosition (.user u) xs) ∧
      t.startTime = some (.ofNat (totalDuration (xs.filterMap s.task?))) ∧
      t.endTime = some (.ofNat (totalDuration ((xs ++ [x]).filterMap s.task?))) := by
  have hwalk : s.Joined (.user u) (xs ++ x :: ys) := hsplit ▸ h.joined u
  obtain ⟨t₁, ht₁, hprevious⟩ := task?_of_predecessor? hwalk.append_right.2.1
  rw [ht, Option.some.injEq] at ht₁
  rw [← ht₁] at hprevious
  have hchain : s.chain u = xs.filterMap s.task? ++ t :: ys.filterMap s.task? := by
    rw [h.chain_eq, hsplit, List.filterMap_append, List.filterMap_cons_some ht]
  have hindex : (s.chain u)[(xs.filterMap s.task?).length]? = some t := by simp [hchain]
  obtain ⟨hstart, hend⟩ := h.getElem?_chain hindex
  have hfront : (s.chain u).take (xs.filterMap s.task?).length = xs.filterMap s.task? := by
    simp [hchain]
  have hthrough : (s.chain u).take ((xs.filterMap s.task?).length + 1) =
      (xs ++ [x]).filterMap s.task? := by
    simp [hchain, ht, List.take_append, List.take_of_length_le]
  exact ⟨hprevious, hfront ▸ hstart, hthrough ▸ hend⟩

/-- The task behind a task is what it is linked to. -/
theorem Chained.next_of_split (h : s.Chained lists) (hsplit : lists u = xs ++ x :: ys)
    (ht : s.task? x = some t) : t.next = ys.head? := by
  have hwalk : s.Joined (.user u) (xs ++ x :: ys) := hsplit ▸ h.joined u
  have hnext := hwalk.append_right.2.2.successor?_eq_head?
  rwa [successor?, ht, Option.bind_some] at hnext

/-- A task of a list that only gets longer keeps everything but what comes behind it. -/
theorem Arranged.task?_of_longer (h : s.Arranged lists) (h' : s'.Arranged lists')
    (hb : s'.bare = s.bare) (hlists : lists u <+: lists' u) (hx : x ∈ lists u)
    (ht : s.task? x = some t) : ∃ next, s'.task? x = some { t with next } := by
  obtain ⟨t', ht', hdetached⟩ := exists_task?_of_bare hb ht
  obtain ⟨xs, ys, hsplit⟩ := List.append_of_mem hx
  obtain ⟨zs, hzs⟩ := hlists
  have hsplit' : lists' u = xs ++ x :: (ys ++ zs) := by
    rw [← hzs, hsplit, List.append_assoc, List.cons_append]
  obtain ⟨hprevious, hstart, hend⟩ := h.place_of_split hsplit ht
  obtain ⟨hprevious', hstart', hend'⟩ := h'.place_of_split hsplit' ht'
  rw [totalDuration_of_bare hb] at hstart' hend'
  have heq := Task.eq_of_detached hdetached (hprevious'.trans hprevious.symm)
    (hstart'.trans hstart.symm) (hend'.trans hend.symm)
  exact ⟨t'.next, heq ▸ ht'⟩

/-! ## a solution is known from its roster -/

/-- The head of its list is all that a worker has beside its data. -/
theorem Chained.user?_eq_of_bare (h : s.Chained lists) (h' : s'.Chained lists)
    (hb : s'.bare = s.bare) (u : UserId) : s'.user? u = s.user? u := by
  have hhead : s'.successor? (.user u) = s.successor? (.user u) := by
    rw [(h.joined u).successor?_eq_head?, (h'.joined u).successor?_eq_head?]
  have hdata : (s'.user? u).map (fun w => { w with next := none }) =
      (s.user? u).map fun w => { w with next := none } := by
    rw [← user?_bare, hb, user?_bare]
  cases hw : s.user? u with
  | none =>
    rw [hw, Option.map_none, Option.map_eq_none_iff] at hdata
    exact hdata
  | some w =>
    rw [hw, Option.map_some] at hdata
    obtain ⟨w', hw', hsame⟩ := Option.map_eq_some_iff.1 hdata
    have hnext : w'.next = w.next := by simpa [successor?, hw, hw'] using hhead
    rw [hw']
    cases w
    cases w'
    simp_all

/-- A task that is there is in a list, which decides its place, or it has none. -/
theorem Arranged.task?_eq_of_bare (h : s.Arranged lists) (h' : s'.Arranged lists)
    (hb : s'.bare = s.bare) (x : TaskId) : s'.task? x = s.task? x := by
  cases ht : s.task? x with
  | none =>
    rw [← containsTask_eq_false, containsTask_of_bare hb, containsTask_eq_false, ht]
  | some t =>
    by_cases hx : ∃ u, x ∈ lists u
    · obtain ⟨u, hu⟩ := hx
      obtain ⟨next, ht'⟩ := h.task?_of_longer h' hb List.prefix_rfl hu ht
      obtain ⟨xs, ys, hsplit⟩ := List.append_of_mem hu
      have hnext : next = t.next :=
        (h'.next_of_split hsplit ht').trans (h.next_of_split hsplit ht).symm
      rw [ht', hnext]
    · rw [not_exists] at hx
      obtain ⟨t', ht', hdetached⟩ := exists_task?_of_bare hb ht
      rw [ht', ← h.free ht hx, ← h'.free ht' hx, hdetached]

/-- An arranged solution is known from its lists and from what is stored beside links and times. -/
theorem Arranged.eq_of_bare (h : s.Arranged lists) (h' : s'.Arranged lists)
    (hb : s'.bare = s.bare) : s' = s := by
  obtain ⟨hkeyUsers, hkeyTasks⟩ := keys_of_bare hb
  have husers : s'.users = s.users :=
    KeyedList.ext_get? hkeyUsers (h.user?_eq_of_bare h'.toChained hb)
  have htasks : s'.tasks = s.tasks := KeyedList.ext_get? hkeyTasks (h.task?_eq_of_bare h' hb)
  calc s' = ⟨s'.users, s'.tasks⟩ := rfl
    _ = ⟨s.users, s.tasks⟩ := by rw [husers, htasks]

/-- Two arranged solutions with one roster are equal. -/
theorem Arranged.eq_of_roster (h : s.Arranged lists) (h' : s'.Arranged lists')
    (hr : s'.roster = s.roster) : s' = s := by
  have hlists : lists' = lists := by rw [← h.roster_lists, ← h'.roster_lists, hr]
  have hb : s'.bare = s.bare :=
    congrArg (fun r : Roster => Solution.mk r.users r.tasks) hr
  rw [hlists] at h'
  exact h.eq_of_bare h' hb

end Solution

end ChainPlanner
