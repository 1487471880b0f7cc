import ChainPlanner.Proofs.Chain.Refinement
import ChainPlanner.Proofs.Chain.Uniqueness

/-!
# ChainPlanner.Proofs.Chain.Repetition

A mutation that is made twice in a row.  A solution is known from its roster, so it is enough that
the second time changes nothing in the roster.  For an assignment that rests on where it puts the
task: behind the leading pinned tasks of the others, so that taking it out again leaves the very
lists that it was put into (`Roster.take_putBehindPinned`).
-/

namespace ChainPlanner

/-! ## edits of a roster that are made twice -/

namespace Roster

variable {r : Roster} {u : UserId} {id : TaskId} {t : Task}

/-- A task in no list leaves none. -/
theorem take_of_not_mem (hid : ∀ v, id ∉ r.lists v) : r.take id = r :=
  congrArg (Roster.mk r.users r.tasks) (Solution.erase_eq_of_forall_not_mem hid)

/-- A task that has left its list leaves none. -/
theorem take_take (hnd : ∀ v, (r.lists v).Nodup) : (r.take id).take id = r.take id :=
  take_of_not_mem fun v => (hnd v).not_mem_erase

/-- Pinning twice is pinning. -/
theorem pin_pin (pinned : Bool) : (r.pin id pinned).pin id pinned = r.pin id pinned := by
  refine congrArg (Roster.mk r.users · r.lists) (KeyedList.ext_get? (by simp [pin]) fun x => ?_)
  by_cases hx : x = id <;> simp [pin, KeyedList.get?_modify, hx, Option.map_map, Function.comp_def]

/-- A dropped task cannot be dropped again. -/
theorem drop_drop (hnd : ∀ v, (r.lists v).Nodup) : (r.drop id).drop id = r.drop id := by
  have htasks : (r.tasks.erase id).erase id = r.tasks.erase id :=
    KeyedList.erase_of_get?_eq_none (by rw [KeyedList.get?_erase, if_pos rfl])
  have hlists : ((r.take id).take id).lists = (r.take id).lists := by rw [take_take hnd]
  show Roster.mk r.users ((r.tasks.erase id).erase id) ((r.take id).take id).lists = _
  rw [htasks, hlists]
  rfl

/-- Releasing twice is releasing. -/
theorem release_release (hnd : ∀ v, (r.lists v).Nodup) :
    (r.release id).release id = r.release id := by
  show (((r.take id).take id).pin id false).pin id false = (r.take id).pin id false
  rw [take_take hnd, pin_pin]

/-- Taking out a task that was put behind the pinned tasks leaves the lists that it was put into. -/
theorem take_putBehindPinned (hid : ∀ v, id ∉ r.lists v) :
    (r.putBehindPinned u id).take id = r := by
  have hlists : (fun v => ((r.putBehindPinned u id).lists v).erase id) = r.lists := by
    funext v
    rw [(SameBeside.putBehindPinned hid).lists, List.erase_of_not_mem (hid v)]
  exact congrArg (Roster.mk r.users r.tasks) hlists

/-- Where a task goes does not depend on whether it is pinned itself. -/
theorem putBehindPinned_pin (hid : id ∉ r.lists u) (pinned : Bool) :
    (r.pin id pinned).putBehindPinned u id = (r.putBehindPinned u id).pin id pinned := by
  have hsame : ∀ x ∈ r.lists u, (r.pin id pinned).isPinned x = r.isPinned x := by
    intro x hx
    have hne : x ≠ id := ne_of_mem_of_not_mem hx hid
    rw [isPinned, pin, KeyedList.get?_modify, if_neg hne]
    rfl
  have hsplit :
      (r.lists u).takeWhile (r.pin id pinned).isPinned = (r.lists u).takeWhile r.isPinned ∧
        (r.lists u).dropWhile (r.pin id pinned).isPinned = (r.lists u).dropWhile r.isPinned := by
    generalize r.lists u = ids at hsame
    induction ids with
    | nil => exact ⟨rfl, rfl⟩
    | cons y ys ih =>
      obtain ⟨htake, hdrop⟩ := ih fun x hx => hsame x (List.mem_cons_of_mem y hx)
      simp only [List.takeWhile_cons, List.dropWhile_cons, hsame y List.mem_cons_self, htake, hdrop,
        and_self]
  show Roster.mk r.users (r.pin id pinned).tasks (Function.update r.lists u
      ((r.lists u).takeWhile (r.pin id pinned).isPinned ++
        id :: (r.lists u).dropWhile (r.pin id pinned).isPinned)) = _
  rw [hsplit.1, hsplit.2]
  rfl

/-- A task that is assigned again finds its place again. -/
theorem assign_assign (hnd : ∀ v, (r.lists v).Nodup)
    (hin : ∀ v, ∀ x ∈ r.lists v, r.tasks.contains x) :
    (r.assign t u).assign t u = r.assign t u := by
  -- what the task is put into, taken out of its list or added
  obtain ⟨b, hb⟩ : ∃ b, b = if r.tasks.contains t.id then r.take t.id else r.add t := ⟨_, rfl⟩
  have hassign : r.assign t u = (b.putBehindPinned u t.id).pin t.id true := by
    rw [assign, ← hb]
  have hid : ∀ v, t.id ∉ b.lists v := by
    intro v
    rw [hb]
    split
    · exact (hnd v).not_mem_erase
    · next hno => exact fun hmem => hno (hin v t.id hmem)
  have hthere : (r.assign t u).tasks.contains t.id = true := by
    have hkeys : t.id ∈ b.tasks.keys := by
      rw [hb]
      split
      · next hyes => exact KeyedList.contains_iff.1 hyes
      · exact KeyedList.mem_keys_of_get? (v := t.detached)
          (by rw [add, KeyedList.get?_insert, if_pos rfl])
    rw [hassign, KeyedList.contains_iff]
    exact (KeyedList.keys_modify b.tasks t.id _).symm ▸ hkeys
  have htaken : (r.assign t u).take t.id = b.pin t.id true := by
    rw [hassign]
    show ((b.putBehindPinned u t.id).take t.id).pin t.id true = _
    rw [take_putBehindPinned hid]
  rw [assign, if_pos hthere, htaken, putBehindPinned_pin (hid u), pin_pin, hassign]

end Roster

/-! ## mutations that are made twice -/

namespace Mutation

open Solution

variable {s : Solution} {lists : UserId → List TaskId}

/-- The second time the task is there already. -/
theorem apply_add_again (s : Solution) (t : Task) :
    (add t).apply ((add t).run s) = (.error (.duplicateTask t.id), (add t).run s) := by
  cases ht : s.task? t.id with
  | none =>
    have hthere : (s.withTask t).containsTask t.id = true :=
      containsTask_iff.2 ⟨t.detached, by rw [task?_withTask, if_pos rfl]⟩
    rw [run, apply_add_of_absent ht, apply_add_of_contains hthere]
  | some w =>
    have hthere : s.containsTask t.id = true := containsTask_iff.2 ⟨w, ht⟩
    rw [run, apply_add_of_contains hthere, apply_add_of_contains hthere]

/-- A mutation that works, and works again on what it leaves, leaves the solution as it is the
second time if the second time changes nothing in the roster. -/
theorem apply_run_of_roster {m : Mutation} (f : Roster → Roster)
    (hfirst : ∃ s₁ lists₁, m.apply s = (.ok (), s₁) ∧ s₁.Arranged lists₁ ∧ s₁.roster = f s.roster)
    (hsecond : ∀ {s₁ lists₁}, s₁.Arranged lists₁ → s₁.roster = f s.roster →
      ∃ s₂ lists₂, m.apply s₁ = (.ok (), s₂) ∧ s₂.Arranged lists₂ ∧ s₂.roster = f s₁.roster)
    (hf : f (f s.roster) = f s.roster) : m.apply (m.run s) = (.ok (), m.run s) := by
  obtain ⟨s₁, lists₁, hok₁, harr₁, hroster₁⟩ := hfirst
  obtain ⟨s₂, lists₂, hok₂, harr₂, hroster₂⟩ := hsecond harr₁ hroster₁
  have hsame : s₂ = s₁ := harr₁.eq_of_roster harr₂ (by rw [hroster₂, hroster₁, hf])
  rw [run, hok₁, hok₂, hsame]

/-- The second time the task goes back to where it was taken from. -/
theorem apply_assign_again (h : s.Arranged lists) (t : Task) (u : UserId) :
    (assign t u).apply ((assign t u).run s) =
      (((assign t u).apply s).1, (assign t u).run s) := by
  cases hu : s.containsUser u with
  | false => rw [run, apply_assign_of_absent hu, apply_assign_of_absent hu]
  | true =>
    have hfirst := exists_apply_assign h hu t
    have hthere : ∀ {s₁ : Solution}, s₁.roster = s.roster.assign t u →
        s₁.containsUser u = true := by
      intro s₁ hroster₁
      rw [← contains_roster_users, hroster₁,
        (Roster.SameBeside.assign h.nodup_roster h.contains_of_mem_roster).users,
        contains_roster_users, hu]
    have hanswer : ((assign t u).apply s).1 = .ok () := by
      obtain ⟨s₁, -, hok, -⟩ := hfirst
      rw [hok]
    rw [hanswer]
    exact apply_run_of_roster (·.assign t u) hfirst
      (fun harr₁ hroster₁ => exists_apply_assign harr₁ (hthere hroster₁) t)
      (Roster.assign_assign h.nodup_roster h.contains_of_mem_roster)

/-- The second time there is nothing to remove. -/
theorem apply_remove_again (h : s.Arranged lists) (id : TaskId) :
    (remove id).apply ((remove id).run s) = (.ok (), (remove id).run s) :=
  apply_run_of_roster (·.drop id) (exists_apply_remove h id)
    (fun harr₁ _ => exists_apply_remove harr₁ id) (Roster.drop_drop h.nodup_roster)

/-- The second time the task is in no chain and unpinned already. -/
theorem apply_release_again (h : s.Arranged lists) (id : TaskId) :
    (release id).apply ((release id).run s) = (.ok (), (release id).run s) :=
  apply_run_of_roster (·.release id) (exists_apply_release h id)
    (fun harr₁ _ => exists_apply_release harr₁ id) (Roster.release_release h.nodup_roster)

/-- An assignment, a removal or a release that is made a second time answers what it answered the
first time and leaves the solution as the first time left it.  A task that is added a second time is
rejected, and nothing changes. -/
theorem again_changes_nothing (hs : s.Reachable) :
    (∀ t u, (assign t u).apply ((assign t u).run s) =
      (((assign t u).apply s).1, (assign t u).run s)) ∧
    (∀ id, (remove id).apply ((remove id).run s) = (.ok (), (remove id).run s)) ∧
    (∀ id, (release id).apply ((release id).run s) = (.ok (), (release id).run s)) ∧
    ∀ t, (add t).apply ((add t).run s) = (.error (.duplicateTask t.id), (add t).run s) :=
  ⟨apply_assign_again hs.arranged, apply_remove_again hs.arranged, apply_release_again hs.arranged,
    apply_add_again s⟩

/-- The second of two tasks is pinned and goes to the front; when it is assigned again it stands
there already. -/
theorem again_changes_nothing_to_the_front :
    let s := Operation.runAll callsForThree ∅
    let m := assign (.ofId ⟨2⟩ "" .lowest) ⟨"ann"⟩
    s.Reachable ∧ s.chainIds ⟨"ann"⟩ = [⟨1⟩, ⟨2⟩] ∧ (m.run s).chainIds ⟨"ann"⟩ = [⟨2⟩, ⟨1⟩] ∧
      m.apply (m.run s) = (.ok (), m.run s) := by
  intro s m
  have hreach : s.Reachable := ⟨callsForThree, rfl⟩
  have hok : (m.apply s).1 = .ok () := by decide +kernel
  have hagain : m.apply (m.run s) = ((m.apply s).1, m.run s) :=
    (again_changes_nothing hreach).1 (.ofId ⟨2⟩ "" .lowest) ⟨"ann"⟩
  rw [hok] at hagain
  exact ⟨hreach, by decide +kernel, by decide +kernel, hagain⟩

end Mutation

end ChainPlanner
