import ChainPlanner.Proofs.Chain.Placing

/-!
# ChainPlanner.Proofs.Replay.Ahead

A working copy and a replay that falls behind it.  Both make the same changes, and the working copy
places tasks as well, each time at the end of a chain.  What the two have in common is said of their
rosters: `r.Trails w` holds if `w` is `r` with loose unpinned tasks put at the ends of lists.

Every edit that a change is made of keeps this (`Trails.take`, `Trails.putBehindPinned`, …).  The
one that needs the tasks at the ends to be unpinned is `putBehindPinned`: it looks for the end of
the leading run of pinned tasks, and that end must not move when tasks are put behind the list.  For
a newly placed task to be unpinned, no loose task of the replay may be pinned; that is `Tidy`, and
the changes keep it as well.

`Ahead` is the relation between the two solutions.  Its step lemmas are `Ahead.apply`, which also
says that both answer a change alike, and `Ahead.placeUnassigned`.
-/

namespace ChainPlanner

namespace Roster

/-- No loose task is pinned. -/
def Tidy (r : Roster) : Prop := ∀ x, r.Loose x → r.isPinned x = false

/-- The second roster is the first with loose unpinned tasks put at the ends of its lists. -/
structure Trails (r w : Roster) : Prop where
  users : w.users = r.users
  tasks : w.tasks = r.tasks
  lists : ∀ u, ∃ extra, w.lists u = r.lists u ++ extra ∧
    ∀ x ∈ extra, r.Loose x ∧ r.isPinned x = false

variable {r w : Roster} {u v : UserId} {id x : TaskId} {t : Task} {b : Bool}

/-! ## loose and pinned tasks after an edit -/

/-- Whoever is loose stays so when a task leaves its list. -/
theorem Loose.take (h : r.Loose x) (id : TaskId) : (r.take id).Loose x :=
  fun u hx => h u (List.mem_of_mem_erase hx)

/-- Only the task taken out can have become loose. -/
theorem Loose.of_take (h : (r.take id).Loose x) (hne : x ≠ id) : r.Loose x :=
  fun u hx => h u ((List.mem_erase_of_ne hne).2 hx)

/-- Only the task put into a list can have ceased to be loose. -/
theorem Loose.putBehindPinned (h : r.Loose x) (hne : x ≠ id) :
    (r.putBehindPinned u id).Loose x := by
  intro v hx
  rcases mem_putBehindPinned.1 hx with ⟨-, he⟩ | hx
  · exact hne he
  · exact h v hx

/-- Whoever is loose afterwards was so before and is not the task put into a list. -/
theorem Loose.of_putBehindPinned (h : (r.putBehindPinned u id).Loose x) : r.Loose x ∧ x ≠ id :=
  ⟨fun v hx => h v (mem_putBehindPinned.2 (.inr hx)),
    fun he => h u (mem_putBehindPinned.2 (.inl ⟨rfl, he⟩))⟩

/-- A task that is there is pinned or not as it has been told. -/
theorem isPinned_pin_self (r : Roster) (id : TaskId) (b : Bool) :
    (r.pin id b).isPinned id = (r.tasks.contains id && b) := by
  rw [isPinned, pin, KeyedList.get?_modify, if_pos rfl, Option.any_map, KeyedList.contains]
  cases r.tasks.get? id <;> rfl

/-- Pinning a task does not pin another. -/
theorem isPinned_pin_of_ne (r : Roster) (b : Bool) (hne : x ≠ id) :
    (r.pin id b).isPinned x = r.isPinned x := by
  rw [isPinned, pin, KeyedList.get?_modify, if_neg hne, ← isPinned]

/-- An added task is pinned if it comes so. -/
theorem isPinned_add_self (r : Roster) (t : Task) : (r.add t).isPinned t.id = t.pinned := by
  rw [isPinned, add, KeyedList.get?_insert, if_pos rfl]
  rfl

/-- Adding a task does not pin another. -/
theorem isPinned_add_of_ne (r : Roster) (hne : x ≠ t.id) :
    (r.add t).isPinned x = r.isPinned x := by
  rw [isPinned, add, KeyedList.get?_insert, if_neg hne, ← isPinned]

/-- A dropped task is not pinned. -/
theorem isPinned_drop_self (r : Roster) (id : TaskId) : (r.drop id).isPinned id = false := by
  rw [isPinned, drop, KeyedList.get?_erase, if_pos rfl]
  rfl

/-- Dropping a task does not unpin another. -/
theorem isPinned_drop_of_ne (r : Roster) (hne : x ≠ id) :
    (r.drop id).isPinned x = r.isPinned x := by
  rw [isPinned, drop, KeyedList.get?_erase, if_neg hne, ← isPinned]

/-! ## edits of a tidy roster -/

/-- Adding an unpinned task leaves no loose task pinned. -/
theorem Tidy.add (h : r.Tidy) (ht : t.pinned = false) : (r.add t).Tidy := by
  intro x hx
  by_cases hne : x = t.id
  · rw [hne, isPinned_add_self, ht]
  · rw [isPinned_add_of_ne r hne]
    exact h x hx

/-- Dropping a task leaves no loose task pinned. -/
theorem Tidy.drop (h : r.Tidy) (id : TaskId) : (r.drop id).Tidy := by
  intro x hx
  by_cases hne : x = id
  · rw [hne, isPinned_drop_self]
  · rw [isPinned_drop_of_ne r hne]
    exact h x (Loose.of_take hx hne)

/-- Releasing a task leaves no loose task pinned. -/
theorem Tidy.release (h : r.Tidy) (id : TaskId) : (r.release id).Tidy := by
  intro x hx
  by_cases hne : x = id
  · rw [hne, Roster.release, isPinned_pin_self, Bool.and_false]
  · rw [Roster.release, isPinned_pin_of_ne _ _ hne]
    exact h x (Loose.of_take hx hne)

/-- Assigning a task leaves no loose task pinned: the one that is pinned is in a list. -/
theorem Tidy.assign (h : r.Tidy) (t : Task) (u : UserId) : (r.assign t u).Tidy := by
  intro x hx
  obtain ⟨hbase, hne⟩ := Loose.of_putBehindPinned hx
  rw [Roster.assign, isPinned_pin_of_ne _ _ hne]
  cases hthere : r.tasks.contains t.id with
  | true =>
    rw [if_pos hthere] at hbase
    rw [if_pos rfl]
    exact h x (hbase.of_take hne)
  | false =>
    rw [if_neg (by simp [hthere])] at hbase
    rw [if_neg (by simp)]
    exact (isPinned_add_of_ne r hne).trans (h x hbase)

/-! ## edits of two rosters, one trailing the other -/

theorem Trails.refl (r : Roster) : r.Trails r := ⟨rfl, rfl, fun _ => ⟨[], by simp, by simp⟩⟩

/-- The same tasks are pinned in both. -/
theorem Trails.isPinned_eq (h : r.Trails w) : w.isPinned = r.isPinned := by
  funext x
  rw [isPinned, h.tasks, ← isPinned]

/-- Whoever is listed in the first is listed in the second. -/
theorem Trails.mem (h : r.Trails w) (hx : x ∈ r.lists u) : x ∈ w.lists u := by
  obtain ⟨extra, hw, -⟩ := h.lists u
  rw [hw]
  exact List.mem_append_left extra hx

theorem Trails.loose (h : r.Trails w) (hx : w.Loose x) : r.Loose x := fun u hm => hx u (h.mem hm)

/-- A task taken out of both is taken from the common part or from the tasks behind it. -/
theorem Trails.take (h : r.Trails w) (id : TaskId) : (r.take id).Trails (w.take id) where
  users := h.users
  tasks := h.tasks
  lists u := by
    obtain ⟨extra, hw, hextra⟩ := h.lists u
    have hkeep : ∀ x ∈ extra, (r.take id).Loose x ∧ (r.take id).isPinned x = false :=
      fun x hx => ⟨(hextra x hx).1.take id, (hextra x hx).2⟩
    by_cases hid : id ∈ r.lists u
    · refine ⟨extra, ?_, hkeep⟩
      rw [lists_take, lists_take, hw, List.erase_append_left _ hid]
    · refine ⟨extra.erase id, ?_, fun x hx => hkeep x (List.mem_of_mem_erase hx)⟩
      rw [lists_take, lists_take, hw, List.erase_append_right _ hid, List.erase_of_not_mem hid]

/-- A task can be dropped from both. -/
theorem Trails.drop (h : r.Trails w) (id : TaskId) : (r.drop id).Trails (w.drop id) where
  users := h.users
  tasks := by rw [Roster.drop, Roster.drop, h.tasks]
  lists u := by
    obtain ⟨extra, hw, hextra⟩ := (h.take id).lists u
    refine ⟨extra, hw, fun x hx => ⟨(hextra x hx).1, ?_⟩⟩
    by_cases hne : x = id
    · rw [hne, isPinned_drop_self]
    · rw [isPinned_drop_of_ne r hne]
      exact (hextra x hx).2

/-- A task in no list can be added to both. -/
theorem Trails.add (h : r.Trails w) (ht : w.Loose t.id) : (r.add t).Trails (w.add t) where
  users := h.users
  tasks := by rw [Roster.add, Roster.add, h.tasks]
  lists u := by
    obtain ⟨extra, hw, hextra⟩ := h.lists u
    refine ⟨extra, hw, fun x hx => ⟨(hextra x hx).1, ?_⟩⟩
    have hne : x ≠ t.id := fun he => ht u (by rw [hw, ← he]; exact List.mem_append_right _ hx)
    rw [isPinned_add_of_ne r hne]
    exact (hextra x hx).2

/-- Pinning takes a task in a list. -/
theorem Trails.pin (h : r.Trails w) (hid : r.Loose id → b = false) :
    (r.pin id b).Trails (w.pin id b) where
  users := h.users
  tasks := by rw [Roster.pin, Roster.pin, h.tasks]
  lists u := by
    obtain ⟨extra, hw, hextra⟩ := h.lists u
    refine ⟨extra, hw, fun x hx => ⟨(hextra x hx).1, ?_⟩⟩
    by_cases hne : x = id
    · rw [hne, isPinned_pin_self, hid (hne ▸ (hextra x hx).1), Bool.and_false]
    · rw [isPinned_pin_of_ne r b hne]
      exact (hextra x hx).2

/-- A task can be released in both. -/
theorem Trails.release (h : r.Trails w) (id : TaskId) : (r.release id).Trails (w.release id) :=
  (h.take id).pin fun _ => rfl

/-- Items that fail a test, put behind a list, leave its leading run as it is. -/
private theorem takeWhile_append_of_failing {α : Type} {p : α → Bool} (xs : List α) {ys : List α}
    (hys : ∀ y ∈ ys, p y = false) :
    (xs ++ ys).takeWhile p = xs.takeWhile p ∧
      (xs ++ ys).dropWhile p = xs.dropWhile p ++ ys := by
  induction xs with
  | nil =>
    cases ys with
    | nil => exact ⟨rfl, rfl⟩
    | cons y ys => simp [hys y List.mem_cons_self]
  | cons x xs ih => cases hx : p x <;> simp [hx, ih]

/-- A task goes behind the same pinned tasks in both: what trails is not pinned. -/
theorem Trails.putBehindPinned (h : r.Trails w) (hid : w.Loose id) :
    (r.putBehindPinned u id).Trails (w.putBehindPinned u id) where
  users := h.users
  tasks := h.tasks
  lists v := by
    obtain ⟨extra, hw, hextra⟩ := h.lists v
    have hkeep : ∀ x ∈ extra, (r.putBehindPinned u id).Loose x ∧
        (r.putBehindPinned u id).isPinned x = false := by
      intro x hx
      have hne : x ≠ id := fun he => hid v (by rw [hw, ← he]; exact List.mem_append_right _ hx)
      exact ⟨(hextra x hx).1.putBehindPinned hne, (hextra x hx).2⟩
    refine ⟨extra, ?_, hkeep⟩
    obtain ⟨htake, hdrop⟩ :=
      takeWhile_append_of_failing (r.lists v) fun x hx => (hextra x hx).2
    by_cases hv : v = u
    · subst hv
      rw [lists_putBehindPinned_self, lists_putBehindPinned_self, h.isPinned_eq, hw, htake, hdrop,
        List.append_assoc, List.cons_append]
    · rw [lists_putBehindPinned_of_ne w id hv, lists_putBehindPinned_of_ne r id hv, hw]

/-- The same task is pinned behind the same run in both. -/
theorem Trails.assign (h : r.Trails w) (hnd : ∀ u, (w.lists u).Nodup)
    (hthere : ∀ u, ∀ x ∈ w.lists u, w.tasks.contains x = true) (t : Task) (u : UserId) :
    (r.assign t u).Trails (w.assign t u) := by
  have hput : ∀ {r' w' : Roster}, r'.Trails w' → w'.Loose t.id →
      ((r'.putBehindPinned u t.id).pin t.id true).Trails
        ((w'.putBehindPinned u t.id).pin t.id true) := fun h' hid =>
    (h'.putBehindPinned hid).pin fun hloose => absurd rfl (hloose.of_putBehindPinned.2)
  rw [Roster.assign, Roster.assign, h.tasks]
  split
  · exact hput (h.take t.id) fun v => (hnd v).not_mem_erase
  · next habsent =>
    have hnew : w.Loose t.id := fun v hv => habsent (h.tasks ▸ hthere v t.id hv)
    exact hput (h.add hnew) hnew

/-- A loose unpinned task put at the end of a list of the second roster. -/
theorem Trails.putLast (h : r.Trails w) (hid : r.Loose id) (hpin : r.isPinned id = false)
    (u : UserId) : r.Trails (w.putLast u id) where
  users := h.users
  tasks := h.tasks
  lists v := by
    obtain ⟨extra, hw, hextra⟩ := h.lists v
    by_cases hv : v = u
    · subst hv
      refine ⟨extra ++ [id], by rw [lists_putLast_self, hw, List.append_assoc], fun x hx => ?_⟩
      rcases List.mem_append.1 hx with hx | hx
      · exact hextra x hx
      · rw [List.mem_singleton.1 hx]
        exact ⟨hid, hpin⟩
    · exact ⟨extra, (lists_putLast_of_ne w id hv).trans hw, hextra⟩

end Roster

namespace Solution

variable {r w s s' : Solution} {lists : UserId → List TaskId} {m : Mutation}

/-- The first solution is the second with unpinned tasks placed at the ends of chains that have no
place in the second. -/
structure Ahead (w r : Solution) : Prop where
  ahead : w.Arranged w.chainIds
  behind : r.Arranged r.chainIds
  trails : r.roster.Trails w.roster
  tidy : r.roster.Tidy

namespace Ahead

/-- Both are the same but for links and times. -/
theorem bare_eq (h : w.Ahead r) : w.bare = r.bare :=
  congrArg₂ Solution.mk h.trails.users h.trails.tasks

/-- Both have the same tasks. -/
theorem containsTask_eq (h : w.Ahead r) (x : TaskId) : w.containsTask x = r.containsTask x :=
  containsTask_of_bare h.bare_eq x

/-- Both have the same workers. -/
theorem containsUser_eq (h : w.Ahead r) (u : UserId) : w.containsUser u = r.containsUser u :=
  containsUser_of_bare h.bare_eq u

/-- Nothing is ahead of a solution in which every task has a place but the solution itself. -/
theorem refl (h : s.Arranged lists) (hplaced : s.unassigned = []) : s.Ahead s where
  ahead := h.self
  behind := h.self
  trails := .refl s.roster
  tidy x hx := by
    rw [isPinned_roster]
    cases ht : s.task? x with
    | none => rfl
    | some t =>
      have hfree := h.loose_iff.1 hx
      have hmem : t ∈ s.unassigned := List.mem_filter.2 ⟨KeyedList.mem_values_iff.2 ⟨x, ht⟩, by
        rw [← h.free ht hfree]
        rfl⟩
      rw [hplaced] at hmem
      cases hmem

/-! ## a change -/

/-- Both answer a change alike and keep their distance. -/
theorem apply (h : w.Ahead r) (m : Mutation) (hm : ∀ t, m = .add t → t.pinned = false) :
    (m.apply w).1 = (m.apply r).1 ∧ (m.run w).Ahead (m.run r) := by
  cases m with
  | add t =>
    cases ht : r.task? t.id with
    | some t' =>
      have hyes : r.containsTask t.id = true := containsTask_iff.2 ⟨t', ht⟩
      rw [Mutation.run, Mutation.run, Mutation.apply_add_of_contains hyes,
        Mutation.apply_add_of_contains ((h.containsTask_eq t.id).trans hyes)]
      exact ⟨rfl, h⟩
    | none =>
      -- both miss the task, since they have the same tasks
      have htw : w.task? t.id = none := containsTask_eq_false.1
        ((h.containsTask_eq t.id).trans (containsTask_eq_false.2 ht))
      rw [Mutation.run, Mutation.run, Mutation.apply_add_of_absent ht,
        Mutation.apply_add_of_absent htw]
      have hloose : w.roster.Loose t.id :=
        h.ahead.loose_iff.2 fun u => h.ahead.not_mem_of_absent htw
      refine ⟨rfl, (h.ahead.withTask htw).self, (h.behind.withTask ht).self, ?_, ?_⟩
      · rw [h.behind.roster_withTask ht, h.ahead.roster_withTask htw]
        exact h.trails.add hloose
      · rw [h.behind.roster_withTask ht]
        exact h.tidy.add (hm t rfl)
  | assign t u =>
    cases hu : r.containsUser u with
    | false =>
      rw [Mutation.run, Mutation.run, Mutation.apply_assign_of_absent hu,
        Mutation.apply_assign_of_absent ((h.containsUser_eq u).trans hu)]
      exact ⟨rfl, h⟩
    | true =>
      obtain ⟨r', _, hr, harr, hroster⟩ := Mutation.exists_apply_assign h.behind hu t
      obtain ⟨w', _, hw, harr', hroster'⟩ :=
        Mutation.exists_apply_assign h.ahead ((h.containsUser_eq u).trans hu) t
      rw [Mutation.run, Mutation.run, hr, hw]
      refine ⟨rfl, harr'.self, harr.self, ?_, ?_⟩
      · rw [hroster, hroster']
        exact h.trails.assign h.ahead.nodup_roster h.ahead.contains_of_mem_roster t u
      · rw [hroster]
        exact h.tidy.assign t u
  | remove id =>
    obtain ⟨r', _, hr, harr, hroster⟩ := Mutation.exists_apply_remove h.behind id
    obtain ⟨w', _, hw, harr', hroster'⟩ := Mutation.exists_apply_remove h.ahead id
    rw [Mutation.run, Mutation.run, hr, hw]
    refine ⟨rfl, harr'.self, harr.self, ?_, ?_⟩
    · rw [hroster, hroster']
      exact h.trails.drop id
    · rw [hroster]
      exact h.tidy.drop id
  | release id =>
    obtain ⟨r', _, hr, harr, hroster⟩ := Mutation.exists_apply_release h.behind id
    obtain ⟨w', _, hw, harr', hroster'⟩ := Mutation.exists_apply_release h.ahead id
    rw [Mutation.run, Mutation.run, hr, hw]
    refine ⟨rfl, harr'.self, harr.self, ?_, ?_⟩
    · rw [hroster, hroster']
      exact h.trails.release id
    · rw [hroster]
      exact h.tidy.release id

/-! ## placing -/

/-- Placing tasks in the first puts them further ahead. -/
theorem placeEach (h : w.Ahead r) (ids : List TaskId) : (w.placeEach ids).1.Ahead r := by
  induction ids generalizing w with
  | nil => exact h
  | cons id ids ih =>
    rw [Solution.placeEach]
    cases hplace : w.place? id with
    | none => exact ih h
    | some w' =>
      obtain ⟨u, harr, hid, hroster⟩ := h.ahead.roster_place? hplace
      have hloose : r.roster.Loose id := h.trails.loose hid
      exact ih ⟨harr, h.behind, hroster ▸ h.trails.putLast hloose (h.tidy id hloose) u, h.tidy⟩

/-- Placing what is loose in the first puts it further ahead. -/
theorem placeUnassigned (h : w.Ahead r) : w.placeUnassigned.1.Ahead r := h.placeEach w.pending

end Ahead

end Solution

end ChainPlanner
