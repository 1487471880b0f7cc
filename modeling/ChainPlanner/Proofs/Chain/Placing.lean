import ChainPlanner.Proofs.Chain.Refinement

/-!
# ChainPlanner.Proofs.Chain.Placing

What placing does to an arranged solution.  A placed task goes to the end of a list, so on rosters
one placement is `Roster.putLast`, and placing many tasks only makes lists longer: `r.Grows r'`.
Workers and tasks stay as they are, and a task that has a place keeps it.

* `Arranged.roster_place?` — a task that finds a place goes to the end of somebody's list;
* `Arranged.grows_placeEach` — placing tasks in any order only makes lists longer.

Which tasks find a place, and where, is the subject of `ChainPlanner.Proofs.Placement.Rule`.
-/

namespace ChainPlanner

namespace Roster

variable {r r' r'' : Roster} {u v : UserId} {id x : TaskId}

/-- In nobody's list. -/
def Loose (r : Roster) (id : TaskId) : Prop := ∀ u, id ∉ r.lists u

/-- Put a task at the end of a worker's list. -/
def putLast (r : Roster) (u : UserId) (id : TaskId) : Roster :=
  { r with lists := Function.update r.lists u (r.lists u ++ [id]) }

/-- The list that the task goes to. -/
theorem lists_putLast_self (r : Roster) (u : UserId) (id : TaskId) :
    (r.putLast u id).lists u = r.lists u ++ [id] :=
  Function.update_self u _ r.lists

/-- The other lists stay. -/
theorem lists_putLast_of_ne (r : Roster) (id : TaskId) (h : v ≠ u) :
    (r.putLast u id).lists v = r.lists v :=
  Function.update_of_ne h _ r.lists

/-- Who is listed where after a task has been put last. -/
theorem mem_putLast : x ∈ (r.putLast u id).lists v ↔ x ∈ r.lists v ∨ v = u ∧ x = id := by
  by_cases hv : v = u
  · rw [hv, lists_putLast_self]
    simp
  · rw [lists_putLast_of_ne r id hv]
    simp [hv]

/-- The second roster is the first with longer lists. -/
structure Grows (r r' : Roster) : Prop where
  users : r'.users = r.users
  tasks : r'.tasks = r.tasks
  lists : ∀ u, r.lists u <+: r'.lists u

namespace Grows

theorem refl (r : Roster) : r.Grows r := ⟨rfl, rfl, fun _ => List.prefix_rfl⟩

/-- Growing twice is growing. -/
theorem trans (h : r.Grows r') (h' : r'.Grows r'') : r.Grows r'' where
  users := h'.users.trans h.users
  tasks := h'.tasks.trans h.tasks
  lists u := (h.lists u).trans (h'.lists u)

/-- Putting a task last makes one list longer. -/
theorem putLast (r : Roster) (u : UserId) (id : TaskId) : r.Grows (r.putLast u id) where
  users := rfl
  tasks := rfl
  lists v := by
    by_cases hv : v = u
    · simp [hv, lists_putLast_self]
    · simp [lists_putLast_of_ne r id hv]

/-- Whoever was listed is listed. -/
theorem mem (h : r.Grows r') (hx : x ∈ r.lists u) : x ∈ r'.lists u := (h.lists u).subset hx

/-- Whoever is not listed was not. -/
theorem loose (h : r.Grows r') (hx : r'.Loose x) : r.Loose x := fun u hm => hx u (h.mem hm)

end Grows

end Roster

namespace Solution

variable {s s' : Solution} {lists : UserId → List TaskId} {u : UserId} {id x : TaskId} {t : Task}
  {ids : List TaskId}

/-- The lists of an arranged solution are its chains. -/
theorem Arranged.self (h : s.Arranged lists) : s.Arranged s.chainIds := h.chainIds_eq ▸ h

/-- A task in no list belongs to nobody. -/
theorem Chained.loose_iff (h : s.Chained lists) : s.roster.Loose x ↔ ∀ u, x ∉ lists u := by
  rw [Roster.Loose, h.roster_lists]

/-! ## one task -/

/-- A task linked to the end of a chain is the last one of the list afterwards. -/
theorem Arranged.roster_linkAfter_chainTail (h : s.Arranged lists)
    (hs : s.linkAfter (s.chainTail u) id = .ok s') :
    s'.Arranged s'.chainIds ∧ s.roster.Loose id ∧ s'.roster = s.roster.putLast u id := by
  obtain ⟨harr, hbare⟩ := h.linkAfter hs
  have hloose : s.roster.Loose id := h.loose_iff.2 (h.linkAfter_position hs).1
  have hends : (fun v => insertBehind (lastPosition (.user u) (lists u)) id (.user v) (lists v)) =
      Function.update lists u (lists u ++ [id]) :=
    h.insertBehind_eq (List.append_nil (lists u)).symm
  rw [h.chainTail_eq, hends] at harr
  have hroster : s'.roster = s.roster.putLast u id := by
    rw [harr.roster_eq hbare, Roster.putLast, h.roster_lists]
    rfl
  exact ⟨harr.self, hloose, hroster⟩

/-- A task in no chain can be linked to the end of any worker's chain. -/
theorem Arranged.exists_linkAfter_chainTail (h : s.Arranged lists) (hu : s.containsUser u = true)
    (ht : s.task? id = some t) (hid : s.roster.Loose id) :
    ∃ s', s.linkAfter (s.chainTail u) id = .ok s' := by
  obtain ⟨s', hlink, -⟩ :=
    h.exists_linkAfter hu (List.append_nil (lists u)).symm ht (h.loose_iff.1 hid)
  exact ⟨s', by rw [h.chainTail_eq, hlink]⟩

/-- A task that finds a place goes to the end of somebody's list. -/
theorem Arranged.roster_place? (h : s.Arranged lists) (hs : s.place? id = some s') :
    ∃ u, s'.Arranged s'.chainIds ∧ s.roster.Loose id ∧ s'.roster = s.roster.putLast u id := by
  obtain ⟨u, -, hlink⟩ := linkAfter_of_place? hs
  exact ⟨u, h.roster_linkAfter_chainTail hlink⟩

/-! ## many tasks -/

/-- Placing tasks only makes lists longer. -/
theorem Arranged.grows_placeEach (h : s.Arranged lists) (ids : List TaskId) :
    (s.placeEach ids).1.Arranged (s.placeEach ids).1.chainIds ∧
      s.roster.Grows (s.placeEach ids).1.roster := by
  induction ids generalizing s lists with
  | nil => exact ⟨h.self, .refl _⟩
  | cons id ids ih =>
    rw [placeEach]
    cases hplace : s.place? id with
    | none => exact ih h
    | some s' =>
      obtain ⟨u, harr, -, hroster⟩ := h.roster_place? hplace
      obtain ⟨hend, hrest⟩ := ih harr
      exact ⟨hend, (hroster ▸ Roster.Grows.putLast s.roster u id).trans hrest⟩

/-- Growing lists leave workers and tasks as they are. -/
theorem bare_of_grows (h : s.roster.Grows s'.roster) : s'.bare = s.bare :=
  congrArg₂ Solution.mk h.users h.tasks

/-- The tasks to be placed are those that are there and in no list. -/
theorem mem_pending_iff (h : s.Chained lists) :
    x ∈ s.pending ↔ s.containsTask x = true ∧ s.roster.Loose x := by
  simp only [pending, unassigned, List.mem_map, List.mem_mergeSort, List.mem_filter,
    KeyedList.mem_values_iff]
  rw [h.loose_iff, containsTask_iff]
  constructor
  · rintro ⟨t, ⟨⟨k, hk⟩, hfree⟩, rfl⟩
    have hid : t.id = k := h.keyed.task_id hk
    exact ⟨⟨t, hid ▸ hk⟩, fun u => h.not_mem_of_previous (hid ▸ hk)
      (Option.isNone_iff_eq_none.1 hfree)⟩
  · rintro ⟨⟨t, ht⟩, hloose⟩
    have hdetached := h.free ht hloose
    exact ⟨t, ⟨⟨x, ht⟩, by rw [← hdetached]; rfl⟩, h.keyed.task_id ht⟩

end Solution

end ChainPlanner
