import ChainPlanner.Proofs.Chain.Walk

/-!
# ChainPlanner.Proofs.Chain.Splice

Putting a task into a chain and taking one out, on lists and on links.

On lists these are `insertBehind` and `List.erase`.  On links, `Insertion` and `Removal` list the
links that the two edits write and say that they write no other.  `Joined.insert` and
`Joined.erase` join the two sides; both hold of every walk, whether the edit meets it or not, so
that no chain has to be singled out.
-/

namespace ChainPlanner.Solution

/-! ## lists -/

/-- The chain of tasks `ids` from position `a` on, with `id` put right behind position `p`. -/
def insertBehind (p : Anchor) (id : TaskId) (a : Anchor) : List TaskId → List TaskId
  | [] => if a = p then [id] else []
  | x :: xs => if a = p then id :: x :: xs else x :: insertBehind p id (.task x) xs

variable {s s' : Solution} {a p : Anchor} {id x : TaskId} {ids xs ys : List TaskId}

/-- Behind the position that the chain starts from. -/
theorem insertBehind_self (p : Anchor) (id : TaskId) (ids : List TaskId) :
    insertBehind p id p ids = id :: ids := by
  cases ids <;> simp [insertBehind]

/-- Behind a later position. -/
theorem insertBehind_of_ne (h : a ≠ p) (x : TaskId) (xs : List TaskId) :
    insertBehind p id a (x :: xs) = x :: insertBehind p id (.task x) xs := by
  rw [insertBehind, if_neg h]

/-- A position that is not in a chain leaves the chain as it is. -/
theorem insertBehind_of_not_mem (ha : a ≠ p) (h : ∀ x ∈ ids, .task x ≠ p) :
    insertBehind p id a ids = ids := by
  induction ids generalizing a with
  | nil => rw [insertBehind, if_neg ha]
  | cons x xs ih =>
    have htail := ih (h x List.mem_cons_self) fun y hy => h y (List.mem_cons_of_mem x hy)
    rw [insertBehind_of_ne ha, htail]

/-- A position in a chain parts it in two, and the task goes in between. -/
theorem exists_insertBehind_eq (h : a = p ∨ ∃ x ∈ ids, .task x = p) :
    ∃ xs ys, ids = xs ++ ys ∧ lastPosition a xs = p ∧ insertBehind p id a ids = xs ++ id :: ys := by
  induction ids generalizing a with
  | nil =>
    have hp : a = p := by simpa using h
    exact ⟨[], [], rfl, hp, by rw [hp, insertBehind_self]; rfl⟩
  | cons x xs ih =>
    by_cases hp : a = p
    · exact ⟨[], x :: xs, rfl, hp, by rw [hp, insertBehind_self]; rfl⟩
    · obtain ⟨y, hy, hyp⟩ := h.resolve_left hp
      have htail : Anchor.task x = p ∨ ∃ z ∈ xs, .task z = p := by
        rcases List.mem_cons.1 hy with rfl | hy
        · exact .inl hyp
        · exact .inr ⟨y, hy, hyp⟩
      obtain ⟨us, vs, hsplit, hlast, hins⟩ := ih htail
      exact ⟨x :: us, vs, by rw [hsplit]; rfl, hlast, by rw [insertBehind_of_ne hp, hins]; rfl⟩

/-- Behind a task that occurs once. -/
theorem insertBehind_append {u : UserId} {y : TaskId} (h : y ∉ xs) :
    insertBehind (.task y) id (.user u) (xs ++ y :: ys) = xs ++ y :: id :: ys := by
  have hskip : ∀ a, a ≠ .task y →
      insertBehind (.task y) id a (xs ++ y :: ys) = xs ++ y :: id :: ys := by
    induction xs with
    | nil =>
      intro a ha
      rw [List.nil_append, insertBehind_of_ne ha, insertBehind_self]
      rfl
    | cons x xs ih =>
      intro a ha
      rw [List.mem_cons, not_or] at h
      rw [List.cons_append, insertBehind_of_ne ha, ih h.2 (.task x) (by simpa using Ne.symm h.1)]
      rfl
  exact hskip (.user u) (by simp)

/-- Who is in the chain afterwards. -/
theorem mem_insertBehind :
    x ∈ insertBehind p id a ids ↔ x ∈ ids ∨ (x = id ∧ (a = p ∨ ∃ y ∈ ids, .task y = p)) := by
  induction ids generalizing a with
  | nil => by_cases h : a = p <;> simp [insertBehind, h]
  | cons y ys ih =>
    by_cases h : a = p
    · simp only [h, insertBehind_self, List.mem_cons]
      grind
    · rw [insertBehind_of_ne h, List.mem_cons, ih]
      grind

/-- A new task makes no repetition. -/
theorem nodup_insertBehind (hnd : ids.Nodup) (hid : id ∉ ids) :
    (insertBehind p id a ids).Nodup := by
  induction ids generalizing a with
  | nil => by_cases h : a = p <;> simp [insertBehind, h]
  | cons y ys ih =>
    rw [List.nodup_cons] at hnd
    by_cases h : a = p
    · rw [h, insertBehind_self]
      exact List.nodup_cons.2 ⟨hid, List.nodup_cons.2 hnd⟩
    · rw [List.mem_cons, not_or] at hid
      have hy : y ∉ insertBehind p id (.task y) ys := by
        rw [mem_insertBehind]
        rintro (hy | ⟨hy, -⟩)
        · exact hnd.1 hy
        · exact hid.1 hy.symm
      rw [insertBehind_of_ne h]
      exact List.nodup_cons.2 ⟨hy, ih hnd.2 hid.2⟩

/-- Taking the task out again gives the chain back. -/
theorem erase_insertBehind (hid : id ∉ ids) : (insertBehind p id a ids).erase id = ids := by
  induction ids generalizing a with
  | nil => by_cases h : a = p <;> simp [insertBehind, h]
  | cons x xs ih =>
    rw [List.mem_cons, not_or] at hid
    by_cases h : a = p
    · rw [h, insertBehind_self, List.erase_cons_head]
    · have hx : ¬(x == id) = true := by simpa using Ne.symm hid.1
      rw [insertBehind_of_ne h, List.erase_cons_tail hx, ih hid.2]

/-! ## links -/

/-- The links of `s'` are those of `s` with task `id` put right behind position `p`. -/
structure Insertion (s s' : Solution) (p : Anchor) (id : TaskId) : Prop where
  successor_position : s'.successor? p = some id
  successor_task : s'.successor? (.task id) = s.successor? p
  successor_other : ∀ c, c ≠ p → c ≠ .task id → s'.successor? c = s.successor? c
  predecessor_task : s'.predecessor? id = some p
  predecessor_next : ∀ x, s.successor? p = some x → s'.predecessor? x = some (.task id)
  predecessor_other : ∀ x, x ≠ id → s.successor? p ≠ some x → s'.predecessor? x = s.predecessor? x

/-- The links of `s'` are those of `s` with task `id`, linked after `p`, taken out. -/
structure Removal (s s' : Solution) (p : Anchor) (id : TaskId) : Prop where
  successor_position : s'.successor? p = s.successor? (.task id)
  successor_other : ∀ c, c ≠ p → c ≠ .task id → s'.successor? c = s.successor? c
  predecessor_next : ∀ x, s.successor? (.task id) = some x → s'.predecessor? x = some p
  predecessor_other : ∀ x, x ≠ id → s.successor? (.task id) ≠ some x →
    s'.predecessor? x = s.predecessor? x

/-- Links that follow one another agree on both ends. -/
def BothWays (s : Solution) : Prop := ∀ c x, s.successor? c = some x ↔ s.predecessor? x = some c

/-- A position other than the start is a task of the walk. -/
theorem exists_task_of_position {c : Anchor} (h : c = .task x ∨ c ∈ xs.map Anchor.task) :
    ∃ y ∈ x :: xs, c = .task y := by
  cases h with
  | inl h => exact ⟨x, List.mem_cons_self, h⟩
  | inr h =>
    obtain ⟨y, hy, rfl⟩ := List.mem_map.1 h
    exact ⟨y, List.mem_cons_of_mem x hy, rfl⟩

/-- An insertion puts the task into every walk that meets its position, and leaves the others. -/
theorem Joined.insert (h : s.Joined a ids) (hins : Insertion s s' p id) (hb : s.BothWays)
    (ha : a ≠ .task id) (hid : id ∉ ids) (hpos : ∀ x ∈ ids, a ≠ .task x) (hnd : ids.Nodup) :
    s'.Joined a (insertBehind p id a ids) := by
  induction ids generalizing a with
  | nil =>
    have hnone : s.successor? a = none := h
    by_cases hp : a = p
    · subst hp
      rw [insertBehind_self]
      exact ⟨hins.successor_position, hins.predecessor_task, hins.successor_task.trans hnone⟩
    · rw [insertBehind, if_neg hp]
      exact (hins.successor_other a hp ha).trans hnone
  | cons x xs ih =>
    obtain ⟨hnext, hprev, hrest⟩ := h
    rw [List.nodup_cons] at hnd
    by_cases hp : a = p
    · -- the task goes right here, and the rest of the walk stays as it is
      subst hp
      have hsucc : ∀ c, c = .task x ∨ c ∈ xs.map Anchor.task →
          s'.successor? c = s.successor? c := by
        intro c hc
        obtain ⟨y, hy, rfl⟩ := exists_task_of_position hc
        have hyid : Anchor.task y ≠ .task id := fun he => hid (by cases he; exact hy)
        exact hins.successor_other _ (Ne.symm (hpos y hy)) hyid
      have hpred : ∀ y ∈ xs, s'.predecessor? y = s.predecessor? y := by
        intro y hy
        have hyid : y ≠ id := fun he => hid (he ▸ List.mem_cons_of_mem x hy)
        have hyx : s.successor? a ≠ some y := fun he => hnd.1 (by simp_all)
        exact hins.predecessor_other y hyid hyx
      rw [insertBehind_self]
      exact ⟨hins.successor_position, hins.predecessor_task, hins.successor_task.trans hnext,
        hins.predecessor_next x hnext, hrest.congr hsucc hpred⟩
    · rw [List.mem_cons, not_or] at hid
      -- the position is further on, or not on this walk at all
      have hother : s.successor? p ≠ some x := by
        intro he
        rw [(hb p x).1 he, Option.some.injEq] at hprev
        exact hp hprev.symm
      have hx : Anchor.task x ≠ .task id := by simpa using Ne.symm hid.1
      have hxs : ∀ y ∈ xs, Anchor.task x ≠ .task y := fun y hy he => hnd.1 (by cases he; exact hy)
      rw [insertBehind_of_ne hp]
      exact ⟨(hins.successor_other a hp ha).trans hnext,
        (hins.predecessor_other x (Ne.symm hid.1) hother).trans hprev,
        ih hrest hx hid.2 hxs hnd.2⟩

/-- A removal takes the task out of every walk that meets it, and leaves the others. -/
theorem Joined.erase (h : s.Joined a ids) (hrem : Removal s s' p id) (hb : s.BothWays)
    (hprev : s.predecessor? id = some p) (ha : a ≠ .task id) (hpos : ∀ x ∈ ids, a ≠ .task x)
    (hnd : ids.Nodup) : s'.Joined a (ids.erase id) := by
  have hp : s.successor? p = some id := (hb p id).2 hprev
  induction ids generalizing a with
  | nil =>
    have hnone : s.successor? a = none := h
    have hap : a ≠ p := by
      intro he
      rw [he, hp] at hnone
      cases hnone
    exact (hrem.successor_other a hap ha).trans hnone
  | cons x xs ih =>
    obtain ⟨hnext, hback, hrest⟩ := h
    rw [List.nodup_cons] at hnd
    by_cases hx : x = id
    · subst hx
      obtain rfl : a = p := by
        rw [hback, Option.some.injEq] at hprev
        exact hprev
      rw [List.erase_cons_head]
      cases xs with
      | nil => exact hrem.successor_position.trans hrest
      | cons y ys =>
        -- the task behind moves up, and the rest of the walk stays as it is
        obtain ⟨hnext', -, hrest'⟩ := hrest
        have hsucc : ∀ c, c = .task y ∨ c ∈ ys.map Anchor.task →
            s'.successor? c = s.successor? c := by
          intro c hc
          obtain ⟨z, hz, rfl⟩ := exists_task_of_position hc
          have hzx : Anchor.task z ≠ .task x := fun he => hnd.1 (by cases he; exact hz)
          exact hrem.successor_other _ (Ne.symm (hpos z (List.mem_cons_of_mem x hz))) hzx
        have hpred : ∀ z ∈ ys, s'.predecessor? z = s.predecessor? z := by
          intro z hz
          have hzx : z ≠ x := fun he => hnd.1 (he ▸ List.mem_cons_of_mem y hz)
          have hzy : s.successor? (.task x) ≠ some z := by
            rw [hnext', ne_eq, Option.some.injEq]
            rintro rfl
            exact (List.nodup_cons.1 hnd.2).1 hz
          exact hrem.predecessor_other z hzx hzy
        exact ⟨hrem.successor_position.trans hnext', hrem.predecessor_next y hnext',
          hrest'.congr hsucc hpred⟩
    · have hap : a ≠ p := by
        intro he
        rw [he, hp, Option.some.injEq] at hnext
        exact hx hnext.symm
      have hother : s.successor? (.task id) ≠ some x := by
        intro he
        rw [(hb _ x).1 he, Option.some.injEq] at hback
        exact ha hback.symm
      have hxid : Anchor.task x ≠ .task id := by simpa using hx
      have hxs : ∀ y ∈ xs, Anchor.task x ≠ .task y := fun y hy he => hnd.1 (by cases he; exact hy)
      rw [List.erase_cons_tail (by simpa using hx)]
      exact ⟨(hrem.successor_other a hap ha).trans hnext,
        (hrem.predecessor_other x hx hother).trans hback, ih hrest hxid hxs hnd.2⟩

end ChainPlanner.Solution
