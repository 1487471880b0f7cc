import ChainPlanner.Assembly.Build
import ChainPlanner.Proofs.Resync.Standing

/-!
# ChainPlanner.Proofs.Build.Seats

A solution put together task by task.  Each task has a `Seat`: the worker at the end of whose chain
it goes, or none.  A task can be seated exactly if it is not there yet and its worker is, so a list
of seats can be filled exactly if its tasks are new and different from each other.

* `Seated` — what one seat changes: its own task stands as the seat says, and nothing else moves;
* `AllSeated` — what a list of seats makes of a solution, by induction along the list;
* `Draft.solution?_eq` — the solution of a draft is nothing but a list of seats filled in order.
-/

namespace ChainPlanner.Assembly

open Solution

/-- A task that is to be seated. -/
structure Seat where
  task : Task
  /-- The worker whose chain it goes to, if it goes to one. -/
  user : Option UserId

/-- Add a task and put it on its seat. -/
def Seat.fill (s : Solution) (seat : Seat) : Except ChainError Solution :=
  match seat.user with
  | some u => append s u seat.task
  | none => s.addTask seat.task

@[simp] theorem Seat.fill_some (s : Solution) (t : Task) (u : UserId) :
    Seat.fill s ⟨t, some u⟩ = append s u t := rfl

@[simp] theorem Seat.fill_none (s : Solution) (t : Task) :
    Seat.fill s ⟨t, none⟩ = s.addTask t := rfl

variable {s s' s'' : Solution} {lists : UserId → List TaskId} {u : UserId} {x : TaskId} {t : Task}
  {seat : Seat} {seats : List Seat}

/-! ## one seat -/

/-- A task that is there already cannot be seated again. -/
theorem append_of_contains (h : s.containsTask t.id = true) (u : UserId) :
    append s u t = .error (.duplicateTask t.id) := by
  rw [append, addTask_eq, if_pos h]
  rfl

/-- A new task is seated at the end of the chain of its worker. -/
theorem append_of_absent (h : s.task? t.id = none) (u : UserId) :
    append s u t = (s.withTask t).linkAfter (s.chainTail u) t.id := by
  rw [append, addTask_eq, if_neg (by simp [containsTask_eq_false.2 h])]
  rfl

theorem lists_roster (s : Solution) : s.roster.lists = s.chainIds := rfl

/-- The roster has the workers of the solution. -/
theorem keys_users_roster (s : Solution) : s.roster.users.keys = s.users.keys :=
  KeyedList.keys_map s.users _

/-- A task in no chain does not move the end of any chain. -/
theorem chainTail_withTask (h : s.Arranged lists) (ht : s.task? t.id = none) (u : UserId) :
    s.chainTail u = (s.withTask t).chainTail u := by
  rw [h.chainTail_eq, (h.withTask ht).chainTail_eq]

/-- What a seat changes in a solution. -/
structure Seated (s : Solution) (seat : Seat) (s' : Solution) : Prop where
  absent : s.task? seat.task.id = none
  arranged : s'.Arranged s'.chainIds
  users : s'.users.keys = s.users.keys
  chains : ∀ u, s'.chainIds u =
    s.chainIds u ++ if seat.user = some u then [seat.task.id] else []
  own : s'.standing seat.task.id = ⟨some seat.task.pinned, seat.user⟩
  other : ∀ x, x ≠ seat.task.id → s'.standing x = s.standing x

/-- A task in no chain. -/
theorem seated_withTask (h : s.Arranged lists) (ht : s.task? t.id = none) :
    Seated s ⟨t, none⟩ (s.withTask t) where
  absent := ht
  arranged := (h.withTask ht).self
  users := rfl
  chains u := by
    rw [(h.withTask ht).chainIds_eq, h.chainIds_eq]
    simp
  own := Mutation.standing_of_add h ht
  other x hx := by
    have hnone : s.roster.tasks.get? t.id = none := by
      rw [get?_roster_tasks, ht, Option.map_none]
    have hbeside : s.roster.SameBeside (s.withTask t).roster t.id := by
      rw [h.roster_withTask ht]
      exact .add hnone
    exact h.standing_of_sameBeside (h.withTask ht).toChained hbeside hx

/-- The chain of one worker has one more task, the others are as before. -/
theorem chainIds_of_putLast (hroster : s'.roster = s.roster.putLast u x) (v : UserId) :
    s'.chainIds v = s.chainIds v ++ if some u = some v then [x] else [] := by
  have hafter : s'.chainIds v = (s.roster.putLast u x).lists v :=
    congrFun (congrArg Roster.lists hroster) v
  by_cases hv : v = u
  · rw [hafter, hv, Roster.lists_putLast_self, lists_roster, if_pos rfl]
  · rw [hafter, Roster.lists_putLast_of_ne _ _ hv, lists_roster,
      if_neg fun he => hv (Option.some.inj he).symm, List.append_nil]

/-- A task at the end of a chain. -/
theorem seated_of_append (h : s.Arranged lists) (hs : append s u t = .ok s') :
    Seated s ⟨t, some u⟩ s' := by
  have ht : s.task? t.id = none := by
    rw [← containsTask_eq_false, Bool.eq_false_iff]
    intro hthere
    rw [append_of_contains hthere] at hs
    cases hs
  -- the task is first seated with nobody, and then put at the end of the chain
  have hadded := seated_withTask h ht
  rw [append_of_absent ht, chainTail_withTask h ht] at hs
  obtain ⟨harr, -, hroster⟩ := (h.withTask ht).roster_linkAfter_chainTail hs
  have hgrows : (s.withTask t).roster.Grows s'.roster := hroster ▸ .putLast _ u t.id
  have hchains : ∀ v, s'.chainIds v = s.chainIds v ++ if some u = some v then [t.id] else [] := by
    intro v
    rw [chainIds_of_putLast hroster, show (s.withTask t).chainIds v = s.chainIds v by
      simpa using hadded.chains v]
  have hpinned : ∀ x, (s'.roster.tasks.get? x).map (·.pinned) =
      ((s.withTask t).standing x).pinned := fun x => by
    rw [hgrows.tasks, pinned_roster]
  have hnew : ∀ v, t.id ∉ s.chainIds v := fun v => h.self.not_mem_of_absent ht
  exact {
    absent := ht
    arranged := harr
    users := by
      rw [← keys_users_roster, hgrows.users, keys_users_roster]
      exact hadded.users
    chains := hchains
    own := by
      have hpin : (s'.roster.tasks.get? t.id).map (·.pinned) = some t.pinned := by
        rw [hpinned, hadded.own]
      refine harr.standing_eq hpin fun v => ?_
      rw [lists_roster, hchains]
      by_cases hv : u = v <;> simp [hv, hnew]
    other := by
      intro x hx
      rw [← hadded.other x hx]
      refine harr.standing_eq (hpinned x) fun v => ?_
      rw [lists_roster, hchains, ← hadded.arranged.mem_roster_lists, lists_roster, hadded.chains]
      by_cases hv : u = v <;> simp [hv, hx] }

/-- A seat that could be filled. -/
theorem seated_of_fill (h : s.Arranged lists) (hs : Seat.fill s seat = .ok s') :
    Seated s seat s' := by
  obtain ⟨t, user⟩ := seat
  cases user with
  | some u => exact seated_of_append h hs
  | none =>
    rw [Seat.fill_none, addTask_eq] at hs
    split at hs <;> cases hs
    next hno => exact seated_withTask h (containsTask_eq_false.1 (Bool.eq_false_iff.2 hno))

/-- A task that is not there can be seated with any worker that is. -/
theorem exists_fill (h : s.Arranged lists) (ht : s.task? seat.task.id = none)
    (hu : ∀ u, seat.user = some u → s.containsUser u = true) : ∃ s', Seat.fill s seat = .ok s' := by
  obtain ⟨t, user⟩ := seat
  cases user with
  | none =>
    refine ⟨s.withTask t, ?_⟩
    rw [Seat.fill_none, addTask_eq, if_neg (by simp [containsTask_eq_false.2 ht])]
  | some u =>
    have hadded : (s.withTask t).task? t.id = some t.detached := by simp [task?_withTask]
    have hloose : (s.withTask t).roster.Loose t.id :=
      (h.withTask ht).loose_iff.2 fun v => h.not_mem_of_absent ht
    rw [Seat.fill_some, append_of_absent ht, chainTail_withTask h ht]
    exact (h.withTask ht).exists_linkAfter_chainTail (hu u rfl) hadded hloose

/-! ## a list of seats -/

/-- What a list of seats makes of a solution. -/
structure AllSeated (s : Solution) (seats : List Seat) (s' : Solution) : Prop where
  arranged : s'.Arranged s'.chainIds
  users : s'.users.keys = s.users.keys
  nodup : (seats.map (·.task.id)).Nodup
  absent : ∀ seat ∈ seats, s.task? seat.task.id = none
  chains : ∀ u, s'.chainIds u =
    s.chainIds u ++ (seats.filter (·.user = some u)).map (·.task.id)
  own : ∀ seat ∈ seats, s'.standing seat.task.id = ⟨some seat.task.pinned, seat.user⟩
  other : ∀ x, x ∉ seats.map (·.task.id) → s'.standing x = s.standing x

/-- Seating nobody changes nothing. -/
theorem AllSeated.nil (h : s.Arranged lists) : AllSeated s [] s where
  arranged := h.self
  users := rfl
  nodup := .nil
  absent := by simp
  chains := by simp
  own := by simp
  other _ _ := rfl

/-- Whether a task is there is part of how it stands. -/
theorem task?_eq_none_of_standing (hx : s'.standing x = s.standing x) :
    s'.task? x = none ↔ s.task? x = none := by
  rw [← pinned_standing_eq_none_iff, hx, pinned_standing_eq_none_iff]

/-- Seating one and then the others seats them all. -/
theorem AllSeated.cons (h : Seated s seat s') (h' : AllSeated s' seats s'') :
    AllSeated s (seat :: seats) s'' := by
  have hnew : ∀ seat' ∈ seats, seat'.task.id ≠ seat.task.id := by
    intro seat' hseat he
    have hthere := h'.absent seat' hseat
    rw [he, ← pinned_standing_eq_none_iff, h.own] at hthere
    cases hthere
  exact {
    arranged := h'.arranged
    users := h'.users.trans h.users
    nodup := by
      rw [List.map_cons, List.nodup_cons]
      refine ⟨fun hmem => ?_, h'.nodup⟩
      obtain ⟨seat', hseat, he⟩ := List.mem_map.1 hmem
      exact hnew seat' hseat he
    absent := List.forall_mem_cons.2 ⟨h.absent, fun seat' hseat =>
      (task?_eq_none_of_standing (h.other _ (hnew seat' hseat))).1 (h'.absent seat' hseat)⟩
    chains := by
      intro u
      rw [h'.chains, h.chains, List.append_assoc]
      by_cases hu : seat.user = some u <;> simp [hu]
    own := by
      refine List.forall_mem_cons.2 ⟨?_, h'.own⟩
      rw [h'.other, h.own]
      rintro hmem
      obtain ⟨seat', hseat, he⟩ := List.mem_map.1 hmem
      exact hnew seat' hseat he
    other := by
      intro x hx
      rw [List.map_cons, List.mem_cons, not_or] at hx
      rw [h'.other x hx.2, h.other x hx.1] }

/-- A list of seats that could be filled. -/
theorem allSeated_of_foldlM (h : s.Arranged lists) (hs : seats.foldlM Seat.fill s = .ok s') :
    AllSeated s seats s' := by
  induction seats generalizing s lists with
  | nil =>
    cases hs
    exact .nil h
  | cons seat seats ih =>
    rw [List.foldlM_cons] at hs
    cases hstep : Seat.fill s seat with
    | error e =>
      rw [hstep] at hs
      cases hs
    | ok s₁ =>
      rw [hstep] at hs
      have hseated := seated_of_fill h hstep
      exact .cons hseated (ih hseated.arranged hs)

/-- Who is a worker is known from the keys. -/
theorem containsUser_of_keys (h : s'.users.keys = s.users.keys) (u : UserId) :
    s'.containsUser u = s.containsUser u :=
  KeyedList.contains_eq_of_keys h u

/-- A list of new, different tasks can be seated with workers that are there. -/
theorem exists_foldlM_fill (h : s.Arranged lists) (hnd : (seats.map (·.task.id)).Nodup)
    (habsent : ∀ seat ∈ seats, s.task? seat.task.id = none)
    (hu : ∀ seat ∈ seats, ∀ u, seat.user = some u → s.containsUser u = true) :
    ∃ s', seats.foldlM Seat.fill s = .ok s' := by
  induction seats generalizing s lists with
  | nil => exact ⟨s, rfl⟩
  | cons seat seats ih =>
    rw [List.map_cons, List.nodup_cons] at hnd
    obtain ⟨s₁, hstep⟩ :=
      exists_fill h (habsent seat List.mem_cons_self) (hu seat List.mem_cons_self)
    have hseated := seated_of_fill h hstep
    have hrest : ∀ seat' ∈ seats, s₁.task? seat'.task.id = none := by
      intro seat' hseat
      have hne : seat'.task.id ≠ seat.task.id := fun he =>
        hnd.1 (he ▸ List.mem_map_of_mem hseat)
      rw [task?_eq_none_of_standing (hseated.other _ hne)]
      exact habsent seat' (List.mem_cons_of_mem seat hseat)
    obtain ⟨s', hs'⟩ := ih hseated.arranged hnd.2 hrest fun seat' hseat u huser => by
      rw [containsUser_of_keys hseated.users]
      exact hu seat' (List.mem_cons_of_mem seat hseat) u huser
    exact ⟨s', by rw [List.foldlM_cons, hstep]; exact hs'⟩

/-! ## the seats of a draft -/

/-- The task of a slot, pinned or not. -/
def Slot.seated (slot : Slot) : Task := { slot.task with pinned := slot.pinned }

/-- The seats of a draft: the placeholder, then the slots of each worker, then the other tasks. -/
def Draft.seating (d : Draft) : List Seat :=
  ⟨{ Task.placeholder with pinned := true }, some .fallback⟩ ::
    ((d.chains.entries.flatMap fun e => e.2.map fun slot => ⟨slot.seated, some e.1⟩) ++
      d.unassigned.map fun t => ⟨t, none⟩)

/-- Seating the slots worker by worker is seating them in one list. -/
theorem foldlM_slots (s : Solution) (entries : List (UserId × List Slot)) :
    (entries.foldlM (fun s e => e.2.foldlM (fun s slot => append s e.1 slot.seated) s) s :
      Except ChainError Solution) =
    (entries.flatMap fun e => e.2.map fun slot => (⟨slot.seated, some e.1⟩ : Seat)).foldlM
      Seat.fill s := by
  induction entries generalizing s with
  | nil => rfl
  | cons e entries ih =>
    rw [List.foldlM_cons, List.flatMap_cons, List.foldlM_append, List.foldlM_map]
    simp only [Seat.fill_some, ih]

/-- The solution of a draft is its seats filled in order, where no chain has a task yet. -/
theorem Draft.solution?_eq (d : Draft) (htail : s.chainTail .fallback = .user .fallback) :
    d.solution? s = d.seating.foldlM Seat.fill s := by
  have hplaceholder : ∀ f : Solution → Except ChainError Solution,
      (do
        let s ← s.addTask { Task.placeholder with pinned := true }
        let s ← s.linkAfter (.user .fallback) .placeholder
        f s) =
      Seat.fill s ⟨{ Task.placeholder with pinned := true }, some .fallback⟩ >>= f := by
    intro f
    rw [Seat.fill_some, append, htail, bind_assoc]
    rfl
  rw [Draft.solution?, hplaceholder, Draft.seating, List.foldlM_cons]
  refine congrArg (Seat.fill s _ >>= ·) (funext fun s₁ => ?_)
  rw [List.foldlM_append, ← foldlM_slots]
  simp only [List.foldlM_map]
  rfl

end ChainPlanner.Assembly
