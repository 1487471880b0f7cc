import Mathlib.Data.List.Induction
import Mathlib.Data.List.Perm.Basic
import Mathlib.Data.List.Nodup
import ChainPlanner.Assembly.Build
import ChainPlanner.Proofs.Build.Order
import ChainPlanner.Proofs.Chain.Validation
import ChainPlanner.Proofs.Resync.Comparison

/-!
# ChainPlanner.Proofs.Build.Draft

What the records of the runtime add up to.  A draft takes one record after the other, but what it
ends up with is known for each worker by itself: the slots of the records that this worker holds
(`slot?`), in order, and beside the workers the tasks of the records that nobody known holds
(`loose?`).  The invariant of the loop is `Gathers`.

`perm_ids` counts the tasks: each record that the build takes in, one that is ready or held, puts
one task into the draft.
-/

namespace ChainPlanner

/-- Ready, or held by somebody: what a build takes in. -/
def TaskRecord.planned (r : TaskRecord) : Bool := r.status = .ready || r.holder?.isSome

namespace Assembly.Draft

variable {d d' : Draft} {r : TaskRecord} {users : List UserId} {p : PublishedTasks}
  {records : List TaskRecord} {u : UserId} {t : Task}

/-! ## what one record contributes -/

/-- The slot of a task that a worker holds. -/
def slotOf (r : TaskRecord) (u : UserId) (t : Task) : Slot where
  task := t
  index := (standing r u).2.2
  pinned := (standing r u).2.1

/-- The slot that a record adds to the chain of a worker. -/
def slot? (u : UserId) (r : TaskRecord) : Option Slot :=
  if r.holder? = some u then r.task?.toOption.map (slotOf r u) else none

/-- The task that a record adds to those in no chain. -/
def loose? (users : List UserId) (r : TaskRecord) : Option Task :=
  if r.status = .ready ∨ ∃ u ∈ r.holder?, u ∉ users then r.task?.toOption else none

/-- Whether a record shows that its task has been published. -/
def Exposed (r : TaskRecord) : Prop := ∃ u, r.holder? = some u ∧ (standing r u).1 = true

/-- A record has no slot with anybody but the worker who holds it. -/
theorem slot?_of_not_holder (h : r.holder? ≠ some u) : slot? u r = none := if_neg h

/-- A record has a slot with the worker who holds it. -/
theorem slot?_of_holder? (h : r.holder? = some u) (ht : r.task? = .ok t) :
    slot? u r = some (slotOf r u t) := by
  rw [slot?, if_pos h, ht]
  rfl

/-- When a record has a given slot with a worker. -/
theorem slot?_eq_some_iff {slot : Slot} : slot? u r = some slot ↔
    r.holder? = some u ∧ ∃ t, r.task? = .ok t ∧ slotOf r u t = slot := by
  rw [slot?]
  split
  · next h => cases ht : r.task? <;> simp [Except.toOption, h]
  · next h => simp [h]

/-- A ready task belongs in no chain. -/
theorem loose?_of_ready (h : r.status = .ready) (ht : r.task? = .ok t) :
    loose? users r = some t := by
  rw [loose?, if_pos (.inl h), ht]
  rfl

/-- A task held by somebody whom the directory does not list belongs in no chain. -/
theorem loose?_of_unknown (h : r.holder? = some u) (hu : u ∉ users) (ht : r.task? = .ok t) :
    loose? users r = some t := by
  rw [loose?, if_pos (.inr ⟨u, h, hu⟩), ht]
  rfl

/-- A task held by a listed worker belongs in a chain. -/
theorem loose?_of_known (h : r.holder? = some u) (hu : u ∈ users) : loose? users r = none := by
  refine if_neg ?_
  rintro (hready | ⟨v, hv, hno⟩)
  · exact not_ready_of_holder? h hready
  · rw [Option.mem_def, h, Option.some.injEq] at hv
    exact hno (hv ▸ hu)

/-- A task that is neither ready nor held is left out. -/
theorem loose?_of_idle (hready : r.status ≠ .ready) (hholder : r.holder? = none) :
    loose? users r = none := by
  refine if_neg ?_
  simp [hready, hholder]

/-! ## entering a record -/

/-- A ready task joins those in no chain. -/
theorem add_of_ready (h : r.status = .ready) : d.add r =
    r.task?.map fun t => { d with unassigned := d.unassigned ++ [t] } := by
  rw [add, h]
  cases r.task? <;> rfl

/-- A held task is added for the worker who holds it. -/
theorem add_of_holder? (h : r.holder? = some u) : d.add r = r.task?.map (d.addOwned r u) := by
  unfold TaskRecord.holder? at h
  cases hs : r.status <;> simp only [hs, reduceCtorEq] at h <;> rw [add, hs] <;> simp only [h] <;>
    cases r.task? <;> rfl

/-- A task that is neither ready nor held changes nothing. -/
theorem add_of_idle (hready : r.status ≠ .ready) (hholder : r.holder? = none) :
    d.add r = .ok d := by
  unfold TaskRecord.holder? at hholder
  cases hs : r.status <;> simp [hs] at hready hholder <;> simp [add, hs, hholder]

/-- A held task is sorted into the chain of its worker. -/
theorem chains_addOwned (d : Draft) (r : TaskRecord) (u : UserId) (t : Task) :
    (d.addOwned r u t).chains = d.chains.modify u (insertInOrder (slotOf r u t)) := by
  simp only [addOwned]
  split
  · rfl
  · next hu =>
    refine (KeyedList.modify_of_get?_eq_none ?_ _).symm
    rwa [KeyedList.get?_eq_none_iff, ← KeyedList.contains_iff]

/-- A task held by an unknown worker joins those in no chain. -/
theorem unassigned_addOwned (d : Draft) (r : TaskRecord) (u : UserId) (t : Task) :
    (d.addOwned r u t).unassigned =
      if d.chains.contains u then d.unassigned else d.unassigned ++ [t] := by
  simp only [addOwned]
  split <;> rfl

/-- A held task is marked as published if its record says so. -/
theorem published_addOwned (d : Draft) (r : TaskRecord) (u : UserId) (t : Task) :
    (d.addOwned r u t).published =
      if (standing r u).1 then d.published.insert t.id else d.published := by
  simp only [addOwned]
  split <;> rfl

/-! ## entering records one after another -/

/-- What a draft holds after records, for the workers under some ids and with the tasks that were
published before. -/
structure Gathers (users : List UserId) (p : PublishedTasks) (records : List TaskRecord)
    (d : Draft) : Prop where
  readable : ∀ r ∈ records, r.planned = true → ∃ t, r.task? = .ok t
  chains : d.chains.entries = users.map fun u => (u, inOrder (records.filterMap (slot? u)))
  unassigned : d.unassigned = records.filterMap (loose? users)
  published : ∀ x, x ∈ d.published ↔ x ∈ p ∨ ∃ r ∈ records, r.taskId = x ∧ Exposed r

/-- There is a chain for every worker. -/
theorem Gathers.keys (h : Gathers users p records d) : d.chains.keys = users := by
  rw [KeyedList.keys, h.chains, List.map_map]
  exact List.map_id users

/-- An empty draft has gathered no records. -/
theorem gathers_start {s : Solution} (hs : s.Keyed) (p : PublishedTasks) :
    Gathers s.users.keys p [] (start s p) where
  readable := by simp
  chains := by
    have hids : (s.users.values.map fun w => (w.id, ([] : List Slot))) =
        s.users.keys.map fun u => (u, []) := by
      rw [← hs.map_id_users, List.map_map]
      rfl
    have hnd : ((s.users.keys.map fun u => (u, ([] : List Slot))).map Prod.fst).Nodup := by
      rw [List.map_map]
      exact (List.map_id _).symm ▸ s.users.nodup_keys
    rw [start, hids, KeyedList.entries_ofList hnd]
    rfl
  unassigned := rfl
  published := by simp [start]

/-- A last item is mapped last. -/
theorem filterMap_concat {α β : Type} (f : α → Option β) (as : List α) (a : α) :
    (as ++ [a]).filterMap f = as.filterMap f ++ (f a).toList := by
  rw [List.filterMap_append]
  cases h : f a <;> simp [h]

/-- A record that adds nothing to a draft. -/
theorem Gathers.add_idle (h : Gathers users p records d) (hready : r.status ≠ .ready)
    (hholder : r.holder? = none) : Gathers users p (records ++ [r]) d where
  readable := by
    refine List.forall_mem_append.2 ⟨h.readable, List.forall_mem_singleton.2 fun hplanned => ?_⟩
    simp [TaskRecord.planned, hready, hholder] at hplanned
  chains := by
    have hslot : ∀ u, slot? u r = none := fun u => slot?_of_not_holder (by simp [hholder])
    simpa only [filterMap_concat, hslot, Option.toList_none, List.append_nil] using h.chains
  unassigned := by
    rw [filterMap_concat, loose?_of_idle hready hholder, h.unassigned]
    simp
  published := by
    intro x
    rw [h.published]
    simp [Exposed, hholder]

/-- A record of a ready task adds its task to those in no chain. -/
theorem Gathers.add_ready (h : Gathers users p records d) (hready : r.status = .ready)
    (ht : r.task? = .ok t) :
    Gathers users p (records ++ [r]) { d with unassigned := d.unassigned ++ [t] } where
  readable :=
    List.forall_mem_append.2 ⟨h.readable, List.forall_mem_singleton.2 fun _ => ⟨t, ht⟩⟩
  chains := by
    have hslot : ∀ u, slot? u r = none := fun u =>
      slot?_of_not_holder (by simp [holder?_of_ready hready])
    simpa only [filterMap_concat, hslot, Option.toList_none, List.append_nil] using h.chains
  unassigned := by
    rw [filterMap_concat, loose?_of_ready hready ht, h.unassigned]
    rfl
  published := by
    intro x
    rw [h.published]
    simp [Exposed, holder?_of_ready hready]

/-- A record of a held task adds a slot to the chain of the holder, if the holder is known. -/
theorem Gathers.add_held (h : Gathers users p records d) (hholder : r.holder? = some u)
    (ht : r.task? = .ok t) : Gathers users p (records ++ [r]) (d.addOwned r u t) where
  readable :=
    List.forall_mem_append.2 ⟨h.readable, List.forall_mem_singleton.2 fun _ => ⟨t, ht⟩⟩
  chains := by
    rw [chains_addOwned, KeyedList.modify]
    simp only [h.chains, List.map_map, filterMap_concat]
    refine List.map_congr_left fun v _ => ?_
    by_cases hv : v = u
    · subst hv
      simp [slot?_of_holder? hholder ht, inOrder_concat]
    · have hother : slot? v r = none :=
        slot?_of_not_holder fun he => hv (Option.some.inj (he.symm.trans hholder))
      simp [hother, hv]
  unassigned := by
    have hcontains : d.chains.contains u = true ↔ u ∈ users := by
      rw [KeyedList.contains_iff, h.keys]
    simp only [unassigned_addOwned, hcontains, filterMap_concat]
    split
    · next hu => simp [loose?_of_known hholder hu, h.unassigned]
    · next hu => simp [loose?_of_unknown hholder hu ht, h.unassigned]
  published := by
    intro x
    have hexposed : Exposed r ↔ (standing r u).1 = true := by simp [Exposed, hholder]
    have hid := taskId_of_task? ht
    rw [published_addOwned]
    cases hst : (standing r u).1 with
    | false => simp [hexposed, hst, h.published]
    | true =>
      rw [if_pos rfl, SortedSet.mem_insert, h.published, hid, eq_comm]
      simp only [List.mem_append, List.mem_singleton, or_and_right, exists_or, exists_eq_left,
        hexposed, hst, and_true]
      exact or_comm.trans or_assoc

/-- A record that could be entered. -/
theorem Gathers.add (h : Gathers users p records d) (hadd : d.add r = .ok d') :
    Gathers users p (records ++ [r]) d' := by
  obtain hready | ⟨u, hholder⟩ | ⟨hready, hholder⟩ := record_cases r
  · rw [add_of_ready hready] at hadd
    cases ht : r.task? <;> rw [ht] at hadd <;> cases hadd
    exact h.add_ready hready ht
  · rw [add_of_holder? hholder] at hadd
    cases ht : r.task? <;> rw [ht] at hadd <;> cases hadd
    exact h.add_held hholder ht
  · rw [add_of_idle hready hholder] at hadd
    cases hadd
    exact h.add_idle hready hholder

/-- A draft that takes in records has gathered these too. -/
theorem Gathers.addAll {done : List TaskRecord} (h : Gathers users p done d)
    (hadd : d.addAll records = (d', .ok ())) : Gathers users p (done ++ records) d' := by
  induction records generalizing done d with
  | nil =>
    cases hadd
    simpa using h
  | cons r records ih =>
    rw [Draft.addAll] at hadd
    cases hstep : d.add r with
    | error e =>
      rw [hstep] at hadd
      cases hadd
    | ok d₁ =>
      rw [hstep] at hadd
      rw [List.append_cons]
      exact ih (h.add hstep) hadd

/-- A record whose task can be read can be entered. -/
theorem exists_add_ok (d : Draft) (h : r.planned = true → ∃ t, r.task? = .ok t) :
    ∃ d', d.add r = .ok d' := by
  obtain hready | ⟨u, hholder⟩ | ⟨hready, hholder⟩ := record_cases r
  · obtain ⟨t, ht⟩ := h (by simp [TaskRecord.planned, hready])
    exact ⟨_, by rw [add_of_ready hready, ht]; rfl⟩
  · obtain ⟨t, ht⟩ := h (by simp [TaskRecord.planned, hholder])
    exact ⟨_, by rw [add_of_holder? hholder, ht]; rfl⟩
  · exact ⟨d, add_of_idle hready hholder⟩

/-- A draft takes in all records if those of planned tasks can be read. -/
theorem exists_addAll_ok (d : Draft)
    (h : ∀ r ∈ records, r.planned = true → ∃ t, r.task? = .ok t) :
    ∃ d', d.addAll records = (d', .ok ()) := by
  induction records generalizing d with
  | nil => exact ⟨d, rfl⟩
  | cons r records ih =>
    obtain ⟨d₁, hstep⟩ := exists_add_ok d (h r List.mem_cons_self)
    obtain ⟨d', hrest⟩ := ih d₁ fun r' hr' => h r' (List.mem_cons_of_mem r hr')
    exact ⟨d', by rw [Draft.addAll, hstep]; exact hrest⟩

/-! ## counting the tasks -/

/-- One worker's share, collected over all workers. -/
theorem flatMap_ite_eq {α : Type} (hnd : users.Nodup) (u : UserId) (as : List α) :
    (users.flatMap fun v => if v = u then as else []) = if u ∈ users then as else [] := by
  induction users with
  | nil => rfl
  | cons w users ih =>
    rw [List.nodup_cons] at hnd
    rw [List.flatMap_cons, ih hnd.2]
    by_cases hw : w = u
    · subst hw
      simp [hnd.1]
    · simp [hw, Ne.symm hw]

/-- The ids of the slots of some workers and of the tasks beside them. -/
def ids (users : List UserId) (records : List TaskRecord) : List TaskId :=
  (users.flatMap fun u => (records.filterMap (slot? u)).map (·.task.id)) ++
    (records.filterMap (loose? users)).map (·.id)

/-- A held task is counted once, with its worker or among those in no chain. -/
theorem ids_cons_of_held (hnd : users.Nodup) (hholder : r.holder? = some u)
    (ht : r.task? = .ok t) : (ids users (r :: records)).Perm (r.taskId :: ids users records) := by
  have hslots : ∀ v, ((r :: records).filterMap (slot? v)).map (·.task.id) =
      (if v = u then [r.taskId] else []) ++ (records.filterMap (slot? v)).map (·.task.id) := by
    intro v
    by_cases hv : v = u
    · subst hv
      simp [slot?_of_holder? hholder ht, slotOf, taskId_of_task? ht]
    · rw [List.filterMap_cons_none (slot?_of_not_holder fun he =>
        hv (Option.some.inj (he.symm.trans hholder)))]
      simp [hv]
  have hflat := (List.flatMap_append_perm users (fun v => if v = u then [r.taskId] else [])
    fun v => (records.filterMap (slot? v)).map (·.task.id)).symm
  simp only [ids, hslots]
  refine (hflat.append_right _).trans ?_
  rw [flatMap_ite_eq hnd]
  by_cases hu : u ∈ users
  · rw [if_pos hu, List.filterMap_cons_none (loose?_of_known hholder hu)]
    exact .refl _
  · rw [if_neg hu, List.filterMap_cons_some (loose?_of_unknown hholder hu ht), List.map_cons,
      taskId_of_task? ht]
    exact List.perm_middle

/-- Every record that is ready or held puts one task into a draft. -/
theorem perm_ids (hnd : users.Nodup)
    (h : ∀ r ∈ records, r.planned = true → ∃ t, r.task? = .ok t) :
    (ids users records).Perm ((records.filter (·.planned)).map (·.taskId)) := by
  induction records with
  | nil => simp [ids]
  | cons r records ih =>
    have hrest := ih fun r' hr' => h r' (List.mem_cons_of_mem r hr')
    obtain hready | ⟨u, hholder⟩ | ⟨hready, hholder⟩ := record_cases r
    · have hplanned : r.planned = true := by simp [TaskRecord.planned, hready]
      obtain ⟨t, ht⟩ := h r List.mem_cons_self hplanned
      have hslot : ∀ v, slot? v r = none := fun v =>
        slot?_of_not_holder (by simp [holder?_of_ready hready])
      rw [List.filter_cons_of_pos hplanned, List.map_cons, ids,
        List.filterMap_cons_some (loose?_of_ready hready ht), List.map_cons, taskId_of_task? ht]
      simp only [List.filterMap_cons_none (hslot _)]
      exact List.perm_middle.trans (hrest.cons _)
    · have hplanned : r.planned = true := by simp [TaskRecord.planned, hholder]
      obtain ⟨t, ht⟩ := h r List.mem_cons_self hplanned
      rw [List.filter_cons_of_pos hplanned, List.map_cons]
      exact (ids_cons_of_held hnd hholder ht).trans (hrest.cons _)
    · have hslot : ∀ v, slot? v r = none := fun v => slot?_of_not_holder (by simp [hholder])
      rw [List.filter_cons_of_neg (by simp [TaskRecord.planned, hready, hholder]), ids,
        List.filterMap_cons_none (loose?_of_idle hready hholder)]
      simp only [List.filterMap_cons_none (hslot _)]
      exact hrest

end Assembly.Draft

end ChainPlanner
