import Mathlib.Data.List.Induction
import Mathlib.Data.List.Nodup
import ChainPlanner.Solution.Links

/-!
# ChainPlanner.Proofs.Chain.Walk

Walking along stored links.  `Joined s a ids` says that the links from position `a` on run through
exactly the tasks `ids`, on both ends, and `Timed s a ids` that each of these tasks starts when the
one before it ends.  Links and times are two predicates because an edit writes the links first and
brings the times up to date afterwards.

* `Joined.insert`, `Joined.erase` — what an edit of the links does to every walk at once;
* `Joined.timed_retimeFrom` — bringing the times up to date makes a walk `Timed`;
* `Joined.follow_eq` — reading the tasks of a walk off the links.
-/

namespace ChainPlanner.Solution

/-! ## one step -/

/-- What is linked after a position. -/
def successor? (s : Solution) : Anchor → Option TaskId
  | .user id => (s.user? id).bind (·.next)
  | .task id => (s.task? id).bind (·.next)

/-- What a task is linked after. -/
def predecessor? (s : Solution) (id : TaskId) : Option Anchor := (s.task? id).bind (·.previous)

/-! ## walks -/

/-- The links from a position on run through exactly the given tasks. -/
def Joined (s : Solution) (a : Anchor) : List TaskId → Prop
  | [] => s.successor? a = none
  | id :: ids => s.successor? a = some id ∧ s.predecessor? id = some a ∧ s.Joined (.task id) ids

/-- Each of the given tasks starts when what it comes after ends. -/
def Timed (s : Solution) (a : Anchor) : List TaskId → Prop
  | [] => True
  | id :: ids => (∃ t, s.task? id = some t ∧ t.startTime = some (s.startAfter a) ∧
      t.endTime = some (s.startAfter a + t.duration)) ∧ s.Timed (.task id) ids

/-- The position that a walk from `a` through the given tasks ends at. -/
def lastPosition (a : Anchor) : List TaskId → Anchor
  | [] => a
  | id :: ids => lastPosition (.task id) ids

variable {s s' : Solution} {a p : Anchor} {id x : TaskId} {ids xs ys : List TaskId}

@[simp] theorem lastPosition_concat (a : Anchor) (xs : List TaskId) (x : TaskId) :
    lastPosition a (xs ++ [x]) = .task x := by
  induction xs generalizing a with
  | nil => rfl
  | cons y ys ih => exact ih (.task y)

/-- A task that comes after something is there. -/
theorem task?_of_predecessor? (h : s.predecessor? id = some p) :
    ∃ t, s.task? id = some t ∧ t.previous = some p :=
  Option.bind_eq_some_iff.1 h

namespace Joined

/-- The first task of a walk is linked after its start. -/
theorem successor?_eq_head? (h : s.Joined a ids) : s.successor? a = ids.head? := by
  cases ids with
  | nil => exact h
  | cons id ids => exact h.1

/-- A walk depends on no link but those it passes. -/
theorem congr (h : s.Joined a ids)
    (hs : ∀ c, c = a ∨ c ∈ ids.map Anchor.task → s'.successor? c = s.successor? c)
    (hp : ∀ x ∈ ids, s'.predecessor? x = s.predecessor? x) : s'.Joined a ids := by
  induction ids generalizing a with
  | nil => exact (hs a (.inl rfl)).trans h
  | cons id ids ih =>
    obtain ⟨hnext, hprev, hrest⟩ := h
    have hs' : ∀ c, c = .task id ∨ c ∈ ids.map Anchor.task → s'.successor? c = s.successor? c :=
      fun c hc => hs c (.inr (by rwa [List.map_cons, List.mem_cons]))
    have htail := ih hrest hs' fun x hx => hp x (List.mem_cons_of_mem id hx)
    exact ⟨(hs a (.inl rfl)).trans hnext, (hp id List.mem_cons_self).trans hprev, htail⟩

/-- The second part of a walk is a walk from where the first part ends. -/
theorem append_right (h : s.Joined a (xs ++ ys)) : s.Joined (lastPosition a xs) ys := by
  induction xs generalizing a with
  | nil => exact h
  | cons x xs ih => exact ih h.2.2

/-- Every task of a walk is there. -/
theorem exists_task (h : s.Joined a ids) (hx : x ∈ ids) : ∃ t, s.task? x = some t := by
  induction ids generalizing a with
  | nil => exact absurd hx List.not_mem_nil
  | cons id ids ih =>
    rcases List.mem_cons.1 hx with rfl | hx
    · obtain ⟨t, ht, -⟩ := task?_of_predecessor? h.2.1
      exact ⟨t, ht⟩
    · exact ih h.2.2 hx

/-- A task of a walk is linked after a position of it, and is what comes after that position. -/
theorem predecessor?_of_mem (h : s.Joined a ids) (hx : x ∈ ids) :
    ∃ c, s.predecessor? x = some c ∧ s.successor? c = some x ∧
      (c = a ∨ c ∈ ids.map Anchor.task) := by
  induction ids generalizing a with
  | nil => exact absurd hx List.not_mem_nil
  | cons id ids ih =>
    rcases List.mem_cons.1 hx with rfl | hx
    · exact ⟨a, h.2.1, h.1, .inl rfl⟩
    · obtain ⟨c, hp, hs, hc⟩ := ih h.2.2 hx
      exact ⟨c, hp, hs, .inr (by rwa [List.map_cons, List.mem_cons])⟩

/-- What comes after a position of a walk is a task of it, and is linked after that position. -/
theorem successor?_of_position (h : s.Joined a ids) (hp : p = a ∨ p ∈ ids.map Anchor.task)
    (hx : s.successor? p = some x) : x ∈ ids ∧ s.predecessor? x = some p := by
  induction ids generalizing a with
  | nil =>
    rcases hp with rfl | hp
    · have hnone : s.successor? p = none := h
      rw [hnone] at hx
      cases hx
    · simp at hp
  | cons id ids ih =>
    obtain ⟨hnext, hprev, hrest⟩ := h
    by_cases hpa : p = a
    · subst hpa
      rw [hnext] at hx
      cases hx
      exact ⟨List.mem_cons_self, hprev⟩
    · rw [List.map_cons, List.mem_cons] at hp
      obtain ⟨hmem, hback⟩ := ih hrest (hp.resolve_left hpa)
      exact ⟨List.mem_cons_of_mem id hmem, hback⟩

/-- Following the links reads the tasks of a walk one by one. -/
theorem follow_eq {n : Nat} (h : s.Joined a ids) (hn : ids.length ≤ n) :
    s.follow n (s.successor? a) = ids.filterMap s.task? := by
  induction ids generalizing a n with
  | nil =>
    have hnone : s.successor? a = none := h
    rw [hnone]
    cases n <;> rfl
  | cons id ids ih =>
    obtain ⟨hnext, hprev, hrest⟩ := h
    obtain ⟨t, ht, -⟩ := task?_of_predecessor? hprev
    obtain ⟨n, rfl⟩ : ∃ m, n = m + 1 := ⟨n - 1, by rw [List.length_cons] at hn; omega⟩
    have hcursor : s.successor? (.task id) = t.next := by simp [successor?, ht]
    have htail := ih hrest (n := n) (by rw [List.length_cons] at hn; omega)
    rw [hcursor] at htail
    simp [hnext, follow, ht, htail]

/-- Climbing from the end of a walk reaches the worker it begins at. -/
theorem climb_lastPosition {u : UserId} {n : Nat} (h : s.Joined (.user u) (xs ++ ys))
    (hn : xs.length < n) : s.climb n (some (lastPosition (.user u) xs)) = some u := by
  induction xs using List.reverseRecOn generalizing ys n with
  | nil =>
    obtain ⟨n, rfl⟩ : ∃ m, n = m + 1 := ⟨n - 1, by omega⟩
    rfl
  | append_singleton xs x ih =>
    rw [List.append_assoc] at h
    obtain ⟨t, ht, hprev⟩ := task?_of_predecessor? h.append_right.2.1
    obtain ⟨n, rfl⟩ : ∃ m, n = m + 1 := ⟨n - 1, by omega⟩
    have hih := ih (n := n) h (by simp at hn; omega)
    simp [climb, ht, hprev, hih]

end Joined

/-! ## times -/

/-- What a task contributes to the times of a chain. -/
def timing (t : Task) : Minutes × Option Minutes × Option Minutes :=
  (t.duration, t.startTime, t.endTime)

/-- A task without its times. -/
def untimedTask (t : Task) : Task := { t with startTime := none, endTime := none }

/-- A solution without its times. -/
def untimed (s : Solution) : Solution := { s with tasks := s.tasks.map untimedTask }

/-- When a position is free depends on its times alone. -/
theorem startAfter_congr
    (h : ∀ x, a = .task x → (s'.task? x).map timing = (s.task? x).map timing) :
    s'.startAfter a = s.startAfter a := by
  cases a with
  | user u => rfl
  | task x =>
    have hend : ((s'.task? x).map timing).bind (·.2.2) = ((s.task? x).map timing).bind (·.2.2) :=
      congrArg (Option.bind · _) (h x rfl)
    rw [Option.bind_map, Option.bind_map] at hend
    exact congrArg (Option.getD · 0) hend

/-- Whether tasks have their times depends on times and durations alone. -/
theorem Timed.congr (h : s.Timed a ids) (ha : s'.startAfter a = s.startAfter a)
    (ht : ∀ x ∈ ids, (s'.task? x).map timing = (s.task? x).map timing) : s'.Timed a ids := by
  induction ids generalizing a with
  | nil => trivial
  | cons id ids ih =>
    obtain ⟨⟨t, hid, hstart, hend⟩, hrest⟩ := h
    have hid' := ht id List.mem_cons_self
    rw [hid, Option.map_some] at hid'
    obtain ⟨t', ht', htiming⟩ := Option.map_eq_some_iff.1 hid'
    simp only [timing, Prod.mk.injEq] at htiming
    obtain ⟨hduration, hstart', hend'⟩ := htiming
    have hafter : s'.startAfter (.task id) = s.startAfter (.task id) := by
      apply startAfter_congr
      intro x hx
      cases hx
      exact ht id List.mem_cons_self
    have htail := ih hrest hafter fun x hx => ht x (List.mem_cons_of_mem id hx)
    have hstart₁ : t'.startTime = some (s'.startAfter a) := by rw [hstart', hstart, ha]
    have hend₁ : t'.endTime = some (s'.startAfter a + t'.duration) := by
      rw [hend', hend, ha, hduration]
    exact ⟨⟨t', ht', hstart₁, hend₁⟩, htail⟩

/-- A walk that does not pass a task stays timed when no other timing changes. -/
theorem Timed.congr_of_not_mem {u : UserId} (h : s.Timed (.user u) ids) (hid : id ∉ ids)
    (ht : ∀ x, x ≠ id → (s'.task? x).map timing = (s.task? x).map timing) :
    s'.Timed (.user u) ids :=
  h.congr rfl fun x hx => ht x (ne_of_mem_of_not_mem hx hid)

/-- The parts of a walk have their times one after the other. -/
theorem timed_append :
    s.Timed a (xs ++ ys) ↔ s.Timed a xs ∧ s.Timed (lastPosition a xs) ys := by
  induction xs generalizing a with
  | nil => simp [Timed, lastPosition]
  | cons x xs ih =>
    rw [List.cons_append, Timed, Timed, ih, and_assoc]
    rfl

/-- A task without its times. -/
theorem task?_untimed (s : Solution) (id : TaskId) :
    s.untimed.task? id = (s.task? id).map untimedTask :=
  KeyedList.get?_map s.tasks untimedTask id

theorem untimed_untimed (s : Solution) : s.untimed.untimed = s.untimed := by
  refine congrArg (Solution.mk s.users) (KeyedList.ext_get? (by simp [untimed]) fun k => ?_)
  simp only [untimed, KeyedList.get?_map, Option.map_map]
  rfl

/-- Following the links reads the same tasks with and without times. -/
theorem follow_untimed (s : Solution) (n : Nat) (cursor : Option TaskId) :
    s.untimed.follow n cursor = (s.follow n cursor).map untimedTask := by
  induction n generalizing cursor with
  | zero => rfl
  | succ n ih =>
    cases cursor with
    | none => rfl
    | some id =>
      rw [follow, follow, task?_untimed]
      cases s.task? id with
      | none => rfl
      | some t => exact congrArg (untimedTask t :: ·) (ih t.next)

theorem chainIds_untimed (s : Solution) (u : UserId) : s.untimed.chainIds u = s.chainIds u := by
  have hsize : s.untimed.tasks.size = s.tasks.size := by
    rw [← KeyedList.length_keys, untimed, KeyedList.keys_map, KeyedList.length_keys]
  have huser : s.untimed.user? u = s.user? u := rfl
  rw [chainIds, chainIds, chain, chain, hsize, huser, follow_untimed, List.map_map]
  rfl

theorem successor?_untimed (s : Solution) (a : Anchor) :
    s.untimed.successor? a = s.successor? a := by
  cases a with
  | user u => rfl
  | task id =>
    rw [successor?, successor?, task?_untimed, Option.bind_map]
    rfl

theorem predecessor?_untimed (s : Solution) (id : TaskId) :
    s.untimed.predecessor? id = s.predecessor? id := by
  rw [predecessor?, predecessor?, task?_untimed, Option.bind_map]
  rfl

/-- Times do not say what comes after a position. -/
theorem successor?_of_untimed (h : s'.untimed = s.untimed) (a : Anchor) :
    s'.successor? a = s.successor? a := by
  rw [← successor?_untimed, h, successor?_untimed]

/-- Times do not say what a task comes after. -/
theorem predecessor?_of_untimed (h : s'.untimed = s.untimed) (id : TaskId) :
    s'.predecessor? id = s.predecessor? id := by
  rw [← predecessor?_untimed, h, predecessor?_untimed]

/-- Times do not matter for a walk. -/
theorem Joined.of_untimed (h : s.Joined a ids) (hu : s'.untimed = s.untimed) : s'.Joined a ids :=
  h.congr (fun c _ => successor?_of_untimed hu c) fun x _ => predecessor?_of_untimed hu x

/-- A change of a task is seen in that task only. -/
theorem task?_modifyTask (s : Solution) (id x : TaskId) (f : Task → Task) :
    (s.modifyTask id f).task? x = if x = id then (s.task? x).map f else s.task? x :=
  KeyedList.get?_modify s.tasks id x f

/-- A new start time is not seen without times. -/
theorem untimed_startingAt (s : Solution) (id : TaskId) (start : Minutes) :
    (s.modifyTask id (·.startingAt start)).untimed = s.untimed :=
  congrArg (Solution.mk s.users) (KeyedList.map_modify_of_eq s.tasks id fun _ => rfl)

/-- Bringing times up to date is not seen without times. -/
theorem untimed_retimeFrom (s : Solution) (n : Nat) (cursor : Option TaskId) :
    (s.retimeFrom n cursor).untimed = s.untimed := by
  fun_induction retimeFrom s n cursor with
  | case1 => rfl
  | case2 => rfl
  | case3 => rfl
  | case4 => rfl
  | case5 s n id t ht previous hprev start ih => rw [ih, untimed_startingAt]

/-- Bringing the times up to date from where a walk begins makes the walk timed, and changes no
task outside of it. -/
theorem Joined.timed_retimeFrom {n : Nat} (h : s.Joined a ids) (hnd : ids.Nodup)
    (ha : ∀ x ∈ ids, a ≠ .task x) (hn : ids.length ≤ n) :
    (s.retimeFrom n (s.successor? a)).Timed a ids ∧
      ∀ x ∉ ids, (s.retimeFrom n (s.successor? a)).task? x = s.task? x := by
  induction ids generalizing s a n with
  | nil =>
    have hnone : s.successor? a = none := h
    rw [hnone]
    cases n <;> exact ⟨trivial, fun _ _ => rfl⟩
  | cons id ids ih =>
    obtain ⟨hnext, hprev, hrest⟩ := h
    obtain ⟨t, ht, hprev⟩ := task?_of_predecessor? hprev
    obtain ⟨n, rfl⟩ : ∃ m, n = m + 1 := ⟨n - 1, by rw [List.length_cons] at hn; omega⟩
    rw [List.nodup_cons] at hnd
    -- the first task gets its times; the rest is a walk in the solution that this leaves
    obtain ⟨s₁, hs₁⟩ : ∃ s₁, s₁ = s.modifyTask id (·.startingAt (s.startAfter a)) := ⟨_, rfl⟩
    have hu : s₁.untimed = s.untimed := hs₁ ▸ untimed_startingAt s id _
    have hother : ∀ x ≠ id, s₁.task? x = s.task? x := fun x hx => by
      rw [hs₁, task?_modifyTask, if_neg hx]
    have hid : s₁.task? id = some (t.startingAt (s.startAfter a)) := by
      rw [hs₁, task?_modifyTask, if_pos rfl, ht, Option.map_some]
    have hcursor : s₁.successor? (.task id) = t.next := by
      simp [successor?, hid, Task.startingAt]
    have hstep : s.retimeFrom (n + 1) (s.successor? a) =
        s₁.retimeFrom n (s₁.successor? (.task id)) := by
      rw [hnext, hcursor, retimeFrom, ht, hs₁]
      simp [hprev]
    obtain ⟨htimed, hframe⟩ := ih (n := n) (hrest.of_untimed hu) hnd.2
      (fun x hx he => hnd.1 (by cases he; exact hx)) (by rw [List.length_cons] at hn; omega)
    rw [hstep]
    have hhead := (hframe id hnd.1).trans hid
    have hanchor : (s₁.retimeFrom n (s₁.successor? (.task id))).startAfter a = s.startAfter a := by
      apply startAfter_congr
      intro x hx
      have hxid : x ≠ id := fun he => ha id List.mem_cons_self (he ▸ hx)
      have hxids : x ∉ ids := fun hm => ha x (List.mem_cons_of_mem id hm) hx
      rw [hframe x hxids, hother x hxid]
    constructor
    · exact ⟨⟨_, hhead, by rw [hanchor]; rfl, by rw [hanchor]; rfl⟩, htimed⟩
    · intro x hx
      rw [List.mem_cons, not_or] at hx
      rw [hframe x hx.2, hother x hx.1]

end ChainPlanner.Solution
