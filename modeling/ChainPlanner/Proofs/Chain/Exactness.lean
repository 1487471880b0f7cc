import Mathlib.Tactic.MkIffOfInductiveProp
import ChainPlanner.Proofs.Chain.Checking
import ChainPlanner.Proofs.Chain.Validation

/-!
# ChainPlanner.Proofs.Chain.Exactness

The check of a solution is exact, on any links whatever.  `Charted` says place by place what it is
for stored links and times to be those of one list of tasks for each worker; `Layout` says the same
along the lists, which is the way the check goes (`charted_iff_layout`).  The check always ends, and
it accepts exactly the solutions that have such lists (`validate_exact`).
-/

namespace ChainPlanner.Solution

/-! ## place by place -/

/-- A task has the links and the times of the `k`-th task of a list that is followed from a position
and a time on: it is linked to its neighbours in the list, and its times are that time and the sums
of the durations up to it, cut off at the longest time. -/
@[mk_iff]
structure StandsAt (s : Solution) (a : Anchor) (start : Minutes) (ids : List TaskId) (k : Nat)
    (t : Task) : Prop where
  previous : t.previous = some (lastPosition a (ids.take k))
  next : t.next = ids[k + 1]?
  startTime : t.startTime =
    some (.ofNat (start.toNat + totalDuration ((ids.take k).filterMap s.task?)))
  endTime : t.endTime =
    some (.ofNat (start.toNat + totalDuration ((ids.take (k + 1)).filterMap s.task?)))

/-- The stored links and times are those of the lists. -/
structure Charted (s : Solution) (lists : UserId → List TaskId) : Prop where
  /-- A worker names the first task of its list. -/
  head : ∀ {u w}, s.user? u = some w → w.next = (lists u).head?
  nodup : ∀ {u}, s.containsUser u = true → (lists u).Nodup
  disjoint : ∀ {u v}, s.containsUser u = true → s.containsUser v = true → u ≠ v →
    ∀ x ∈ lists u, x ∉ lists v
  /-- A listed task is there, and stands where it is listed. -/
  listed : ∀ {u}, s.containsUser u = true → ∀ k x, (lists u)[k]? = some x →
    ∃ t, s.task? x = some t ∧ s.StandsAt (.user u) 0 (lists u) k t
  /-- A task in no list has no links. -/
  unlisted : ∀ {x t}, s.task? x = some t → (∀ u, s.containsUser u = true → x ∉ lists u) →
    t.previous = none ∧ t.next = none

variable {s : Solution} {lists : UserId → List TaskId} {a : Anchor} {start : Minutes}
  {cursor : Option TaskId} {id : TaskId} {ids : List TaskId} {t t' : Task} {k : Nat}

/-- How the first task of a list stands. -/
theorem standsAt_zero (ht : s.task? id = some t) :
    s.StandsAt a start (id :: ids) 0 t ↔ t.previous = some a ∧ t.next = ids.head? ∧
      t.startTime = some start ∧ t.endTime = some (start + t.duration) := by
  have hstart : Minutes.ofNat (start.toNat + totalDuration []) = start := start.ofNat_toNat
  have hend := ofNat_add_totalDuration_singleton start t
  simp [standsAt_iff, lastPosition, ht, hstart, hend, List.head?_eq_getElem?]

/-- Behind its first task a list is followed from that task and its end on. -/
theorem standsAt_succ (ht : s.task? id = some t) :
    s.StandsAt a start (id :: ids) (k + 1) t' ↔
      s.StandsAt (.task id) (start + t.duration) ids k t' := by
  simp [standsAt_iff, lastPosition, ht, ofNat_add_totalDuration_cons]

/-- Links that follow a list are known from its places. -/
theorem linked_iff : s.Linked a start cursor ids ↔ cursor = ids.head? ∧
    ∀ k x, ids[k]? = some x → ∃ t, s.task? x = some t ∧ s.StandsAt a start ids k t := by
  induction ids generalizing a start cursor with
  | nil => simp [Linked]
  | cons id ids ih =>
    constructor
    · rintro ⟨hcursor, t, ht, hprevious, hstart, hend, hrest⟩
      obtain ⟨hnext, hplaces⟩ := ih.1 hrest
      refine ⟨hcursor, fun k x hk => ?_⟩
      cases k with
      | zero =>
        obtain rfl : id = x := by simpa using hk
        exact ⟨t, ht, (standsAt_zero ht).2 ⟨hprevious, hnext, hstart, hend⟩⟩
      | succ k =>
        obtain ⟨t', ht', hplace⟩ := hplaces k x (by simpa using hk)
        exact ⟨t', ht', (standsAt_succ ht).2 hplace⟩
    · rintro ⟨hcursor, hplaces⟩
      obtain ⟨t, ht, hplace⟩ := hplaces 0 id rfl
      obtain ⟨hprevious, hnext, hstart, hend⟩ := (standsAt_zero ht).1 hplace
      refine ⟨hcursor, t, ht, hprevious, hstart, hend, ih.2 ⟨hnext, fun k x hk => ?_⟩⟩
      obtain ⟨t', ht', hplace'⟩ := hplaces (k + 1) x (by simpa using hk)
      exact ⟨t', ht', (standsAt_succ ht).1 hplace'⟩

/-- Place by place and along the lists are two ways to say one thing. -/
theorem charted_iff_layout : s.Charted lists ↔ s.Layout lists := by
  constructor
  · intro h
    have hlinked : ∀ {u w}, s.user? u = some w → s.Linked (.user u) 0 w.next (lists u) :=
      fun hw => linked_iff.2 ⟨h.head hw, h.listed (containsUser_iff.2 ⟨_, hw⟩)⟩
    exact ⟨hlinked, h.nodup, h.disjoint, h.unlisted⟩
  · intro h
    have hlisted : ∀ {u}, s.containsUser u = true → ∀ k x, (lists u)[k]? = some x →
        ∃ t, s.task? x = some t ∧ s.StandsAt (.user u) 0 (lists u) k t := by
      intro u hu
      obtain ⟨w, hw⟩ := containsUser_iff.1 hu
      exact (linked_iff.1 (h.linked hw)).2
    exact ⟨fun hw => (linked_iff.1 (h.linked hw)).1, h.nodup, h.disjoint, hlisted, h.unlinked⟩

/-! ## what the check accepts -/

/-- Whatever links and times a solution holds, so long as its keys are the ids stored under them:
its check ends within one turn more than there are tasks and workers, and it accepts the solution
exactly if the links and times are those of disjoint lists without repetition, one for each
worker. -/
theorem validate_exact (hk : s.Keyed) :
    (Check.atUser [] s.users.values).within s (s.tasks.size + s.users.size + 1) =
      some s.validate ∧
    (s.validate = .ok () ↔ ∃ lists, s.Charted lists) := by
  refine ⟨within_eq_validate s, fun h => ?_, ?_⟩
  · obtain ⟨lists, hlayout, -⟩ := exists_layout_of_validate hk h
    exact ⟨lists, charted_iff_layout.2 hlayout⟩
  · rintro ⟨lists, hcharted⟩
    exact (charted_iff_layout.1 hcharted).validate hk

/-- A worker whose only task is linked behind itself. -/
def loopOfOne : Solution where
  users := .ofList [(⟨"ann"⟩, { User.ofId ⟨"ann"⟩ with next := some ⟨1⟩ })]
  tasks := .ofList [(⟨1⟩,
    { (Task.ofId ⟨1⟩ "" .lowest).startingAt 0 with
      previous := some (.user ⟨"ann"⟩)
      next := some ⟨1⟩ })]

/-- The check of a chain that runs into itself ends, with a verdict, and no lists stand for its
links. -/
theorem validate_exact_loop :
    loopOfOne.Keyed ∧ loopOfOne.validate = .error (.cycle ⟨"ann"⟩ ⟨1⟩) ∧
      (Check.atUser [] loopOfOne.users.values).within loopOfOne 3 =
        some (.error (.cycle ⟨"ann"⟩ ⟨1⟩)) ∧
      ¬∃ lists, loopOfOne.Charted lists := by
  have hkeyed : loopOfOne.Keyed := by
    constructor
    · intro u w hw
      have := KeyedList.mem_of_get?_ofList hw
      grind [User.ofId]
    · intro x t ht
      have := KeyedList.mem_of_get?_ofList ht
      grind [Task.ofId, Task.startingAt]
  obtain ⟨hends, hexact⟩ := validate_exact hkeyed
  have hthree : (Check.atUser [] loopOfOne.users.values).within loopOfOne 3 =
      some (.error (.cycle ⟨"ann"⟩ ⟨1⟩)) := by decide +kernel
  have hanswer : loopOfOne.validate = .error (.cycle ⟨"ann"⟩ ⟨1⟩) :=
    Option.some.inj (hends.symm.trans hthree)
  have hno : ¬∃ lists, loopOfOne.Charted lists := by
    rw [← hexact, hanswer]
    decide
  exact ⟨hkeyed, hanswer, hthree, hno⟩

end ChainPlanner.Solution
