import ChainPlanner.Solution.Check
import ChainPlanner.Proofs.Placement.Rule

/-!
# ChainPlanner.Proofs.Placement.Frame

Placing only appends.  A task that has a place keeps it: its link and its times are decided by the
tasks in front of it, and these stay (`Arranged.task?_of_longer`).  The placements against the rules
are decided by the workers, the tasks and the lists (`Chained.violations_eq`), and a task placed by
the rule adds none.
-/

namespace ChainPlanner

namespace Solution

variable {s s' : Solution} {lists lists' : UserId → List TaskId} {free : UserId → Nat}
  {u : UserId} {w : User} {x : TaskId} {t : Task} {xs ys : List TaskId}

/-! ## placements against the rules -/

theorem bind_violation?_bare (s : Solution) (w : User) (x : TaskId) :
    (s.bare.task? x).bind (s.bare.violation? { w with next := none }) =
      (s.task? x).bind (s.violation? w) := by
  rw [task?_bare, Option.bind_map]
  congr 1
  funext t
  simp only [Function.comp_apply, violation?, eligibleUsers_bare, List.find?_map, Option.map_map]
  rfl

/-- The workers, the tasks and the lists decide which placements are against the rules. -/
theorem Chained.violations_eq (h : s.Chained lists) :
    s.violations = s.bare.users.values.flatMap fun w =>
      (s.chainIds w.id).filterMap fun x => (s.bare.task? x).bind (s.bare.violation? w) := by
  rw [violations, values_users_bare, List.flatMap_map]
  congr 1
  funext w
  have hchain : (s.chainIds w.id).filterMap s.task? = s.chain w.id := by
    rw [h.chainIds_eq, h.chain_eq]
  rw [← hchain, List.filterMap_filterMap]
  congr 1
  funext x
  exact (bind_violation?_bare s w x).symm

/-- A task that goes where the rule says is not against the rules there. -/
theorem GoesTo.violation?_eq_none (h : s.GoesTo free t (some w.id)) (hk : s.Keyed)
    (hw : s.user? w.id = some w) : s.violation? w t = none := by
  generalize hid : w.id = u at h
  cases h with
  | regular h =>
    obtain ⟨hother, w', hw', heligible⟩ := hk.mem_regulars_iff.1 h.mem
    rw [← hid, hw, Option.some.injEq] at hw'
    rw [← hid] at hother
    rw [violation?, if_neg (by simpa [User.isFallback] using hother), if_pos (hw' ▸ heligible)]
  | fallback h _ =>
    have hnone : (s.eligibleUsers t).find? (fun v => !v.isFallback) = none :=
      List.find?_eq_none.2 (List.filter_eq_nil_iff.1 (List.map_eq_nil_iff.1 h))
    rw [violation?, if_pos (by simp [User.isFallback, hid]), hnone, Option.map_none]

/-! ## the whole call -/

/-- The number returned is the number of tasks that had no worker and have one now. -/
theorem Arranged.count_placeUnassigned (h : s.Arranged lists) :
    s.placeUnassigned.2 = (s.tasks.keys.filter fun x =>
      (s.assignedUser? x).isNone && (s.placeUnassigned.1.assignedUser? x).isSome).length := by
  have hperm : s.pending.Perm (s.tasks.keys.filter fun x => (s.assignedUser? x).isNone) := by
    rw [List.perm_ext_iff_of_nodup h.keyed.nodup_pending (s.tasks.nodup_keys.filter _)]
    intro x
    rw [h.mem_pending_iff_assignedUser?, containsTask, KeyedList.contains_iff, List.mem_filter,
      Option.isNone_iff_eq_none]
  rw [placeUnassigned, h.queued_pending.count_placeEach h, (hperm.filter _).length_eq,
    List.filter_filter]
  congr 2
  funext x
  exact Bool.and_comm _ _

/-- Nothing that is placed is placed against the rules. -/
theorem Arranged.violations_placeUnassigned (h : s.Arranged lists) :
    s.placeUnassigned.1.violations = s.violations := by
  obtain ⟨harr, hgrows⟩ := h.grows_placeEach s.pending
  have hbare := bare_of_grows hgrows
  rw [placeUnassigned, harr.violations_eq, h.violations_eq, hbare]
  refine List.flatMap_congr fun w hw => ?_
  rw [h.queued_pending.chainIds_placeEach h, List.filterMap_append]
  refine (congrArg _ (List.filterMap_eq_nil_iff.2 fun x hx => ?_)).trans (List.append_nil _)
  rw [List.mem_filter, decide_eq_true_eq] at hx
  obtain ⟨t, free, ht, hgoes⟩ := h.goesTo_placeUnassigned hx.1
  rw [placeUnassigned, hx.2] at hgoes
  rw [values_users_bare, List.mem_map] at hw
  obtain ⟨w, hw, rfl⟩ := hw
  rw [bind_violation?_bare, ht, Option.bind_some]
  obtain ⟨k, hk⟩ := KeyedList.mem_values_iff.1 hw
  have hid : w.id = k := h.keyed.user_id hk
  have hplaced : s.GoesTo free t (some w.id) := hgoes
  exact hplaced.violation?_eq_none h.keyed (hid ▸ hk)

/-- Placing only appends.  Each chain is the beginning of the chain afterwards, and a task that had
a worker keeps it and everything but what is linked behind it.  The number returned is that of the
tasks that came to have a worker.  Each of them is on a regular worker that may work on it, or on
the fallback user if there is no such worker, so the placements against the rules are those of
before; and a task without a worker is one that no regular worker may work on where there is no
fallback user. -/
theorem placeUnassigned_appends (hs : s.Reachable) :
    let s' := s.placeUnassigned.1
    (∀ u, s.chainIds u <+: s'.chainIds u) ∧
      (∀ x u t, s.assignedUser? x = some u → s.task? x = some t →
        s'.assignedUser? x = some u ∧ ∃ next, s'.task? x = some { t with next }) ∧
      s.placeUnassigned.2 = (s.tasks.keys.filter fun x =>
        (s.assignedUser? x).isNone && (s'.assignedUser? x).isSome).length ∧
      (∀ x t, s.task? x = some t → s.assignedUser? x = none →
        (∀ u, s'.assignedUser? x = some u →
          u ∈ s.regulars t ∨ s.regulars t = [] ∧ u = .fallback) ∧
        (s'.assignedUser? x = none → s.regulars t = [] ∧ s.containsUser .fallback = false)) ∧
      s'.violations = s.violations := by
  intro s'
  have h := hs.arranged
  obtain ⟨harr, hgrows⟩ := h.grows_placeEach s.pending
  refine ⟨hgrows.lists, fun x u t hu ht => ?_, h.count_placeUnassigned, fun x t ht hnone => ?_,
    h.violations_placeUnassigned⟩
  · have hx : x ∈ s.chainIds u := h.assignedUser?_eq_some_iff.1 hu
    exact ⟨harr.assignedUser?_eq_some_iff.2 (hgrows.mem hx),
      h.task?_of_longer harr (bare_of_grows hgrows) (hgrows.lists u) hx ht⟩
  · obtain ⟨t₁, free, ht₁, hgoes⟩ := h.goesTo_placeUnassigned
      (h.mem_pending_iff_assignedUser?.2 ⟨containsTask_iff.2 ⟨t, ht⟩, hnone⟩)
    rw [ht, Option.some.injEq] at ht₁
    subst ht₁
    constructor
    · intro u hu
      rw [hu] at hgoes
      cases hgoes with
      | regular h => exact .inl h.mem
      | fallback h _ => exact .inr ⟨h, rfl⟩
    · intro hleft
      rw [hleft] at hgoes
      cases hgoes with
      | nowhere h hf => exact ⟨h, hf⟩

/-- Three tasks find a place, and the only one against the rules is the one that stood there. -/
theorem placeUnassigned_appends_team :
    let s := Operation.runAll callsForTeam ∅
    let s' := s.placeUnassigned.1
    s.Reachable ∧ s.chainIds ⟨"mary"⟩ = [⟨1⟩] ∧ [⟨1⟩] <+: s'.chainIds ⟨"mary"⟩ ∧
      (∃ t, s.task? ⟨1⟩ = some t ∧ t.next = none ∧
        s'.task? ⟨1⟩ = some { t with next := some ⟨2⟩ }) ∧
      s.placeUnassigned.2 = 3 ∧ s'.violations = [.notEligible ⟨1⟩ ⟨"mary"⟩] := by
  intro s s'
  have hreach : s.Reachable := ⟨callsForTeam, rfl⟩
  have hs' : s' = (s.placeEach [⟨4⟩, ⟨2⟩, ⟨3⟩]).1 := congrArg Prod.fst placeUnassigned_team
  have hmary : s.chainIds ⟨"mary"⟩ = [⟨1⟩] := by decide +kernel
  have hbefore : (s.task? ⟨1⟩).map (·.next) = some none := by decide +kernel
  have hafter : (s'.task? ⟨1⟩).map (·.next) = some (some ⟨2⟩) := by
    rw [hs']
    decide +kernel
  have hcount : s.placeUnassigned.2 = 3 := by
    rw [placeUnassigned_team]
    decide +kernel
  obtain ⟨hbegins, hkept, -, -, hviolations⟩ := placeUnassigned_appends hreach
  obtain ⟨t, ht, hnext⟩ := Option.map_eq_some_iff.1 hbefore
  obtain ⟨-, next, ht'⟩ := hkept ⟨1⟩ ⟨"mary"⟩ t (by decide +kernel) ht
  have hsecond : next = some ⟨2⟩ := by
    rw [ht'] at hafter
    exact Option.some.inj hafter
  exact ⟨hreach, hmary, hmary ▸ hbegins ⟨"mary"⟩, ⟨t, ht, hnext, hsecond ▸ ht'⟩, hcount,
    hviolations.trans (by decide +kernel)⟩

end Solution

end ChainPlanner
