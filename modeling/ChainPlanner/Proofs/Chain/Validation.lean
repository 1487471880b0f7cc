import ChainPlanner.Solution.Check
import ChainPlanner.Proofs.Chain.Arrangement

/-!
# ChainPlanner.Proofs.Chain.Validation

The check of a solution finds exactly the lists behind its links.

* An arranged solution is valid.  `Arranged.layout` gives its lists the form of a `Layout`, and
  `Layout.validate` runs the check along such lists: following a chain meets the tasks of its list
  and nothing else, so nothing is met twice, and what is never met has no links.
* A valid solution has such lists (`exists_layout_of_validate`): what the check meets on a chain is
  the list.  If no task is without a place the solution is arranged
  (`exists_arranged_of_validate`); a task without a place may still carry times, and the check does
  not look at those.
-/

namespace ChainPlanner.Solution

variable {s : Solution} {lists : UserId → List TaskId} {u : UserId} {a : Anchor} {id : TaskId}
  {ids seen : List TaskId} {cursor : Option TaskId} {start : Minutes}

/-- A walk with its times is what the check expects along it. -/
theorem Joined.linked (h : s.Joined a ids) (ht : s.Timed a ids) :
    s.Linked a (s.startAfter a) (s.successor? a) ids := by
  induction ids generalizing a with
  | nil => exact h
  | cons id ids ih =>
    obtain ⟨hnext, hprev, hrest⟩ := h
    obtain ⟨⟨t, hid, hstart, hend⟩, htimed⟩ := ht
    have hafter : s.startAfter (.task id) = s.startAfter a + t.duration := by
      simp [startAfter, hid, hend]
    have hcursor : s.successor? (.task id) = t.next := by simp [successor?, hid]
    have hprevious : t.previous = some a := by simpa [predecessor?, hid] using hprev
    have htail := ih hrest htimed
    rw [hafter, hcursor] at htail
    exact ⟨hnext, t, hid, hprevious, hstart, hend, htail⟩

/-- The lists of an arranged solution are a layout. -/
theorem Arranged.layout (h : s.Arranged lists) : s.Layout lists where
  linked {u w} hw := by
    have hhead : s.successor? (.user u) = w.next := by simp [successor?, hw]
    have hlinked := (h.joined u).linked (h.timed u)
    rw [hhead] at hlinked
    exact hlinked
  nodup _ := h.nodup _
  disjoint _ _ huv := h.disjoint huv
  unlinked {x t} ht hx := by
    have hfree : ∀ u, x ∉ lists u := fun u hmem => by
      cases hu : s.containsUser u with
      | true => exact hx u hu hmem
      | false =>
        rw [h.list_of_absent (containsUser_eq_false.1 hu)] at hmem
        exact List.not_mem_nil hmem
    rw [← h.free ht hfree]
    exact ⟨rfl, rfl⟩

/-! ## following one chain -/

/-- Following a chain meets the tasks of its list, the last one first. -/
theorem Linked.checkFrom (h : s.Linked a start cursor ids) (u : UserId) (hnd : ids.Nodup)
    (hseen : ∀ x ∈ ids, x ∉ seen) :
    s.checkFrom u seen a start cursor = .ok (ids.reverse ++ seen) := by
  induction ids generalizing a start cursor seen with
  | nil =>
    have hnone : cursor = none := h
    rw [hnone, Solution.checkFrom]
    rfl
  | cons id ids ih =>
    obtain ⟨hcursor, t, ht, hprev, hstart, hend, hrest⟩ := h
    rw [List.nodup_cons] at hnd
    have hid : id ∉ seen := hseen id List.mem_cons_self
    have hlater : ∀ x ∈ ids, x ∉ id :: seen := by
      intro x hx
      have hxid : x ≠ id := fun he => hnd.1 (he ▸ hx)
      simp [hxid, hseen x (List.mem_cons_of_mem id hx)]
    have htail := ih hrest hnd.2 hlater
    rw [hcursor, Solution.checkFrom, dif_neg hid]
    split
    · next hnone => simp [ht] at hnone
    · next t' ht' =>
      have hsame : t' = t := by simpa [ht] using ht'.symm
      subst hsame
      simp [hprev, hstart, hend, htail]

/-! ## all chains, and the rest -/

/-- Following the chains of some workers meets exactly their tasks. -/
theorem Layout.foldlM_checkFrom (h : s.Layout lists) (us : List User)
    (hus : ∀ w ∈ us, s.user? w.id = some w) (hnd : (us.map (·.id)).Nodup)
    (hseen : ∀ w ∈ us, ∀ x ∈ lists w.id, x ∉ seen) :
    ∃ met, us.foldlM (fun seen w => s.checkFrom w.id seen (.user w.id) 0 w.next) seen = .ok met ∧
      ∀ x, x ∈ met ↔ x ∈ seen ∨ ∃ w ∈ us, x ∈ lists w.id := by
  induction us generalizing seen with
  | nil => exact ⟨seen, rfl, by simp⟩
  | cons w us ih =>
    rw [List.map_cons, List.nodup_cons] at hnd
    have hw := hus w List.mem_cons_self
    have hthere : s.containsUser w.id = true := containsUser_iff.2 ⟨w, hw⟩
    have hone := (h.linked hw).checkFrom w.id (h.nodup hthere) (hseen w List.mem_cons_self)
    have hother : ∀ v ∈ us, ∀ x ∈ lists v.id, x ∉ (lists w.id).reverse ++ seen := by
      intro v hv x hx
      have hne : v.id ≠ w.id := fun he => hnd.1 (he ▸ List.mem_map_of_mem hv)
      have hvthere : s.containsUser v.id = true :=
        containsUser_iff.2 ⟨v, hus v (List.mem_cons_of_mem w hv)⟩
      have hdisjoint := h.disjoint hvthere hthere hne x hx
      simp [hdisjoint, hseen v (List.mem_cons_of_mem w hv) x hx]
    obtain ⟨met, hmet, hmem⟩ :=
      ih (fun v hv => hus v (List.mem_cons_of_mem w hv)) hnd.2 hother
    have hall : (w :: us).foldlM
        (fun seen w => s.checkFrom w.id seen (.user w.id) 0 w.next) seen = .ok met := by
      rw [List.foldlM_cons, hone]
      exact hmet
    have hmembers : ∀ x, x ∈ met ↔ x ∈ seen ∨ ∃ v ∈ w :: us, x ∈ lists v.id := by
      intro x
      rw [hmem x, List.mem_append, List.mem_reverse, List.exists_mem_cons_iff]
      tauto
    exact ⟨met, hall, hmembers⟩

/-- The ids of the workers are their keys. -/
theorem Keyed.map_id_users (h : s.Keyed) : s.users.values.map (·.id) = s.users.keys := by
  rw [KeyedList.values, KeyedList.keys, List.map_map]
  exact List.map_congr_left fun e he => h.user_id (KeyedList.get?_eq_some_iff.2 he)

/-- A solution whose links and times are those of lists is valid. -/
theorem Layout.validate (h : s.Layout lists) (hk : s.Keyed) : s.validate = .ok () := by
  have hus : ∀ w ∈ s.users.values, s.user? w.id = some w := fun w hw => by
    obtain ⟨u, hu⟩ := KeyedList.mem_values_iff.1 hw
    have hid : w.id = u := hk.user_id hu
    rw [hid]
    exact hu
  have hnew : ∀ w ∈ s.users.values, ∀ x ∈ lists w.id, x ∉ ([] : List TaskId) := by simp
  obtain ⟨met, hmet, hmem⟩ :=
    h.foldlM_checkFrom s.users.values hus (hk.map_id_users ▸ s.users.nodup_keys) hnew
  have hchains : s.checkChains = .ok met := hmet
  have hrest : (s.tasks.values.find? fun t =>
      t.id ∉ met && (t.previous.isSome || t.next.isSome)) = none := by
    rw [List.find?_eq_none]
    intro t ht hbad
    obtain ⟨x, hx⟩ := KeyedList.mem_values_iff.1 ht
    have hid : t.id = x := hk.task_id hx
    simp only [Bool.and_eq_true, decide_eq_true_eq] at hbad
    have hfree : ∀ u, s.containsUser u = true → x ∉ lists u := fun u hu hxu => by
      obtain ⟨w, hw⟩ := containsUser_iff.1 hu
      have hwid : w.id = u := hk.user_id hw
      exact hbad.1 ((hmem t.id).2 (.inr ⟨w, KeyedList.mem_values_iff.2 ⟨u, hw⟩, by
        rw [hid, hwid]; exact hxu⟩))
    obtain ⟨hprev, hnext⟩ := h.unlinked hx hfree
    simp [hprev, hnext] at hbad
  simp only [Solution.validate, hchains, bind, Except.bind, hrest]
  rfl

/-! ## the lists that the check has met -/

/-- What a check meets on a chain, read backwards, is the list behind the links. -/
theorem exists_linked_of_checkFrom {met : List TaskId}
    (h : s.checkFrom u seen a start cursor = .ok met) :
    ∃ ids, s.Linked a start cursor ids ∧ met = ids.reverse ++ seen ∧ ids.Nodup ∧
      ∀ x ∈ ids, x ∉ seen := by
  fun_induction checkFrom s u seen a start cursor with
  | case1 =>
    cases h
    exact ⟨[], rfl, rfl, List.nodup_nil, by simp⟩
  | case2 => cases h
  | case3 => cases h
  | case4 => cases h
  | case5 => cases h
  | case6 seen a start id hid t ht hprev htimes ih =>
    rw [not_or, not_not, not_not] at htimes
    obtain ⟨ids, hlinked, hmet, hnd, hnew⟩ := ih h
    have hhead : id ∉ ids := fun hmem => hnew id hmem List.mem_cons_self
    have hfresh : ∀ x ∈ id :: ids, x ∉ seen := by
      intro x hx
      rcases List.mem_cons.1 hx with rfl | hx
      · exact hid
      · exact fun hseen => hnew x hx (List.mem_cons_of_mem id hseen)
    refine ⟨id :: ids, ?_, by simp [hmet], List.nodup_cons.2 ⟨hhead, hnd⟩, hfresh⟩
    exact ⟨rfl, t, ht, not_not.1 hprev, htimes.1, htimes.2, hlinked⟩

/-- What a check meets on the chains of some workers are disjoint lists, one for each of them. -/
theorem exists_lists_of_foldlM {met : List TaskId} (us : List User)
    (hnd : (us.map (·.id)).Nodup)
    (h : us.foldlM (fun seen w => s.checkFrom w.id seen (.user w.id) 0 w.next) seen = .ok met) :
    ∃ lists : UserId → List TaskId,
      (∀ w ∈ us, s.Linked (.user w.id) 0 w.next (lists w.id)) ∧
      (∀ u, u ∉ us.map (·.id) → lists u = []) ∧
      (∀ u, (lists u).Nodup) ∧ (∀ u v, u ≠ v → ∀ x ∈ lists u, x ∉ lists v) ∧
      (∀ u, ∀ x ∈ lists u, x ∉ seen) ∧ ∀ x, x ∈ met ↔ x ∈ seen ∨ ∃ u, x ∈ lists u := by
  induction us generalizing seen with
  | nil =>
    cases h
    exact ⟨fun _ => [], by simp, by simp, by simp, by simp, by simp, by simp⟩
  | cons w us ih =>
    rw [List.map_cons, List.nodup_cons] at hnd
    rw [List.foldlM_cons] at h
    cases hone : s.checkFrom w.id seen (.user w.id) 0 w.next with
    | error e =>
      rw [hone] at h
      cases h
    | ok first =>
      rw [hone] at h
      obtain ⟨ids, hlinked, rfl, hids, hnew⟩ := exists_linked_of_checkFrom hone
      obtain ⟨lists, hlists, hother, hnodup, hdisjoint, hfresh, hmet⟩ := ih hnd.2 h
      -- the later chains are followed with this one as met, so none of them meets it again
      have hself : lists w.id = [] := hother w.id hnd.1
      have hapart : ∀ v, ∀ x ∈ lists v, x ∉ ids := fun v x hx hmem =>
        hfresh v x hx (List.mem_append_left _ (List.mem_reverse.2 hmem))
      refine ⟨Function.update lists w.id ids, ?_, ?_, ?_, ?_, ?_, ?_⟩
      · intro v hv
        rcases List.mem_cons.1 hv with rfl | hv
        · rw [Function.update_self]
          exact hlinked
        · have hne : v.id ≠ w.id := fun he => hnd.1 (he ▸ List.mem_map_of_mem hv)
          rw [Function.update_of_ne hne]
          exact hlists v hv
      · intro v hv
        rw [List.map_cons, List.mem_cons, not_or] at hv
        rw [Function.update_of_ne hv.1]
        exact hother v hv.2
      · intro v
        by_cases hv : v = w.id
        · rw [hv, Function.update_self]
          exact hids
        · rw [Function.update_of_ne hv]
          exact hnodup v
      · intro v v' hne x hx
        by_cases hv : v = w.id
        · subst hv
          rw [Function.update_self] at hx
          rw [Function.update_of_ne hne.symm]
          exact fun hmem => hapart v' x hmem hx
        · rw [Function.update_of_ne hv] at hx
          by_cases hv' : v' = w.id
          · rw [hv', Function.update_self]
            exact hapart v x hx
          · rw [Function.update_of_ne hv']
            exact hdisjoint v v' hne x hx
      · intro v x hx
        by_cases hv : v = w.id
        · rw [hv, Function.update_self] at hx
          exact hnew x hx
        · rw [Function.update_of_ne hv] at hx
          exact fun hmem => hfresh v x hx (List.mem_append_right _ hmem)
      · intro x
        rw [hmet x, List.mem_append, List.mem_reverse]
        constructor
        · rintro ((hx | hx) | ⟨v, hv⟩)
          · exact .inr ⟨w.id, by rwa [Function.update_self]⟩
          · exact .inl hx
          · have hne : v ≠ w.id := fun he => by simp [he, hself] at hv
            exact .inr ⟨v, by rwa [Function.update_of_ne hne]⟩
        · rintro (hx | ⟨v, hv⟩)
          · exact .inl (.inr hx)
          · by_cases he : v = w.id
            · rw [he, Function.update_self] at hv
              exact .inl (.inl hv)
            · rw [Function.update_of_ne he] at hv
              exact .inr ⟨v, hv⟩

/-- The links and the times of a valid solution are those of lists. -/
theorem exists_layout_of_validate (hk : s.Keyed) (h : s.validate = .ok ()) :
    ∃ lists, s.Layout lists ∧ ∀ u, s.user? u = none → lists u = [] := by
  cases hchains : s.checkChains with
  | error e =>
    rw [Solution.validate, hchains] at h
    cases h
  | ok met =>
    have hrest : (s.tasks.values.find? fun t =>
        t.id ∉ met && (t.previous.isSome || t.next.isSome)) = none := by
      simp only [Solution.validate, hchains, bind, Except.bind] at h
      split at h
      · cases h
      · assumption
    obtain ⟨lists, hlinked, hother, hnodup, hdisjoint, -, hmet⟩ :=
      exists_lists_of_foldlM s.users.values (hk.map_id_users ▸ s.users.nodup_keys) hchains
    have hvalue : ∀ {u w}, s.user? u = some w → w ∈ s.users.values := fun hw =>
      KeyedList.mem_values_iff.2 ⟨_, hw⟩
    have habsent : ∀ u, s.user? u = none → lists u = [] := fun u hu =>
      hother u (hk.map_id_users ▸ KeyedList.get?_eq_none_iff.1 hu)
    refine ⟨lists, ⟨?_, fun _ => hnodup _, fun _ _ => hdisjoint _ _, ?_⟩, habsent⟩
    · intro u w hw
      have hid : w.id = u := hk.user_id hw
      exact hid ▸ hlinked w (hvalue hw)
    · intro x t ht hx
      have hid : t.id = x := hk.task_id ht
      have hnever : t.id ∉ met := by
        rw [hmet, hid]
        rintro (hnil | ⟨u, hu⟩)
        · cases hnil
        · cases hw : s.user? u with
          | none => simp [habsent u hw] at hu
          | some w => exact hx u (containsUser_iff.2 ⟨w, hw⟩) hu
      have hgood := List.find?_eq_none.1 hrest t (KeyedList.mem_values_iff.2 ⟨x, ht⟩)
      simpa [hnever] using hgood

/-- What the check expects along a list is a walk with its times. -/
theorem Linked.joined_timed (h : s.Linked a start (s.successor? a) ids)
    (ha : s.startAfter a = start) : s.Joined a ids ∧ s.Timed a ids := by
  induction ids generalizing a start with
  | nil => exact ⟨h, trivial⟩
  | cons id ids ih =>
    obtain ⟨hnext, t, ht, hprev, hstart, hend, hrest⟩ := h
    have hcursor : t.next = s.successor? (.task id) := by simp [successor?, ht]
    have hafter : s.startAfter (.task id) = start + t.duration := by simp [startAfter, ht, hend]
    rw [hcursor] at hrest
    obtain ⟨hjoined, htimed⟩ := ih hrest hafter
    have hpred : s.predecessor? id = some a := by simp [predecessor?, ht, hprev]
    exact ⟨⟨hnext, hpred, hjoined⟩, ⟨t, ht, by rw [ha, hstart], by rw [ha, hend]⟩, htimed⟩

/-- The links of a valid solution are those of lists, whatever times its loose tasks carry. -/
theorem exists_chained_untimed_of_validate (hk : s.Keyed) (h : s.validate = .ok ()) :
    ∃ lists, s.untimed.Chained lists ∧ ∀ u, s.Timed (.user u) (lists u) := by
  obtain ⟨lists, hlayout, habsent⟩ := exists_layout_of_validate hk h
  have hwalk : ∀ u, s.Joined (.user u) (lists u) ∧ s.Timed (.user u) (lists u) := by
    intro u
    cases hw : s.user? u with
    | none =>
      rw [habsent u hw]
      exact ⟨by simp [Joined, successor?, hw], trivial⟩
    | some w =>
      have hnext : w.next = s.successor? (.user u) := by simp [successor?, hw]
      exact (hnext ▸ hlayout.linked hw).joined_timed rfl
  have hnil : ∀ u, s.containsUser u = false → lists u = [] := fun u hu =>
    habsent u (containsUser_eq_false.1 hu)
  refine ⟨lists, ⟨hk.of_bare (bare_of_untimed s.untimed_untimed),
    fun u => (hwalk u).1.of_untimed s.untimed_untimed, ?_, ?_, ?_⟩, fun u => (hwalk u).2⟩
  · intro u
    cases hu : s.containsUser u with
    | true => exact hlayout.nodup hu
    | false => rw [hnil u hu]; exact List.nodup_nil
  · intro u v huv x hx hv
    cases hu : s.containsUser u with
    | false => simp [hnil u hu] at hx
    | true =>
      cases hv' : s.containsUser v with
      | false => simp [hnil v hv'] at hv
      | true => exact hlayout.disjoint hu hv' huv x hx hv
  · intro x t' ht' hx
    rw [task?_untimed, Option.map_eq_some_iff] at ht'
    obtain ⟨t, ht, rfl⟩ := ht'
    obtain ⟨hprevious, hnext⟩ := hlayout.unlinked ht fun u _ => hx u
    simp [Task.detached, untimedTask, hprevious, hnext]

/-- A valid solution in which every task has a place is arranged. -/
theorem exists_arranged_of_validate (hk : s.Keyed) (h : s.validate = .ok ())
    (hplaced : s.unassigned = []) : ∃ lists, s.Arranged lists := by
  obtain ⟨lists, hchained, htimed⟩ := exists_chained_untimed_of_validate hk h
  refine ⟨lists, ⟨hk, fun u => (hchained.joined u).of_untimed s.untimed_untimed.symm,
    hchained.nodup, hchained.disjoint, ?_⟩, htimed⟩
  intro x t ht hx
  have hfree := hchained.free (t := untimedTask t) (by rw [task?_untimed, ht]; rfl) hx
  have hprevious : t.previous = none := (congrArg Task.previous hfree).symm
  have hmem : t ∈ s.unassigned :=
    List.mem_filter.2 ⟨KeyedList.mem_values_iff.2 ⟨x, ht⟩, by simp [Task.isUnassigned, hprevious]⟩
  rw [hplaced] at hmem
  cases hmem

end ChainPlanner.Solution
