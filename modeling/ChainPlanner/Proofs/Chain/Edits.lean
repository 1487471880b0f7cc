import Mathlib.Logic.Function.Basic
import ChainPlanner.Proofs.Chain.Rewire

/-!
# ChainPlanner.Proofs.Chain.Edits

What linking and unlinking do to an arranged solution.  Each keeps it arranged, for the
lists with the task put in or taken out, and leaves everything beside links and times as it was:

* `Arranged.linkAfter` — a task that is linked goes right behind the position;
* `Arranged.exists_linkAfter` — a task in no chain can be linked anywhere in a worker's chain;
* `Arranged.exists_unlink` — a task that is there can always be taken out.
-/

namespace ChainPlanner.Solution

variable {s s' : Solution} {lists : UserId → List TaskId} {u v : UserId} {p : Anchor}
  {id x : TaskId} {t : Task} {m : Option TaskId} {xs ys : List TaskId}

/-! ## positions -/

/-- A position of a worker's chain: the worker itself or a task in the list. -/
def IsPosition (lists : UserId → List TaskId) (p : Anchor) (u : UserId) : Prop :=
  .user u = p ∨ ∃ y ∈ lists u, .task y = p

/-- A position is in one worker's chain. -/
theorem Chained.position_unique (h : s.Chained lists) (hu : IsPosition lists p u)
    (hv : IsPosition lists p v) : u = v := by
  rcases hu with rfl | ⟨y, hy, rfl⟩
  · rcases hv with hv | ⟨z, -, hz⟩
    · cases hv
      rfl
    · cases hz
  · rcases hv with hv | ⟨z, hz, hzy⟩
    · cases hv
    · cases hzy
      exact h.eq_of_mem hy hz

/-- A task that goes behind a position of one worker's chain goes into no other chain. -/
theorem Chained.insertBehind_of_ne (h : s.Chained lists) (hp : IsPosition lists p u) (hv : v ≠ u) :
    insertBehind p id (.user v) (lists v) = lists v := by
  have hno : ¬IsPosition lists p v := fun hpv => hv (h.position_unique hpv hp)
  rw [IsPosition, not_or, not_exists] at hno
  exact insertBehind_of_not_mem hno.1 fun x hx he => hno.2 x ⟨hx, he⟩

/-- A task that is a position of a chain is listed. -/
theorem IsPosition.mem_of_task (hp : IsPosition lists (.task x) u) : x ∈ lists u := by
  rcases hp with hp | ⟨y, hy, hyx⟩
  · cases hp
  · cases hyx
    exact hy

/-- What is linked after a position of a chain is in that chain. -/
theorem Chained.mem_of_successor? (h : s.Chained lists) (hp : IsPosition lists p u)
    (hx : s.successor? p = some x) : x ∈ lists u := by
  refine ((h.joined u).successor?_of_position ?_ hx).1
  rcases hp with rfl | ⟨y, hy, rfl⟩
  · exact .inl rfl
  · exact .inr (List.mem_map_of_mem hy)

/-- What a listed task is linked after is a position of the same chain. -/
theorem Chained.isPosition_of_mem (h : s.Chained lists) (hx : x ∈ lists u)
    (hp : s.predecessor? x = some p) : IsPosition lists p u :=
  (h.position_of_mem hx hp).imp_left Eq.symm

/-- A position of somebody's chain is there. -/
theorem Chained.missing?_eq_none (h : s.Chained lists) (hp : IsPosition lists p u)
    (hne : ∀ v, p = .user v → lists v ≠ []) : s.missing? p = none := by
  cases p with
  | user v =>
    have hv : s.containsUser v = true := by
      by_contra hv
      exact hne v rfl (h.list_of_absent (containsUser_eq_false.1 (Bool.eq_false_iff.2 hv)))
    rw [missing?, if_pos hv]
  | task y =>
    rw [missing?, if_pos (containsTask_iff.2 (h.mem_tasks hp.mem_of_task))]

/-- The end of the first part of a list is not in the second part. -/
theorem lastPosition_ne_task (hnd : (xs ++ ys).Nodup) (hx : x ∈ ys) :
    lastPosition (.user u) xs ≠ .task x := by
  induction xs using List.reverseRecOn with
  | nil =>
    intro he
    cases he
  | append_singleton xs y _ =>
    rw [lastPosition_concat]
    intro he
    cases he
    exact (List.nodup_append.1 hnd).2.2 x (by simp) x hx rfl

/-! ## bringing the times up to date -/

/-- The first tasks of a chain have their times whatever comes after them. -/
theorem Arranged.timed_prefix (h : s.Arranged lists) (hsplit : lists u = xs ++ ys) :
    s.Timed (.user u) xs := by
  have htimed := h.timed u
  rw [hsplit, timed_append] at htimed
  exact htimed.1

/-- A chain that is timed as far as a position becomes timed behind it as well. -/
theorem Chained.arranged_retimeFrom (h : s.Chained lists) (hsplit : lists u = xs ++ ys)
    (hbefore : s.Timed (.user u) xs) (hother : ∀ v, v ≠ u → s.Timed (.user v) (lists v))
    (hm : m = s.successor? (lastPosition (.user u) xs)) :
    (s.retimeFrom s.tasks.size m).Arranged lists := by
  subst hm
  have hu := untimed_retimeFrom s s.tasks.size (s.successor? (lastPosition (.user u) xs))
  have hnd : (xs ++ ys).Nodup := hsplit ▸ h.nodup u
  have hlen : ys.length ≤ s.tasks.size := by
    have := h.length_le u
    rw [hsplit, List.length_append] at this
    omega
  have hwalk : s.Joined (lastPosition (.user u) xs) ys := by
    have := h.joined u
    rw [hsplit] at this
    exact this.append_right
  obtain ⟨htimed, hframe⟩ := hwalk.timed_retimeFrom (List.nodup_append.1 hnd).2.1
    (fun x hx => lastPosition_ne_task hnd hx) hlen
  have hys : ∀ {x}, x ∈ ys → x ∈ lists u := fun hmem => hsplit ▸ List.mem_append_right xs hmem
  exact
    { keyed := h.keyed.of_bare (bare_of_untimed hu)
      joined := fun v => (h.joined v).of_untimed hu
      nodup := h.nodup
      disjoint := h.disjoint
      free := fun {x t} ht hx => h.free ((hframe x fun hmem => hx u (hys hmem)).symm.trans ht) hx
      timed := by
        intro v
        by_cases hv : v = u
        · subst hv
          have hkept : ∀ x ∈ xs, x ∉ ys := fun x hx hmem =>
            (List.nodup_append.1 hnd).2.2 x hx x hmem rfl
          rw [hsplit, timed_append]
          exact ⟨hbefore.congr rfl fun x hx => by rw [hframe x (hkept x hx)], htimed⟩
        · have hkept : ∀ x ∈ lists v, x ∉ ys := fun x hx hmem => h.disjoint hv x hx (hys hmem)
          exact (hother v hv).congr rfl fun x hx => by rw [hframe x (hkept x hx)] }

/-! ## linking -/

/-- When a task can be linked after a position, and what comes after that now. -/
theorem nextOf_eq_ok_iff : s.nextOf p = .ok m ↔
    s.missing? p = none ∧ s.successor? p = m ∧ ∀ y, p = .task y → s.predecessor? y ≠ none := by
  cases p with
  | user u =>
    cases hu : s.user? u with
    | none => simp [nextOf, hu, missing?, containsUser_eq_false.2 hu]
    | some w => simp [nextOf, hu, missing?, containsUser_iff.2 ⟨w, hu⟩, successor?]
  | task y =>
    cases hy : s.task? y with
    | none => simp [nextOf, hy, missing?, containsTask_eq_false.2 hy]
    | some t =>
      cases hprev : t.previous with
      | none => simp [nextOf, hy, hprev, predecessor?]
      | some q =>
        simp [nextOf, hy, hprev, predecessor?, missing?, containsTask_iff.2 ⟨t, hy⟩, successor?]

/-- A task with new links. -/
def linkedTo (p : Anchor) (m : Option TaskId) (t : Task) : Task :=
  { t with previous := some p, next := m }

/-- When a task can be linked after a position, and what becomes of the solution. -/
theorem linkAfter_eq_ok_iff : s.linkAfter p id = .ok s' ↔
    p ≠ .task id ∧ ∃ t, s.task? id = some t ∧ t.previous = none ∧ t.next = none ∧
      s.nextOf p = .ok (s.successor? p) ∧
      s' = (s.rewire id (linkedTo p (s.successor? p)) p (some id) (s.successor? p)
        (.task id)).retime id := by
  unfold linkAfter
  by_cases hp : p = .task id
  · simp [hp]
  rw [if_neg hp]
  cases ht : s.task? id with
  | none => simp
  | some t =>
    by_cases hlinked : t.previous.isSome || t.next.isSome
    · simp only [hlinked, ↓reduceIte, reduceCtorEq, Option.some.injEq, exists_eq_left', false_iff]
      rintro ⟨-, hprev, hnext, -⟩
      simp [hprev, hnext] at hlinked
    · have hfree : t.previous = none ∧ t.next = none := by simpa using hlinked
      simp only [Option.some.injEq, exists_eq_left', hfree.1, hfree.2, true_and]
      cases hnext : s.nextOf p with
      | error e => simp
      | ok m =>
        obtain ⟨-, hm, -⟩ := nextOf_eq_ok_iff.1 hnext
        simp only [Option.isSome_none, Bool.or_self, Bool.false_eq_true, ↓reduceIte,
          Except.ok.injEq, hm, true_and, hp, ne_eq, not_false_eq_true]
        exact eq_comm

/-- A task can be linked after positions of chains only. -/
theorem Chained.exists_isPosition (h : s.Chained lists) (hnext : s.nextOf p = .ok m) :
    ∃ u, IsPosition lists p u := by
  obtain ⟨-, -, hlinked⟩ := nextOf_eq_ok_iff.1 hnext
  cases p with
  | user u => exact ⟨u, .inl rfl⟩
  | task y =>
    obtain ⟨q, hq⟩ := Option.ne_none_iff_exists'.1 (hlinked y rfl)
    obtain ⟨u, hu⟩ := h.mem_of_predecessor? hq
    exact ⟨u, .inr ⟨y, hu, rfl⟩⟩

/-- Writing the links of a task between a position and what comes after it is an insertion. -/
theorem Chained.insertion (h : s.Chained lists) (ht : s.task? id = some t)
    (hprev : t.previous = none) (hp : p ≠ .task id) (hmiss : s.missing? p = none) :
    Insertion s (s.rewire id (linkedTo p (s.successor? p)) p (some id) (s.successor? p) (.task id))
      p id := by
  have hid : s.successor? p ≠ some id := fun he => by
    rw [h.bothWays, predecessor?, ht, Option.bind_some, hprev] at he
    cases he
  exact
    { successor_position := successor?_rewire_position hmiss
      successor_task := successor?_rewire_task ht hp
      successor_other := fun c hc hcid => successor?_rewire_other hc hcid
      predecessor_task := predecessor?_rewire_task ht hid
      predecessor_next := fun x hx => by
        obtain ⟨w, hw, -⟩ := task?_of_predecessor? ((h.bothWays p x).1 hx)
        rw [hx]
        exact predecessor?_rewire_next ⟨w, hw⟩
      predecessor_other := fun x hx hne => predecessor?_rewire_other hx hne }

/-- Links with a task put in are those of the lists with the task put in. -/
theorem Chained.insert (h : s.Chained lists) (hins : Insertion s s' p id)
    (hbare : s'.bare = s.bare) (hid : ∀ u, id ∉ lists u) (hpos : IsPosition lists p u)
    (hframe : ∀ x, x ≠ id → p ≠ .task x → s.successor? p ≠ some x → s'.task? x = s.task? x) :
    s'.Chained fun v => insertBehind p id (.user v) (lists v) where
  keyed := h.keyed.of_bare hbare
  joined v := (h.joined v).insert hins h.bothWays (by simp) (hid v) (by simp) (h.nodup v)
  nodup v := nodup_insertBehind (h.nodup v) (hid v)
  disjoint {v w} hvw x hv hw := by
    rw [mem_insertBehind] at hv hw
    rcases hv with hv | ⟨rfl, hv⟩
    · rcases hw with hw | ⟨rfl, -⟩
      · exact h.disjoint hvw x hv hw
      · exact hid v hv
    · rcases hw with hw | ⟨-, hw⟩
      · exact hid w hw
      · exact hvw (h.position_unique hv hw)
  free {x t} ht hx := by
    have hold : ∀ v, x ∉ lists v := fun v hv => hx v (mem_insertBehind.2 (.inl hv))
    have hxid : x ≠ id := fun he => hx u (mem_insertBehind.2 (.inr ⟨he, hpos⟩))
    refine h.free ((hframe x hxid (fun he => ?_) fun he => ?_).symm.trans ht) hold
    · exact hold u (he ▸ hpos).mem_of_task
    · exact hold u (h.mem_of_successor? hpos he)

/-- Linking keeps a solution arranged: the task goes right behind the position. -/
theorem Arranged.linkAfter (h : s.Arranged lists) (hs : s.linkAfter p id = .ok s') :
    s'.Arranged (fun v => insertBehind p id (.user v) (lists v)) ∧ s'.bare = s.bare := by
  obtain ⟨hp, t, ht, hprev, -, hnext, rfl⟩ := linkAfter_eq_ok_iff.1 hs
  obtain ⟨hmiss, -⟩ := nextOf_eq_ok_iff.1 hnext
  obtain ⟨u, hpos⟩ := h.toChained.exists_isPosition hnext
  have hid : ∀ v, id ∉ lists v := fun v => h.not_mem_of_previous ht hprev
  -- the links first: the solution is chained again, and timed as far as the position
  obtain ⟨s₁, hs₁⟩ : ∃ s₁, s₁ = s.rewire id (linkedTo p (s.successor? p)) p (some id)
    (s.successor? p) (.task id) := ⟨_, rfl⟩
  have hins : Insertion s s₁ p id := hs₁ ▸ h.toChained.insertion ht hprev hp hmiss
  have hbare : s₁.bare = s.bare := hs₁ ▸ bare_rewire s id p _ _ _ fun _ => rfl
  have htiming : ∀ x, x ≠ id → (s₁.task? x).map timing = (s.task? x).map timing := fun x hx =>
    hs₁ ▸ map_task?_rewire hx (fun _ => rfl) fun _ => rfl
  have hchained := h.toChained.insert hins hbare hid hpos fun x hx hpx hsx =>
    hs₁ ▸ task?_rewire_of_ne hx hpx hsx
  obtain ⟨xs, ys, hsplit, hlast, hput⟩ := exists_insertBehind_eq hpos
  have hxs : id ∉ xs := fun hmem => hid u (hsplit ▸ List.mem_append_left ys hmem)
  have hbefore : s₁.Timed (.user u) xs := (h.timed_prefix hsplit).congr_of_not_mem hxs htiming
  have hother : ∀ v, v ≠ u → s₁.Timed (.user v) (insertBehind p id (.user v) (lists v)) := by
    intro v hv
    rw [h.insertBehind_of_ne hpos hv]
    exact (h.timed v).congr_of_not_mem (hid v) htiming
  have hcursor : some id = s₁.successor? (lastPosition (.user u) xs) := by
    rw [hlast, hins.successor_position]
  have hretimed : (s₁.retime id).bare = s.bare := by
    rw [← hbare]
    exact bare_of_untimed (untimed_retimeFrom s₁ _ _)
  rw [← hs₁]
  exact ⟨hchained.arranged_retimeFrom hput hbefore hother hcursor, hretimed⟩

/-- The end of the first part of a list is a position of its chain. -/
theorem isPosition_lastPosition (hsplit : lists u = xs ++ ys) :
    IsPosition lists (lastPosition (.user u) xs) u := by
  cases xs using List.reverseRecOn with
  | nil => exact .inl rfl
  | append_singleton xs y =>
    rw [lastPosition_concat]
    exact .inr ⟨y, by simp [hsplit], rfl⟩

/-- Putting a task behind a position is putting it into one of the lists. -/
theorem Chained.insertBehind_eq (h : s.Chained lists) (hsplit : lists u = xs ++ ys) :
    (fun v => insertBehind (lastPosition (.user u) xs) id (.user v) (lists v)) =
      Function.update lists u (xs ++ id :: ys) := by
  have hpos := isPosition_lastPosition hsplit
  funext v
  by_cases hv : v = u
  · subst hv
    rw [Function.update_self, hsplit]
    have hnd := h.nodup v
    rw [hsplit] at hnd
    cases xs using List.reverseRecOn with
    | nil => exact insertBehind_self _ _ _
    | append_singleton xs y =>
      have hy : y ∉ xs := fun hmem =>
        (List.nodup_append.1 (List.nodup_append.1 hnd).1).2.2 y hmem y (by simp) rfl
      rw [lastPosition_concat, List.append_assoc, List.singleton_append, insertBehind_append hy]
      simp
  · rw [Function.update_of_ne hv]
    exact h.insertBehind_of_ne hpos hv

/-- A task in no chain can be linked behind any part of any worker's chain. -/
theorem Arranged.exists_linkAfter (h : s.Arranged lists) (hu : s.containsUser u = true)
    (hsplit : lists u = xs ++ ys) (ht : s.task? id = some t) (hid : ∀ v, id ∉ lists v) :
    ∃ s', s.linkAfter (lastPosition (.user u) xs) id = .ok s' ∧
      s'.Arranged (Function.update lists u (xs ++ id :: ys)) ∧ s'.bare = s.bare := by
  have hpos : IsPosition lists (lastPosition (.user u) xs) u := isPosition_lastPosition hsplit
  have hne : lastPosition (.user u) xs ≠ .task id := fun he => hid u (he ▸ hpos).mem_of_task
  have hmiss : s.missing? (lastPosition (.user u) xs) = none := by
    cases xs using List.reverseRecOn with
    | nil => exact if_pos hu
    | append_singleton xs y =>
      rw [lastPosition_concat] at hpos ⊢
      exact if_pos (containsTask_iff.2 (h.mem_tasks hpos.mem_of_task))
  have hlinked : ∀ y, lastPosition (.user u) xs = .task y → s.predecessor? y ≠ none := by
    intro y hy
    obtain ⟨c, hc, -⟩ := (h.joined u).predecessor?_of_mem (hy ▸ hpos).mem_of_task
    rw [hc]
    exact Option.some_ne_none c
  have hbare := h.free ht hid
  have hok := linkAfter_eq_ok_iff.2 ⟨hne, t, ht, (congrArg Task.previous hbare).symm,
    (congrArg Task.next hbare).symm, nextOf_eq_ok_iff.2 ⟨hmiss, rfl, hlinked⟩, rfl⟩
  have hlink := h.linkAfter hok
  rw [h.insertBehind_eq hsplit] at hlink
  exact ⟨_, hok, hlink⟩

/-! ## unlinking -/

/-- A task that is not there cannot be taken out. -/
theorem unlink_of_task?_eq_none (hx : s.task? id = none) :
    unlink id s = (.error (.unknownTask id), s) := by
  simp [unlink, hx]

/-- Taking out a task in no chain changes nothing. -/
theorem unlink_of_previous_eq_none (ht : s.task? id = some t) (hprev : t.previous = none) :
    unlink id s = (.ok none, s) := by
  simp [unlink, ht, hprev]

/-- Taking a task out links its neighbours and brings the times behind it up to date. -/
theorem unlink_of_previous_eq_some (ht : s.task? id = some t) (hprev : t.previous = some p)
    (hmiss : s.missing? p = none) :
    unlink id s = (.ok (some p), (s.rewire id Task.detached p t.next t.next p).retimeFrom
      (s.rewire id Task.detached p t.next t.next p).tasks.size t.next) := by
  simp only [unlink, ht, hprev, missing?_modifyTask, hmiss]
  rfl

/-- Linking the neighbours of a task with each other is a removal. -/
theorem Chained.removal (h : s.Chained lists) (ht : s.task? id = some t)
    (hmiss : s.missing? p = none) :
    Removal s (s.rewire id Task.detached p t.next t.next p) p id := by
  have hnext : t.next = s.successor? (.task id) := by rw [successor?, ht, Option.bind_some]
  exact
    { successor_position := (successor?_rewire_position hmiss).trans hnext
      successor_other := fun c hc hcid => successor?_rewire_other hc hcid
      predecessor_next := fun x hx => by
        obtain ⟨w, hw, -⟩ := task?_of_predecessor? ((h.bothWays _ x).1 hx)
        rw [hnext, hx]
        exact predecessor?_rewire_next ⟨w, hw⟩
      predecessor_other := fun x hx hne => predecessor?_rewire_other hx (hnext ▸ hne) }

/-- Links with a task taken out are those of the lists with the task taken out. -/
theorem Chained.erase (h : s.Chained lists) (hrem : Removal s s' p id) (hbare : s'.bare = s.bare)
    (hprev : s.predecessor? id = some p) (hu : id ∈ lists u)
    (hid : ∀ t, s'.task? id = some t → t.detached = t)
    (hframe : ∀ x, x ≠ id → p ≠ .task x → s.successor? (.task id) ≠ some x →
      s'.task? x = s.task? x) :
    s'.Chained fun v => (lists v).erase id where
  keyed := h.keyed.of_bare hbare
  joined v := (h.joined v).erase hrem h.bothWays hprev (by simp) (by simp) (h.nodup v)
  nodup v := (h.nodup v).erase id
  disjoint hvw x hv hw := h.disjoint hvw x (List.mem_of_mem_erase hv) (List.mem_of_mem_erase hw)
  free {x t} ht hx := by
    by_cases hxid : x = id
    · exact hid t (hxid ▸ ht)
    · have hold : ∀ v, x ∉ lists v := fun v hv => hx v ((List.mem_erase_of_ne hxid).2 hv)
      refine h.free ((hframe x hxid (fun he => ?_) fun he => ?_).symm.trans ht) hold
      · exact hold u (he ▸ h.isPosition_of_mem hu hprev).mem_of_task
      · exact hold u (h.mem_of_successor? (.inr ⟨id, hu, rfl⟩) he)

/-- Lists without a task stay as they are when it is erased. -/
theorem erase_eq_of_forall_not_mem (hid : ∀ u, id ∉ lists u) :
    (fun u => (lists u).erase id) = lists :=
  funext fun u => List.erase_of_not_mem (hid u)

/-- A linked task stands in somebody's chain, behind the position that it is linked after. -/
theorem Chained.exists_split (h : s.Chained lists) (hprev : s.predecessor? id = some p) :
    ∃ u xs ys, lists u = xs ++ id :: ys ∧ id ∉ xs ∧ lastPosition (.user u) xs = p ∧
      IsPosition lists p u := by
  obtain ⟨u, hu⟩ := h.mem_of_predecessor? hprev
  obtain ⟨xs, ys, hsplit⟩ := List.append_of_mem hu
  have hnd : (xs ++ id :: ys).Nodup := hsplit ▸ h.nodup u
  have hwalk : s.Joined (.user u) (xs ++ id :: ys) := hsplit ▸ h.joined u
  have hxs : id ∉ xs := fun hmem => (List.nodup_append.1 hnd).2.2 id hmem id List.mem_cons_self rfl
  have hlast : lastPosition (.user u) xs = p := by
    have hback := hwalk.append_right.2.1
    rw [hprev, Option.some.injEq] at hback
    exact hback.symm
  exact ⟨u, xs, ys, hsplit, hxs, hlast, h.isPosition_of_mem hu hprev⟩

/-- A task that is taken out keeps no link and no time. -/
theorem Chained.task?_rewire_detached (h : s.Chained lists) (ht : s.task? id = some t)
    (hprev : s.predecessor? id = some p) (hp : p ≠ .task id) :
    (s.rewire id Task.detached p t.next t.next p).task? id = some t.detached := by
  have hne : t.next ≠ some id := by
    intro he
    have hnext : s.successor? (.task id) = some id := by rw [successor?, ht, Option.bind_some, he]
    rw [h.bothWays, hprev, Option.some.injEq] at hnext
    exact hp hnext
  rw [rewire, task?_setPrevious_of_ne hne, task?_setNext_of_ne hp, task?_modifyTask_self ht]

/-- A linked task can be taken out, and the solution stays arranged. -/
theorem Arranged.exists_unlink_of_linked (h : s.Arranged lists) (ht : s.task? id = some t)
    (hprev : t.previous = some p) :
    ∃ s', unlink id s = (.ok (some p), s') ∧ s'.Arranged (fun v => (lists v).erase id) ∧
      s'.bare = s.bare := by
  have hpred : s.predecessor? id = some p := by rw [predecessor?, ht, Option.bind_some, hprev]
  have hnext : t.next = s.successor? (.task id) := by rw [successor?, ht, Option.bind_some]
  obtain ⟨u, xs, ys, hsplit, hxs, hlast, hpos⟩ := h.exists_split hpred
  have hu : id ∈ lists u := by simp [hsplit]
  have hp : p ≠ .task id := hlast ▸ lastPosition_ne_task (hsplit ▸ h.nodup u) List.mem_cons_self
  have hmiss : s.missing? p = none := by
    apply h.missing?_eq_none hpos
    intro v hv he
    obtain rfl : u = v := h.position_unique hpos (.inl hv.symm)
    simp [he] at hu
  -- the links first: the solution is chained again, and timed as far as the former position
  obtain ⟨s₁, hs₁⟩ : ∃ s₁, s₁ = s.rewire id Task.detached p t.next t.next p := ⟨_, rfl⟩
  have hrem : Removal s s₁ p id := hs₁ ▸ h.removal ht hmiss
  have hbare : s₁.bare = s.bare := hs₁ ▸ bare_rewire s id p _ _ _ fun _ => rfl
  have htiming : ∀ x, x ≠ id → (s₁.task? x).map timing = (s.task? x).map timing := fun x hx =>
    hs₁ ▸ map_task?_rewire hx (fun _ => rfl) fun _ => rfl
  have hself : s₁.task? id = some t.detached := hs₁ ▸ h.task?_rewire_detached ht hpred hp
  have hfree : ∀ w, s₁.task? id = some w → w.detached = w := by
    intro w hw
    rw [hself, Option.some.injEq] at hw
    rw [← hw]
    rfl
  have hchained := h.toChained.erase hrem hbare hpred hu hfree fun x hx hpx hsx =>
    hs₁ ▸ task?_rewire_of_ne hx hpx (hnext ▸ hsx)
  have htaken : (lists u).erase id = xs ++ ys := by
    rw [hsplit, List.erase_append_right _ hxs, List.erase_cons_head]
  have hbefore : s₁.Timed (.user u) xs := (h.timed_prefix hsplit).congr_of_not_mem hxs htiming
  have hother : ∀ v, v ≠ u → s₁.Timed (.user v) ((lists v).erase id) := by
    intro v hv
    have hidv : id ∉ lists v := fun hmem => hv (h.eq_of_mem hmem hu)
    rw [List.erase_of_not_mem hidv]
    exact (h.timed v).congr_of_not_mem hidv htiming
  have hcursor : t.next = s₁.successor? (lastPosition (.user u) xs) := by
    rw [hlast, hrem.successor_position, hnext]
  have hretimed : (s₁.retimeFrom s₁.tasks.size t.next).bare = s.bare := by
    rw [← hbare]
    exact bare_of_untimed (untimed_retimeFrom s₁ _ _)
  rw [unlink_of_previous_eq_some ht hprev hmiss, ← hs₁]
  exact ⟨_, rfl, hchained.arranged_retimeFrom htaken hbefore hother hcursor, hretimed⟩

/-- A task that is there can be taken out, and the solution stays arranged. -/
theorem Arranged.exists_unlink (h : s.Arranged lists) (ht : s.task? id = some t) :
    ∃ s', unlink id s = (.ok t.previous, s') ∧ s'.Arranged (fun v => (lists v).erase id) ∧
      s'.bare = s.bare := by
  cases hprev : t.previous with
  | none =>
    have hid : ∀ v, id ∉ lists v := fun v => h.not_mem_of_previous ht hprev
    rw [erase_eq_of_forall_not_mem hid]
    exact ⟨s, unlink_of_previous_eq_none ht hprev, h, rfl⟩
  | some p => exact h.exists_unlink_of_linked ht hprev

end ChainPlanner.Solution
