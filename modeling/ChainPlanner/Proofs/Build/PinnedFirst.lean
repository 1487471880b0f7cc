import Mathlib.Data.List.TakeWhile
import ChainPlanner.Proofs.Build.Built
import ChainPlanner.Proofs.Placement.Rule
import ChainPlanner.Proofs.Publishing.Quiet
import ChainPlanner.Proofs.Replay.Simulation

/-!
# ChainPlanner.Proofs.Build.PinnedFirst

The shape that a build gives the chains and that the optimizer keeps: in every chain the pinned
tasks come first, and the placeholder is the first of all in the chain of the fallback user.

No operation checks this shape.  `Roster.PinnedFirst` is kept because a build sorts pinned slots to
the front, an assignment puts its task right behind the leading pinned ones, and what is placed goes
to the end and is unpinned.  The last needs that no loose task is pinned, which is `Roster.Tidy`.
Each edit that a change is made of keeps `PinnedFirst`, as long as it is not about the
placeholder.
-/

namespace ChainPlanner

namespace Roster

/-- Pinned tasks come first, and the pinned placeholder first of all. -/
structure PinnedFirst (r : Roster) : Prop where
  first : ∀ u, (r.lists u).Pairwise fun x y => r.isPinned y = true → r.isPinned x = true
  head : (r.lists .fallback).head? = some .placeholder
  pinned : r.isPinned .placeholder = true
  fallback : r.users.contains .fallback = true

variable {r w : Roster} {u v : UserId} {id x : TaskId} {t : Task} {b : Bool}

/-! ## lists with the pinned tasks in front -/

section Front

variable {α : Type} {P Q : α → Bool} {a : α} {l : List α}

/-- Only who is pinned among the listed matters. -/
theorem pairwise_front_congr (h : l.Pairwise fun x y => P y = true → P x = true)
    (hPQ : ∀ x ∈ l, Q x = P x) : l.Pairwise fun x y => Q y = true → Q x = true :=
  h.imp_of_mem fun hx hy hxy => by rwa [hPQ _ hx, hPQ _ hy]

/-- Behind the leading run nothing is pinned. -/
theorem eq_false_of_mem_dropWhile (h : l.Pairwise fun x y => P y = true → P x = true) :
    ∀ x ∈ l.dropWhile P, P x = false := by
  induction l with
  | nil => simp
  | cons b l ih =>
    have hl := List.pairwise_cons.1 h
    cases hb : P b with
    | true => simpa [hb] using ih hl.2
    | false =>
      simp only [List.dropWhile_cons, hb, Bool.false_eq_true, if_false, List.forall_mem_cons]
      exact ⟨trivial, fun x hx => Bool.eq_false_iff.2 fun hP => by simp [hl.1 x hx hP] at hb⟩

/-- A pinned item right behind the leading run. -/
theorem pairwise_front_insert (h : l.Pairwise fun x y => P y = true → P x = true)
    (hPQ : ∀ x ∈ l, Q x = P x) (ha : Q a = true) :
    (l.takeWhile P ++ a :: l.dropWhile P).Pairwise fun x y => Q y = true → Q x = true := by
  have hrun : ∀ x ∈ l.takeWhile P, Q x = true := fun x hx => by
    rw [hPQ x ((List.takeWhile_sublist P).subset hx)]
    exact List.mem_takeWhile_imp hx
  have hrest : ∀ x ∈ l.dropWhile P, Q x = false := fun x hx => by
    rw [hPQ x ((List.dropWhile_sublist P).subset hx)]
    exact eq_false_of_mem_dropWhile h x hx
  have hfront := pairwise_front_congr h hPQ
  rw [List.pairwise_append, List.pairwise_cons]
  exact ⟨hfront.sublist (List.takeWhile_sublist P),
    ⟨fun _ _ _ => ha, hfront.sublist (List.dropWhile_sublist P)⟩, fun x hx _ _ _ => hrun x hx⟩

end Front

/-! ## edits of a roster with the pinned tasks first -/

namespace PinnedFirst

/-- A new task is in no list. -/
theorem add (h : r.PinnedFirst) (hid : r.Loose t.id) (hreal : t.id ≠ .placeholder) :
    (r.add t).PinnedFirst where
  first u := pairwise_front_congr (h.first u) fun _ hx =>
    isPinned_add_of_ne r fun he => hid u (he ▸ hx)
  head := h.head
  pinned := (isPinned_add_of_ne r (Ne.symm hreal)).trans h.pinned
  fallback := h.fallback

/-- Unpinned tasks leave their list, pinned ones in front stay in front. -/
theorem take (h : r.PinnedFirst) (hreal : id ≠ .placeholder) : (r.take id).PinnedFirst where
  first u := (h.first u).sublist List.erase_sublist
  head := by
    have hhead := h.head
    rw [lists_take]
    cases hl : r.lists .fallback with
    | nil => simp [hl] at hhead
    | cons y ys =>
      rw [hl, List.head?_cons, Option.some.injEq] at hhead
      rw [hhead, List.erase_cons_tail (by simpa using Ne.symm hreal)]
      rfl
  pinned := h.pinned
  fallback := h.fallback

/-- Pinning or unpinning a task in no list. -/
theorem pin (h : r.PinnedFirst) (hid : r.Loose id) (hreal : id ≠ .placeholder) (b : Bool) :
    (r.pin id b).PinnedFirst where
  first u := pairwise_front_congr (h.first u) fun _ hx =>
    isPinned_pin_of_ne r b fun he => hid u (he ▸ hx)
  head := h.head
  pinned := (isPinned_pin_of_ne r b (Ne.symm hreal)).trans h.pinned
  fallback := h.fallback

/-- A task that leaves its list leaves the others in their order. -/
theorem drop (h : r.PinnedFirst) (hnd : ∀ u, (r.lists u).Nodup) (hreal : id ≠ .placeholder) :
    (r.drop id).PinnedFirst where
  first u := pairwise_front_congr ((h.take hreal).first u) fun _ hx =>
    isPinned_drop_of_ne r fun he => (hnd u).not_mem_erase (he ▸ hx)
  head := (h.take hreal).head
  pinned := (isPinned_drop_of_ne r (Ne.symm hreal)).trans h.pinned
  fallback := h.fallback

/-- A released task leaves its list and is unpinned. -/
theorem release (h : r.PinnedFirst) (hnd : ∀ u, (r.lists u).Nodup) (hreal : id ≠ .placeholder) :
    (r.release id).PinnedFirst :=
  (h.take hreal).pin (fun u => (hnd u).not_mem_erase) hreal false

/-- A loose task is pinned right behind the leading pinned ones. -/
theorem pinBehindPinned (h : r.PinnedFirst) (hid : r.Loose id) (hthere : r.tasks.contains id = true)
    (hreal : id ≠ .placeholder) (u : UserId) :
    ((r.putBehindPinned u id).pin id true).PinnedFirst where
  first v := by
    have hpinned : ((r.putBehindPinned u id).pin id true).isPinned id = true := by
      rw [isPinned_pin_self, Bool.and_true]
      exact hthere
    have hother : ∀ v, ∀ x ∈ r.lists v,
        ((r.putBehindPinned u id).pin id true).isPinned x = r.isPinned x := fun v x hx =>
      isPinned_pin_of_ne (r.putBehindPinned u id) true fun he => hid v (he ▸ hx)
    show ((r.putBehindPinned u id).lists v).Pairwise _
    by_cases hv : v = u
    · subst hv
      rw [lists_putBehindPinned_self]
      exact pairwise_front_insert (h.first v) (hother v) hpinned
    · rw [lists_putBehindPinned_of_ne r id hv]
      exact pairwise_front_congr (h.first v) (hother v)
  head := by
    have hhead := h.head
    show ((r.putBehindPinned u id).lists .fallback).head? = _
    by_cases hu : UserId.fallback = u
    · subst hu
      rw [lists_putBehindPinned_self]
      cases hl : r.lists .fallback with
      | nil => simp [hl] at hhead
      | cons y ys =>
        rw [hl, List.head?_cons, Option.some.injEq] at hhead
        subst hhead
        simp [h.pinned]
    · rw [lists_putBehindPinned_of_ne r id hu, hhead]
  pinned := (isPinned_pin_of_ne (r.putBehindPinned u id) true (Ne.symm hreal)).trans h.pinned
  fallback := h.fallback

/-- An assigned task is pinned and goes right behind the pinned ones. -/
theorem assign (h : r.PinnedFirst) (hnd : ∀ u, (r.lists u).Nodup)
    (hthere : ∀ u, ∀ x ∈ r.lists u, r.tasks.contains x = true) (hreal : t.id ≠ .placeholder)
    (u : UserId) : (r.assign t u).PinnedFirst := by
  rw [Roster.assign]
  split
  · next hyes =>
    exact (h.take hreal).pinBehindPinned (fun v => (hnd v).not_mem_erase) hyes hreal u
  · next hno =>
    have hid : r.Loose t.id := fun v hv => hno (hthere v t.id hv)
    have hadded : (r.add t).tasks.contains t.id = true := by
      simp [Roster.add, KeyedList.contains, KeyedList.get?_insert]
    exact (h.add hid hreal).pinBehindPinned hid hadded hreal u

/-- Loose unpinned tasks at the ends of lists. -/
theorem of_trails (h : r.PinnedFirst) (htrails : r.Trails w) : w.PinnedFirst where
  first u := by
    obtain ⟨extra, hw, hextra⟩ := htrails.lists u
    have hunpinned : ∀ y ∈ extra, r.isPinned y ≠ true := fun y hy => by simp [(hextra y hy).2]
    have hbehind : extra.Pairwise fun x y => r.isPinned y = true → r.isPinned x = true :=
      List.pairwise_of_forall_mem_list fun _ _ y hy hP => absurd hP (hunpinned y hy)
    rw [htrails.isPinned_eq, hw, List.pairwise_append]
    exact ⟨h.first u, hbehind, fun _ _ y hy hP => absurd hP (hunpinned y hy)⟩
  head := by
    obtain ⟨extra, hw, -⟩ := htrails.lists .fallback
    rw [hw, List.head?_append, h.head]
    rfl
  pinned := by
    rw [htrails.isPinned_eq]
    exact h.pinned
  fallback := by
    rw [htrails.users]
    exact h.fallback

end PinnedFirst

end Roster

namespace Solution

variable {s s' : Solution} {lists : UserId → List TaskId} {m : Mutation} {x : TaskId}

/-- A solution with chains as a build leaves them. -/
structure AsBuilt (s : Solution) : Prop where
  arranged : s.Arranged s.chainIds
  tidy : s.roster.Tidy
  pinnedFirst : s.roster.PinnedFirst

/-- Such a solution is ahead of itself. -/
theorem AsBuilt.ahead (h : s.AsBuilt) : s.Ahead s :=
  ⟨h.arranged, h.arranged, .refl s.roster, h.tidy⟩

/-- One change keeps the shape, unless it is about the placeholder or adds a pinned task. -/
theorem AsBuilt.run (h : s.AsBuilt) (hadd : ∀ t, m = .add t → t.pinned = false)
    (hreal : m.taskId ≠ .placeholder) : (m.run s).AsBuilt := by
  obtain ⟨-, hahead⟩ := h.ahead.apply m hadd
  refine ⟨hahead.ahead, hahead.tidy, ?_⟩
  have hnd := h.arranged.nodup_roster
  obtain hsame | ⟨t, rfl, ht, hroster⟩ | ⟨t, u, rfl, hroster⟩ | ⟨id, rfl, hroster⟩ |
    ⟨id, rfl, hroster⟩ := Mutation.roster_run_cases h.arranged m
  · rw [hsame]
    exact h.pinnedFirst
  · rw [hroster]
    exact h.pinnedFirst.add (h.arranged.loose_iff.2 fun u => h.arranged.not_mem_of_absent ht) hreal
  · rw [hroster]
    exact h.pinnedFirst.assign hnd h.arranged.contains_of_mem_roster hreal u
  · rw [hroster]
    exact h.pinnedFirst.drop hnd hreal
  · rw [hroster]
    exact h.pinnedFirst.release hnd hreal

/-- Placing keeps the shape: what is placed is not pinned and goes to the end. -/
theorem AsBuilt.placeUnassigned (h : s.AsBuilt) : s.placeUnassigned.1.AsBuilt := by
  have hahead := h.ahead.placeUnassigned
  have htasks : s.placeUnassigned.1.roster.isPinned = s.roster.isPinned := hahead.trails.isPinned_eq
  refine ⟨hahead.ahead, fun x hx => ?_, h.pinnedFirst.of_trails hahead.trails⟩
  rw [htasks]
  exact h.tidy x (hahead.trails.loose hx)

/-- The shape is kept along every run of changes and placings. -/
theorem AsBuilt.runAll {steps : List WorkStep} (h : s.AsBuilt)
    (hadds : ∀ t, .change (.add t) ∈ steps → t.pinned = false)
    (hreal : ∀ m, .change m ∈ steps → m.taskId ≠ .placeholder) :
    (WorkStep.runAll steps s).AsBuilt := by
  induction steps generalizing s with
  | nil => exact h
  | cons step steps ih =>
    have hstep : (step.run s).AsBuilt := by
      cases step with
      | change m =>
        exact h.run (fun t he => hadds t (he ▸ List.mem_cons_self)) (hreal m List.mem_cons_self)
      | place => exact h.placeUnassigned
    exact ih hstep (fun t ht => hadds t (List.mem_cons_of_mem step ht))
      fun m hm => hreal m (List.mem_cons_of_mem step hm)

/-! ## what the shape says of tasks -/

/-- The roster says who is pinned as the tasks do. -/
theorem isPinned_roster_iff : s.roster.isPinned x = true ↔ (s.standing x).pinned = some true := by
  rw [isPinned_roster, standing]
  cases s.task? x <;> simp

/-- In a chain the pinned tasks come first. -/
theorem AsBuilt.pairwise_chain (h : s.AsBuilt) (u : UserId) :
    (s.chain u).Pairwise fun a b => b.pinned = true → a.pinned = true := by
  rw [h.arranged.chain_eq, List.pairwise_filterMap]
  refine (h.pinnedFirst.first u).imp fun hxy a ha b hb => ?_
  rwa [isPinned_roster, isPinned_roster, ha, hb] at hxy

/-- A task in no chain is not pinned. -/
theorem AsBuilt.pinned_of_mem_unassigned {t : Task} (h : s.AsBuilt) (ht : t ∈ s.unassigned) :
    t.pinned = false := by
  obtain ⟨hmem, hfree⟩ := List.mem_filter.1 ht
  obtain ⟨x, hx⟩ := KeyedList.mem_values_iff.1 hmem
  have hloose : s.roster.Loose x := h.arranged.loose_iff.2 fun u =>
    h.arranged.not_mem_of_previous hx (Option.isNone_iff_eq_none.1 hfree)
  have hpinned := h.tidy x hloose
  rwa [isPinned_roster, show s.task? x = some t from hx] at hpinned

end Solution

namespace Assembly

open Solution Draft

variable {s : Solution} {records : List TaskRecord} {directory : List DirectoryUser}
  {p : PublishedTasks} {u : UserId}

/-- A slot is pinned as its task is. -/
theorem Built.isPinned_slot (h : Built records directory s) (hu : s.containsUser u = true)
    {slot : Slot} (hslot : slot ∈ inOrder (records.filterMap (slot? u))) :
    s.roster.isPinned slot.task.id = slot.pinned := by
  have hstanding := h.standing_slot hu ((inOrder_perm _).mem_iff.1 hslot)
  rw [Bool.eq_iff_iff, isPinned_roster_iff, hstanding, Option.some_inj]

/-- A build always has the fallback user. -/
theorem Built.containsUser_fallback (h : Built records directory s) :
    s.containsUser .fallback = true := (h.users .fallback).2 (.inl rfl)

/-- A build leaves no pinned task in no chain. -/
theorem Built.tidy (h : Built records directory s) : s.roster.Tidy := by
  intro x hx
  rw [Bool.eq_false_iff, ne_eq, isPinned_roster_iff]
  intro hpinned
  have huser : ∀ v, (s.standing x).user ≠ some v := fun v hv =>
    hx v (h.arranged.mem_roster_lists.2 hv)
  rcases h.exists_record (x := x) (by simp [hpinned]) with rfl | ⟨r, hr, hplanned, rfl⟩
  · exact huser .fallback (congrArg Standing.user h.placeholder)
  · obtain hready | ⟨u, hholder⟩ | ⟨hready, hholder⟩ := record_cases r
    · simp [h.ready r hr hready] at hpinned
    · rw [h.held r hr u hholder] at hpinned huser
      split at hpinned
      · next hu => exact huser u (by rw [if_pos hu])
      · simp at hpinned
    · simp [TaskRecord.planned, hready, hholder] at hplanned

/-- A build puts the pinned tasks first. -/
theorem Built.asBuilt (h : Built records directory s) : s.AsBuilt where
  arranged := h.arranged
  tidy := h.tidy
  pinnedFirst := by
    have hpinned : s.roster.isPinned .placeholder = true :=
      isPinned_roster_iff.2 (congrArg Standing.pinned h.placeholder)
    have hslots : ∀ u, s.containsUser u = true →
        ((inOrder (records.filterMap (slot? u))).map (·.task.id)).Pairwise
          fun x y => s.roster.isPinned y = true → s.roster.isPinned x = true := by
      intro u hu
      refine List.pairwise_map.2 ((pairwise_pinned_inOrder _).imp_of_mem fun ha hb hab => ?_)
      rwa [h.isPinned_slot hu ha, h.isPinned_slot hu hb]
    refine ⟨fun u => ?_, ?_, hpinned, ?_⟩
    · rw [lists_roster, h.chains]
      by_cases hfallback : u = .fallback
      · rw [if_pos hfallback, if_pos (hfallback ▸ h.containsUser_fallback)]
        exact (hslots u (hfallback ▸ h.containsUser_fallback)).cons fun _ _ _ => hpinned
      · rw [if_neg hfallback, List.nil_append]
        split
        · next hu => exact hslots u hu
        · exact .nil
    · rw [lists_roster, h.chains, if_pos rfl]
      rfl
    · rw [contains_roster_users]
      exact h.containsUser_fallback

/-! ## every run -/

/-- Whatever changes reach a solution that has been built, none of them about the placeholder and
none adding a pinned task, and whenever the loose tasks are placed in between: in every chain the
pinned tasks come before the others and no loose task is pinned; the placeholder stays pinned at the
head of the fallback user's chain and is in no plan; and after each placing no task is loose. -/
theorem pinned_first_runAll (hs : (build records directory p).1 = .ok s) {steps : List WorkStep}
    (hadds : ∀ t, .change (.add t) ∈ steps → t.pinned = false)
    (hreal : ∀ m, .change m ∈ steps → m.taskId ≠ .placeholder) :
    let w := WorkStep.runAll steps s
    (∀ u, (w.chain u).Pairwise fun a b => b.pinned = true → a.pinned = true) ∧
      (∀ t ∈ w.unassigned, t.pinned = false) ∧
      (w.chainIds .fallback).head? = some .placeholder ∧
      (w.task? .placeholder).map (·.pinned) = some true ∧
      (∀ window pin published,
        .placeholder ∉ ((PublishPlan.ofSolution window pin w published).results.map (·.taskId)) ∧
        .placeholder ∉ (PublishPlan.ofSolution window pin w published).newlyPublished) ∧
      ∀ before after, steps = before ++ .place :: after →
        (WorkStep.runAll (before ++ [.place]) s).unassigned = [] := by
  intro w
  have hstart := (built_of_build hs).1.asBuilt
  have hw : w.AsBuilt := hstart.runAll hadds hreal
  have hplan : ∀ window pin published,
      ∀ res ∈ (PublishPlan.ofSolution window pin w published).results,
        res.taskId ≠ .placeholder := fun window pin published res hres =>
    (PublishPlan.mem_results_ofSolution hw.arranged.toChained hres).1
  refine ⟨hw.pairwise_chain, fun t ht => hw.pinned_of_mem_unassigned ht, hw.pinnedFirst.head,
    isPinned_roster_iff.1 hw.pinnedFirst.pinned, fun window pin published => ⟨?_, ?_⟩, ?_⟩
  · intro hmem
    obtain ⟨res, hres, hid⟩ := List.mem_map.1 hmem
    exact hplan window pin published res hres hid
  · intro hmem
    obtain ⟨res, hres, hid, -⟩ := PublishPlan.exists_of_mem_newlyPublished_ofSolution hmem
    exact hplan window pin published res hres hid
  · rintro before after rfl
    have hbefore : (WorkStep.runAll before s).AsBuilt :=
      hstart.runAll (fun t ht => hadds t (List.mem_append_left _ ht))
        fun m hm => hreal m (List.mem_append_left _ hm)
    have hfallback : (WorkStep.runAll before s).containsUser .fallback = true := by
      rw [← contains_roster_users]
      exact hbefore.pinnedFirst.fallback
    rw [WorkStep.runAll_append]
    exact hbefore.arranged.unassigned_placeUnassigned hfallback

/-- Of a worker's two tasks the one in progress is pinned and comes first.  A third task is placed
with the fallback user and a fourth one pinned behind the first; then the first is released and
placed again. -/
theorem pinned_first_runAll_four_tasks :
    let records := [recordOf 1 .reserved (some ⟨"john"⟩), recordOf 2 .inProgress (some ⟨"john"⟩),
      recordOf 3 .ready none]
    let directory : List DirectoryUser := [⟨⟨"john"⟩, []⟩]
    let s := builtOf records directory ∅
    let steps : List WorkStep := [.place, .change (.assign (.ofId ⟨4⟩ "" .lowest) ⟨"john"⟩),
      .change (.release ⟨2⟩), .place]
    (build records directory ∅).1 = .ok s ∧
      (∀ t, .change (.add t) ∈ steps → t.pinned = false) ∧
      (∀ m, .change m ∈ steps → m.taskId ≠ .placeholder) ∧
      s.chainIds ⟨"john"⟩ = [⟨2⟩, ⟨1⟩] ∧
      (WorkStep.runAll steps s).chainIds ⟨"john"⟩ = [⟨4⟩, ⟨1⟩] ∧
      (WorkStep.runAll steps s).chainIds .fallback = [.placeholder, ⟨3⟩, ⟨2⟩] ∧
      ((WorkStep.runAll steps s).chain ⟨"john"⟩).Pairwise
        (fun a b => b.pinned = true → a.pinned = true) ∧
      (WorkStep.runAll steps s).unassigned = [] := by
  intro records directory s steps
  have hs : (build records directory ∅).1 = .ok s := by decide +kernel
  have hadds : ∀ t, .change (.add t) ∈ steps → t.pinned = false := by
    intro t ht
    simp [steps] at ht
  have hreal : ∀ m, .change m ∈ steps → m.taskId ≠ .placeholder := by
    intro m hm
    have hcases : m = .assign (.ofId ⟨4⟩ "" .lowest) ⟨"john"⟩ ∨ m = .release ⟨2⟩ := by
      simpa [steps] using hm
    rcases hcases with rfl | rfl <;> decide
  obtain ⟨hfirst, -, -, -, -, hplaced⟩ := pinned_first_runAll hs hadds hreal
  exact ⟨hs, hadds, hreal, by decide +kernel, by decide +kernel, by decide +kernel, hfirst _,
    hplaced (steps.take 3) [] rfl⟩

end Assembly

end ChainPlanner
