import ChainPlanner.Proofs.Chain.Placing
import ChainPlanner.Proofs.Chain.Uniqueness

/-!
# ChainPlanner.Proofs.Placement.Rule

Placing is list scheduling.  The tasks in no chain are taken in order (`Solution.Precedes`), and
each goes to the worker that the rule names (`Solution.GoesTo`) when it is its turn: when each
worker has, behind the chain it had, the tasks placed before.

The rule is about numbers, not about solutions on the way: it reads when each worker is free from
a function.  One task is `Arranged.place_cases`, a run of them `Queued.chainIds_placeEach`.
-/

namespace ChainPlanner

/-! ## the first of the least -/

section FirstLeast

variable {α : Type} {before : α → α → Bool} {as : List α} {a : α}

/-- There is a least item unless there is none at all. -/
theorem firstLeast?_eq_none : firstLeast? before as = none ↔ as = [] := by
  cases as with
  | nil => simp [firstLeast?]
  | cons a as =>
    rw [firstLeast?]
    cases firstLeast? before as with
    | none => simp
    | some b => by_cases hb : before b a <;> simp [hb]

/-- Where a number decides, it is least for the item found, and greater for every item that stands
in front of it. -/
theorem exists_split_of_firstLeast? {f : α → Nat} (hf : ∀ a b, before a b = decide (f a < f b))
    (h : firstLeast? before as = some a) :
    ∃ xs ys, as = xs ++ a :: ys ∧ (∀ x ∈ xs, f a < f x) ∧ ∀ y ∈ ys, f a ≤ f y := by
  induction as generalizing a with
  | nil => cases h
  | cons b as ih =>
    rw [firstLeast?] at h
    cases hrest : firstLeast? before as with
    | none =>
      rw [hrest] at h
      cases h
      rw [firstLeast?_eq_none.1 hrest]
      exact ⟨[], [], rfl, by simp, by simp⟩
    | some c =>
      obtain ⟨xs, ys, rfl, hxs, hys⟩ := ih hrest
      rw [hrest] at h
      simp only [hf, decide_eq_true_eq] at h
      by_cases hc : f c < f b
      · rw [if_pos hc] at h
        cases h
        exact ⟨b :: xs, ys, rfl, List.forall_mem_cons.2 ⟨hc, hxs⟩, hys⟩
      · rw [if_neg hc] at h
        cases h
        refine ⟨[], xs ++ c :: ys, rfl, by simp, fun y hy => ?_⟩
        rcases List.mem_append.1 hy with hy | hy
        · have := hxs y hy
          omega
        · rcases List.mem_cons.1 hy with rfl | hy
          · omega
          · have := hys y hy
            omega

end FirstLeast

namespace Solution

variable {s s' : Solution} {lists : UserId → List TaskId} {free : UserId → Nat} {u v w : UserId}
  {id x y : TaskId} {t : Task} {ids xs ys : List TaskId} {goal : Option UserId}

/-! ## the rule -/

/-- The workers other than the fallback user that may work on a task, in stored order. -/
def regulars (s : Solution) (t : Task) : List UserId :=
  ((s.eligibleUsers t).filter fun u => !u.isFallback).map (·.id)

/-- The regular worker that a task goes to, from when each worker is free. -/
structure Chooses (s : Solution) (free : UserId → Nat) (t : Task) (w : UserId) : Prop where
  /-- It is named as an owner if any regular worker is. -/
  owner : (∃ v ∈ s.regulars t, t.hasDirectOwner v = true) → t.hasDirectOwner w = true
  /-- Among those named, or among those not named, no other one is free earlier. -/
  least : ∀ v ∈ s.regulars t, t.hasDirectOwner v = t.hasDirectOwner w → free w ≤ free v
  /-- Those of them that are stored in front of it are free later. -/
  first : ∃ front back, s.regulars t = front ++ w :: back ∧
    ∀ v ∈ front, t.hasDirectOwner v = t.hasDirectOwner w → free w < free v

/-- Where a task goes, from when each worker is free: to a regular worker, or without one to the
fallback user, if it is there. -/
inductive GoesTo (s : Solution) (free : UserId → Nat) (t : Task) : Option UserId → Prop where
  | regular {w : UserId} (h : s.Chooses free t w) : s.GoesTo free t (some w)
  | fallback (h : s.regulars t = []) (hf : s.containsUser .fallback = true) :
      s.GoesTo free t (some .fallback)
  | nowhere (h : s.regulars t = []) (hf : s.containsUser .fallback = false) : s.GoesTo free t none

/-- When a worker is free that has the given tasks to do: after all of them, but at the longest time
at the latest. -/
def freeAfter (s : Solution) (ids : List TaskId) : Nat :=
  min (totalDuration (ids.filterMap s.task?)) Minutes.max

/-- Whether a task is the more urgent one of two, or equally urgent and of the smaller number. -/
def Precedes (s : Solution) (x y : TaskId) : Prop :=
  ∃ a b, s.task? x = some a ∧ s.task? y = some b ∧
    (a.priority.value < b.priority.value ∨ a.priority.value = b.priority.value ∧ x.val < y.val)

/-- The chosen worker is a regular one. -/
theorem Chooses.mem (h : s.Chooses free t w) : w ∈ s.regulars t := by
  obtain ⟨front, back, hsplit, -⟩ := h.first
  simp [hsplit]

/-- Without links the workers are the same, in the same order. -/
theorem values_users_bare (s : Solution) :
    s.bare.users.values = s.users.values.map fun u => { u with next := none } := by
  simp [bare, KeyedList.map, KeyedList.values]

/-- Who may work on a task does not depend on links. -/
theorem eligibleUsers_bare (s : Solution) (t : Task) :
    s.bare.eligibleUsers t = (s.eligibleUsers t).map fun u => { u with next := none } := by
  rw [eligibleUsers, eligibleUsers, values_users_bare, List.filter_map]
  rfl

/-- Who the regular workers of a task are does not depend on links. -/
theorem regulars_bare (s : Solution) (t : Task) : s.bare.regulars t = s.regulars t := by
  rw [regulars, regulars, eligibleUsers_bare, List.filter_map, List.map_map]
  rfl

/-- Where a task goes depends on links and times only through when workers are free. -/
theorem GoesTo.of_bare (h : s'.GoesTo free t goal) (hb : s'.bare = s.bare) :
    s.GoesTo free t goal := by
  have hregulars : s'.regulars t = s.regulars t := by rw [← regulars_bare, hb, regulars_bare]
  have hcontains := containsUser_of_bare hb .fallback
  cases h with
  | regular h =>
    obtain ⟨howner, hleast, hfirst⟩ := h
    rw [hregulars] at howner hleast hfirst
    exact .regular ⟨howner, hleast, hfirst⟩
  | fallback h hf => exact .fallback (hregulars ▸ h) (hcontains ▸ hf)
  | nowhere h hf => exact .nowhere (hregulars ▸ h) (hcontains ▸ hf)

/-! ## the worker picked -/

/-- How far down a worker stands for a task: workers that are not named as owners stand below all
that are. -/
def rank (s : Solution) (t : Task) (u : UserId) : Nat :=
  (if t.hasDirectOwner u then 0 else Minutes.max + 1) + (s.chainEndTime u).toNat

/-- A worker suits a task better if it is higher up in the ranks. -/
theorem suitsBetter_eq (s : Solution) (t : Task) (a b : User) :
    s.suitsBetter t a b = decide (s.rank t a.id < s.rank t b.id) := by
  have ha := (s.chainEndTime a.id).toNat_le_max
  have hb := (s.chainEndTime b.id).toNat_le_max
  rw [suitsBetter, rank, rank]
  cases t.hasDirectOwner a.id <;> cases t.hasDirectOwner b.id <;> simp <;> omega

/-- The worker picked for a task is the one that the rule names. -/
theorem Keyed.goesTo_pickUser? (h : s.Keyed) (ht : s.task? id = some t) :
    s.GoesTo (fun u => (s.chainEndTime u).toNat) t (s.pickUser? id) := by
  cases hbest : firstLeast? (s.suitsBetter t)
      ((s.eligibleUsers t).filter fun u => !u.isFallback) with
  | none =>
    have hnone : s.regulars t = [] := List.map_eq_nil_iff.2 (firstLeast?_eq_none.1 hbest)
    cases hf : s.user? .fallback with
    | none =>
      have hpick : s.pickUser? id = none := by simp [pickUser?, ht, hbest, fallbackUser?, hf]
      exact hpick ▸ .nowhere hnone (containsUser_eq_false.2 hf)
    | some f =>
      have hpick : s.pickUser? id = some .fallback := by
        simp [pickUser?, ht, hbest, fallbackUser?, hf, h.user_id hf]
      exact hpick ▸ .fallback hnone (containsUser_iff.2 ⟨f, hf⟩)
  | some w =>
    have hpick : s.pickUser? id = some w.id := by simp [pickUser?, ht, hbest]
    obtain ⟨front, back, hsplit, hfront, hback⟩ :=
      exists_split_of_firstLeast? (f := fun u => s.rank t u.id) (s.suitsBetter_eq t) hbest
    have hregulars : s.regulars t = front.map (·.id) ++ w.id :: back.map (·.id) := by
      rw [regulars, hsplit, List.map_append, List.map_cons]
    have hlater : ∀ v ∈ front.map (·.id), s.rank t w.id < s.rank t v :=
      List.forall_mem_map.2 hfront
    have hsooner : ∀ v ∈ back.map (·.id), s.rank t w.id ≤ s.rank t v :=
      List.forall_mem_map.2 hback
    -- the ranks put direct owners first, so each clause of the rule is a comparison of ranks
    have hleast : ∀ v ∈ s.regulars t, s.rank t w.id ≤ s.rank t v := by
      intro v hv
      rw [hregulars, List.mem_append, List.mem_cons] at hv
      rcases hv with hv | rfl | hv
      · exact Nat.le_of_lt (hlater v hv)
      · exact Nat.le_refl _
      · exact hsooner v hv
    rw [hpick]
    refine .regular ⟨?_, fun v hv hclass => ?_, _, _, hregulars, fun v hv hclass => ?_⟩
    · rintro ⟨v, hv, howner⟩
      by_contra hother
      have hle := hleast v hv
      have hmax := (s.chainEndTime v).toNat_le_max
      rw [rank, rank, if_pos howner, if_neg hother] at hle
      omega
    · have hle := hleast v hv
      rw [rank, rank, hclass] at hle
      omega
    · have hlt := hlater v hv
      rw [rank, rank, hclass] at hlt
      omega

/-- The regular workers of a task are those other than the fallback user that may work on it. -/
theorem Keyed.mem_regulars_iff (h : s.Keyed) :
    u ∈ s.regulars t ↔ u ≠ .fallback ∧ ∃ w, s.user? u = some w ∧ t.isEligible w = true := by
  simp only [regulars, eligibleUsers, List.mem_map, List.mem_filter, KeyedList.mem_values_iff,
    User.isFallback, Bool.not_eq_true', decide_eq_false_iff_not]
  constructor
  · rintro ⟨w, ⟨⟨⟨k, hk⟩, heligible⟩, hother⟩, rfl⟩
    have hid : w.id = k := h.user_id hk
    exact ⟨hother, w, hid ▸ hk, heligible⟩
  · rintro ⟨hother, w, hw, heligible⟩
    have hid : w.id = u := h.user_id hw
    exact ⟨w, ⟨⟨⟨u, hw⟩, heligible⟩, hid ▸ hother⟩, hid⟩

/-- A task goes to somebody who is there. -/
theorem GoesTo.containsUser (h : s.GoesTo free t (some u)) (hk : s.Keyed) :
    s.containsUser u = true := by
  cases h with
  | regular h =>
    obtain ⟨-, w, hw, -⟩ := hk.mem_regulars_iff.1 h.mem
    exact containsUser_iff.2 ⟨w, hw⟩
  | fallback _ hf => exact hf

/-! ## one task -/

/-- A loose task stays where it is if nobody is picked for it, and otherwise goes to the end of the
list of whoever is. -/
theorem Arranged.place_cases (h : s.Arranged lists) (ht : s.task? id = some t)
    (hloose : s.roster.Loose id) :
    (s.pickUser? id = none ∧ s.place? id = none) ∨
      ∃ u s₁, s.pickUser? id = some u ∧ s.place? id = some s₁ ∧ s₁.Arranged s₁.chainIds ∧
        s₁.roster = s.roster.putLast u id := by
  cases hpick : s.pickUser? id with
  | none => exact .inl ⟨rfl, by simp [place?, hpick]⟩
  | some u =>
    have hu : s.containsUser u = true :=
      GoesTo.containsUser (hpick ▸ h.keyed.goesTo_pickUser? ht) h.keyed
    obtain ⟨s₁, hlink⟩ := h.exists_linkAfter_chainTail hu ht hloose
    obtain ⟨harr, -, hroster⟩ := h.roster_linkAfter_chainTail hlink
    exact .inr ⟨u, s₁, rfl, by simp [place?, hpick, hlink, Except.toOption], harr, hroster⟩

/-- A task that is not among those placed has the worker that it had. -/
theorem Arranged.assignedUser?_placeEach_of_not_mem (h : s.Arranged lists) (hx : x ∉ ids) :
    (s.placeEach ids).1.assignedUser? x = s.assignedUser? x := by
  induction ids generalizing s lists with
  | nil => rfl
  | cons id ids ih =>
    rw [List.mem_cons, not_or] at hx
    rw [placeEach]
    cases hplace : s.place? id with
    | none => exact ih h hx.2
    | some s₁ =>
      obtain ⟨u, harr, -, hroster⟩ := h.roster_place? hplace
      have hlists : ∀ v, x ∈ s₁.chainIds v ↔ x ∈ s.chainIds v := by
        intro v
        show x ∈ s₁.roster.lists v ↔ x ∈ s.roster.lists v
        rw [hroster, Roster.mem_putLast]
        exact or_iff_left fun he => hx.1 he.2
      have hsame : s₁.assignedUser? x = s.assignedUser? x := by
        apply Option.ext
        intro v
        rw [harr.assignedUser?_eq_some_iff, h.self.assignedUser?_eq_some_iff, hlists v]
      exact (ih harr hx.2).trans hsame

/-! ## many tasks -/

/-- Tasks can be placed in two parts. -/
theorem placeEach_append (s : Solution) (xs ys : List TaskId) :
    (s.placeEach (xs ++ ys)).1 = ((s.placeEach xs).1.placeEach ys).1 := by
  induction xs generalizing s with
  | nil => rfl
  | cons x xs ih =>
    rw [List.cons_append, placeEach, placeEach]
    cases s.place? x with
    | none => exact ih s
    | some s₁ => exact ih s₁

/-- Tasks that can be placed one after another: each is there, in nobody's list, and once among
them. -/
structure Queued (s : Solution) (ids : List TaskId) : Prop where
  nodup : ids.Nodup
  there : ∀ x ∈ ids, s.containsTask x = true
  loose : ∀ x ∈ ids, s.roster.Loose x

namespace Queued

/-- The first task of a queue is there and in no list. -/
theorem head (h : s.Queued (id :: ids)) : (∃ t, s.task? id = some t) ∧ s.roster.Loose id :=
  ⟨containsTask_iff.1 (h.there id List.mem_cons_self), h.loose id List.mem_cons_self⟩

/-- Without its first task a queue is a queue. -/
theorem tail (h : s.Queued (id :: ids)) : s.Queued ids where
  nodup := (List.nodup_cons.1 h.nodup).2
  there x hx := h.there x (List.mem_cons_of_mem id hx)
  loose x hx := h.loose x (List.mem_cons_of_mem id hx)

/-- Once the first task is placed the others still wait for a place. -/
theorem place (h : s.Queued (id :: ids)) (hroster : s'.roster = s.roster.putLast u id) :
    s'.Queued ids where
  nodup := h.tail.nodup
  there x hx := by
    rw [← contains_roster_tasks, hroster]
    exact (contains_roster_tasks s x).trans (h.tail.there x hx)
  loose x hx v hv := by
    have hne : x ≠ id := ne_of_mem_of_not_mem hx (List.nodup_cons.1 h.nodup).1
    rw [hroster, Roster.mem_putLast] at hv
    exact h.tail.loose x hx v (hv.resolve_right fun he => hne he.2)

/-- The first task goes to the worker picked for it, and nobody moves it afterwards. -/
theorem assignedUser?_placeEach_head (h : s.Queued (id :: ids)) (harr : s.Arranged lists) :
    (s.placeEach (id :: ids)).1.assignedUser? id = s.pickUser? id := by
  obtain ⟨⟨t, ht⟩, hloose⟩ := h.head
  have hid : id ∉ ids := (List.nodup_cons.1 h.nodup).1
  rw [placeEach]
  obtain ⟨hpick, hplace⟩ | ⟨u, s₁, hpick, hplace, harr₁, hroster⟩ := harr.place_cases ht hloose
  · rw [hplace, hpick]
    exact (harr.assignedUser?_placeEach_of_not_mem hid).trans
      (harr.self.assignedUser?_eq_none_iff.2 hloose)
  · rw [hplace, hpick]
    have hlast : id ∈ s₁.roster.lists u := hroster ▸ Roster.mem_putLast.2 (.inr ⟨rfl, rfl⟩)
    exact (harr₁.assignedUser?_placeEach_of_not_mem hid).trans
      (harr₁.assignedUser?_eq_some_iff.2 hlast)

/-- Each worker has, behind the chain it had, the tasks that went to it, in the order in which they
were placed. -/
theorem chainIds_placeEach (h : s.Queued ids) (harr : s.Arranged lists) (u : UserId) :
    (s.placeEach ids).1.chainIds u = s.chainIds u ++
      ids.filter fun x => (s.placeEach ids).1.assignedUser? x = some u := by
  induction ids generalizing s lists with
  | nil => exact (List.append_nil _).symm
  | cons id ids ih =>
    obtain ⟨⟨t, ht⟩, hloose⟩ := h.head
    have hturn := h.assignedUser?_placeEach_head harr
    obtain ⟨hpick, hplace⟩ | ⟨v, s₁, hpick, hplace, harr₁, hroster⟩ := harr.place_cases ht hloose
    · have hstep : (s.placeEach (id :: ids)).1 = (s.placeEach ids).1 := by rw [placeEach, hplace]
      rw [hstep, hpick] at hturn
      rw [hstep, List.filter_cons_of_neg (by simp [hturn])]
      exact ih h.tail harr
    · have hstep : (s.placeEach (id :: ids)).1 = (s₁.placeEach ids).1 := by rw [placeEach, hplace]
      have hlists : s₁.chainIds u = (s.roster.putLast v id).lists u :=
        congrFun (congrArg Roster.lists hroster) u
      rw [hstep, hpick] at hturn
      rw [hstep, ih (h.place hroster) harr₁, hlists]
      by_cases hu : u = v
      · subst hu
        rw [Roster.lists_putLast_self, List.filter_cons_of_pos (by simp [hturn]), List.append_assoc]
        rfl
      · have hother : ¬some v = some u := by simpa using Ne.symm hu
        rw [Roster.lists_putLast_of_ne _ _ hu,
          List.filter_cons_of_neg (by simpa [hturn] using hother)]
        rfl

/-- The number returned is the number of tasks that went somewhere. -/
theorem count_placeEach (h : s.Queued ids) (harr : s.Arranged lists) :
    (s.placeEach ids).2 =
      (ids.filter fun x => ((s.placeEach ids).1.assignedUser? x).isSome).length := by
  induction ids generalizing s lists with
  | nil => rfl
  | cons id ids ih =>
    obtain ⟨⟨t, ht⟩, hloose⟩ := h.head
    have hturn := h.assignedUser?_placeEach_head harr
    obtain ⟨hpick, hplace⟩ | ⟨v, s₁, hpick, hplace, harr₁, hroster⟩ := harr.place_cases ht hloose
    · have hstep : s.placeEach (id :: ids) = s.placeEach ids := by rw [placeEach, hplace]
      rw [hstep, hpick] at hturn
      rw [hstep, List.filter_cons_of_neg (by simp [hturn])]
      exact ih h.tail harr
    · have hstep : s.placeEach (id :: ids) = ((s₁.placeEach ids).1, (s₁.placeEach ids).2 + 1) := by
        rw [placeEach, hplace]
      rw [hstep, hpick] at hturn
      rw [hstep, List.filter_cons_of_pos (by simp [hturn]), List.length_cons]
      exact congrArg (· + 1) (ih (h.place hroster) harr₁)

end Queued

/-! ## when workers are free -/

/-- How long tasks keep a worker does not depend on links and times. -/
theorem freeAfter_of_bare (hb : s'.bare = s.bare) (ids : List TaskId) :
    s'.freeAfter ids = s.freeAfter ids :=
  congrArg (min · Minutes.max) (totalDuration_of_bare hb ids)

/-- The end of a chain is when its worker is free. -/
theorem Arranged.toNat_chainEndTime (h : s.Arranged lists) (u : UserId) :
    (s.chainEndTime u).toNat = s.freeAfter (s.chainIds u) := by
  have hchain : (s.chainIds u).filterMap s.task? = s.chain u := by
    rw [h.chainIds_eq, h.chain_eq]
  rw [freeAfter, hchain, chainEndTime, List.getLast?_eq_getElem?]
  cases hlast : (s.chain u)[(s.chain u).length - 1]? with
  | none =>
    have hnil : s.chain u = [] := by
      rw [List.getElem?_eq_none_iff] at hlast
      exact List.eq_nil_of_length_eq_zero (by omega)
    rw [hnil]
    rfl
  | some t =>
    have hlength : (s.chain u).length - 1 + 1 = (s.chain u).length := by
      have := (List.getElem?_eq_some_iff.1 hlast).1
      omega
    have hend := (h.getElem?_chain hlast).2
    rw [hlength, List.take_length] at hend
    rw [Option.bind_some, hend, Option.getD_some, Minutes.toNat_ofNat]

/-! ## the order -/

/-- More urgent tasks are placed before others, and equally urgent ones by their numbers. -/
theorem placedBefore_iff {a b : Task} : placedBefore a b = true ↔
    a.priority.value < b.priority.value ∨
      a.priority.value = b.priority.value ∧ a.id.val ≤ b.id.val := by
  have hid : (compare a.id b.id).isLE = true ↔ a.id.val ≤ b.id.val :=
    Std.isLE_compare (a := a.id.val) (b := b.id.val)
  simp [placedBefore, hid]

/-- The order of placing is transitive. -/
theorem placedBefore_trans (a b c : Task) (hab : placedBefore a b = true)
    (hbc : placedBefore b c = true) : placedBefore a c = true := by
  rw [placedBefore_iff] at hab hbc ⊢
  rcases hab with hab | ⟨hab, hle⟩
  · exact .inl (by omega)
  · rcases hbc with hbc | ⟨hbc, hle'⟩
    · exact .inl (by omega)
    · exact .inr ⟨hab.trans hbc, Int64.le_trans hle hle'⟩

/-- Of two tasks one can be placed before the other. -/
theorem placedBefore_total (a b : Task) : (placedBefore a b || placedBefore b a) = true := by
  rw [Bool.or_eq_true, placedBefore_iff, placedBefore_iff]
  rcases Nat.lt_trichotomy a.priority.value b.priority.value with h | h | h
  · exact .inl (.inl h)
  · exact (Int64.le_total a.id.val b.id.val).imp (.inr ⟨h, ·⟩) (.inr ⟨h.symm, ·⟩)
  · exact .inr (.inl h)

/-- The tasks to be placed are those in no chain. -/
theorem pending_perm (s : Solution) : s.pending.Perm (s.unassigned.map (·.id)) :=
  (List.mergeSort_perm s.unassigned placedBefore).map _

/-- The ids of the tasks are their keys. -/
theorem Keyed.map_id_tasks (h : s.Keyed) : s.tasks.values.map (·.id) = s.tasks.keys := by
  rw [KeyedList.values, KeyedList.keys, List.map_map]
  exact List.map_congr_left fun e he => h.task_id (KeyedList.get?_eq_some_iff.2 he)

/-- No task is to be placed twice. -/
theorem Keyed.nodup_pending (h : s.Keyed) : s.pending.Nodup := by
  rw [s.pending_perm.nodup_iff]
  have hsub : (s.unassigned.map (·.id)).Sublist s.tasks.keys :=
    h.map_id_tasks ▸ List.filter_sublist.map _
  exact hsub.nodup s.tasks.nodup_keys

/-- The tasks to be placed can be placed one after another. -/
theorem Arranged.queued_pending (h : s.Arranged lists) : s.Queued s.pending where
  nodup := h.keyed.nodup_pending
  there _ hx := ((mem_pending_iff h.toChained).1 hx).1
  loose _ hx := ((mem_pending_iff h.toChained).1 hx).2

/-- The most urgent tasks are placed first, and of those that are equally urgent the ones with the
smallest numbers. -/
theorem Keyed.pairwise_pending (h : s.Keyed) : s.pending.Pairwise s.Precedes := by
  have hsorted := List.pairwise_mergeSort placedBefore_trans placedBefore_total s.unassigned
  have hdistinct : (s.unassigned.mergeSort placedBefore).Pairwise fun a b => a.id ≠ b.id :=
    List.pairwise_map.1 h.nodup_pending
  have hthere : ∀ a ∈ s.unassigned.mergeSort placedBefore, s.task? a.id = some a := by
    intro a ha
    rw [List.mem_mergeSort, unassigned, List.mem_filter] at ha
    obtain ⟨x, hx⟩ := KeyedList.mem_values_iff.1 ha.1
    have hid : a.id = x := h.task_id hx
    exact hid ▸ hx
  rw [pending, List.pairwise_map]
  refine (hsorted.and hdistinct).imp_of_mem fun {a b} ha hb hab => ?_
  have hne : a.id.val ≠ b.id.val := fun he => hab.2 (congrArg TaskId.mk he)
  have hbefore := placedBefore_iff.1 hab.1
  exact ⟨a, b, hthere a ha, hthere b hb,
    hbefore.imp_right fun hle => ⟨hle.1, Int64.lt_of_le_of_ne hle.2 hne⟩⟩

/-- Of two tasks at most one precedes the other. -/
theorem Precedes.asymm (h : s.Precedes x y) : ¬s.Precedes y x := by
  obtain ⟨a, b, ha, hb, hab⟩ := h
  rintro ⟨b', a', hb', ha', hba⟩
  rw [ha, Option.some.injEq] at ha'
  rw [hb, Option.some.injEq] at hb'
  subst ha' hb'
  rcases hab with hab | ⟨hab, hlt⟩
  · omega
  · exact Int64.lt_asymm hlt (hba.resolve_left (by omega)).2

/-- There is one order only in which the tasks in no chain can be placed. -/
theorem Keyed.pending_eq (h : s.Keyed) (hperm : ids.Perm (s.unassigned.map (·.id)))
    (hsorted : ids.Pairwise s.Precedes) : s.pending = ids :=
  (s.pending_perm.trans hperm.symm).eq_of_pairwise
    (fun _ _ _ _ hxy hyx => absurd hyx hxy.asymm) h.pairwise_pending hsorted

/-! ## the whole call -/

namespace Queued

/-- The first tasks of a queue are a queue. -/
theorem left (h : s.Queued (xs ++ ys)) : s.Queued xs where
  nodup := (List.nodup_append.1 h.nodup).1
  there x hx := h.there x (List.mem_append_left ys hx)
  loose x hx := h.loose x (List.mem_append_left ys hx)

/-- What is still to be placed after some of the tasks. -/
theorem right (h : s.Queued (xs ++ ys)) (harr : s.Arranged lists) :
    (s.placeEach xs).1.Queued ys := by
  obtain ⟨harr₁, hgrows⟩ := harr.grows_placeEach xs
  obtain ⟨-, hys, hdisjoint⟩ := List.nodup_append.1 h.nodup
  refine ⟨hys, fun x hx => ?_, fun x hx => ?_⟩
  · rw [containsTask_of_bare (bare_of_grows hgrows)]
    exact h.there x (List.mem_append_right xs hx)
  · have hnew : x ∉ xs := fun hxs => hdisjoint x hxs x hx rfl
    have hnone : s.assignedUser? x = none :=
      harr.self.assignedUser?_eq_none_iff.2 (h.loose x (List.mem_append_right xs hx))
    rw [← harr.assignedUser?_placeEach_of_not_mem hnew] at hnone
    exact harr₁.assignedUser?_eq_none_iff.1 hnone

end Queued

/-- A task that is in nobody's list, before and after, is stored unchanged. -/
theorem Arranged.task?_of_loose (h : s.Arranged lists) (h' : s'.Arranged s'.chainIds)
    (hb : s'.bare = s.bare) (ht : s.task? x = some t) (hloose : s.roster.Loose x)
    (hloose' : s'.roster.Loose x) : s'.task? x = some t := by
  obtain ⟨t', ht', hdetached⟩ := exists_task?_of_bare hb ht
  rw [h'.free ht' hloose', h.self.free ht hloose] at hdetached
  rw [ht', hdetached]

/-- When it is the turn of a task, each worker has the tasks placed on it before and no others, and
the task goes where the rule says. -/
theorem Queued.goesTo_placeEach (h : s.Queued (xs ++ id :: ys)) (harr : s.Arranged lists) :
    ∃ t, s.task? id = some t ∧
      (∀ u, ((s.placeEach xs).1.chainEndTime u).toNat =
        s.freeAfter (s.chainIds u ++ xs.filter fun x =>
          (s.placeEach (xs ++ id :: ys)).1.assignedUser? x = some u)) ∧
      s.GoesTo (fun u => ((s.placeEach xs).1.chainEndTime u).toNat) t
        ((s.placeEach (xs ++ id :: ys)).1.assignedUser? id) := by
  obtain ⟨harr₁, hgrows⟩ := harr.grows_placeEach xs
  have hbare := bare_of_grows hgrows
  have hqueued := h.right harr
  have hid : id ∈ xs ++ id :: ys := List.mem_append_right xs List.mem_cons_self
  obtain ⟨t, ht⟩ := containsTask_iff.1 (h.there id hid)
  have ht₁ := harr.task?_of_loose harr₁ hbare ht (h.loose id hid) hqueued.head.2
  have hplaced : ∀ x ∈ xs, (s.placeEach (xs ++ id :: ys)).1.assignedUser? x =
      (s.placeEach xs).1.assignedUser? x := by
    intro x hx
    have hlater : x ∉ id :: ys := fun hmem =>
      (List.nodup_append.1 h.nodup).2.2 x hx x hmem rfl
    rw [placeEach_append]
    exact harr₁.assignedUser?_placeEach_of_not_mem hlater
  refine ⟨t, ht, fun u => ?_, ?_⟩
  · rw [harr₁.toNat_chainEndTime, freeAfter_of_bare hbare, h.left.chainIds_placeEach harr]
    congr 2
    exact List.filter_congr fun x hx => by rw [hplaced x hx]
  · rw [placeEach_append, hqueued.assignedUser?_placeEach_head harr₁]
    exact (harr₁.keyed.goesTo_pickUser? ht₁).of_bare hbare

/-- The tasks to be placed are those that belong to nobody. -/
theorem Arranged.mem_pending_iff_assignedUser? (h : s.Arranged lists) :
    x ∈ s.pending ↔ s.containsTask x = true ∧ s.assignedUser? x = none :=
  (mem_pending_iff h.toChained).trans (and_congr_right' h.self.assignedUser?_eq_none_iff.symm)

/-- Every task without a place goes where the rule says. -/
theorem Arranged.goesTo_placeUnassigned (h : s.Arranged lists) (hx : x ∈ s.pending) :
    ∃ t free, s.task? x = some t ∧ s.GoesTo free t (s.placeUnassigned.1.assignedUser? x) := by
  obtain ⟨earlier, later, hsplit⟩ := List.append_of_mem hx
  obtain ⟨t, ht, -, hgoes⟩ := (hsplit ▸ h.queued_pending).goesTo_placeEach h
  rw [← hsplit] at hgoes
  exact ⟨t, _, ht, hgoes⟩

/-- With the fallback user there, no task is without a place after all have been placed. -/
theorem Arranged.unassigned_placeUnassigned (h : s.Arranged lists)
    (hfallback : s.containsUser .fallback = true) : s.placeUnassigned.1.unassigned = [] := by
  obtain ⟨harr, hgrows⟩ := h.grows_placeEach s.pending
  have hempty : s.placeUnassigned.1.pending = [] := by
    rw [List.eq_nil_iff_forall_not_mem]
    intro x hx
    obtain ⟨hthere, hloose⟩ := (mem_pending_iff harr.toChained).1 hx
    have hbefore : s.containsTask x = true := by
      rw [← containsTask_of_bare (bare_of_grows hgrows)]
      exact hthere
    obtain ⟨t, free, -, hgoes⟩ :=
      h.goesTo_placeUnassigned ((mem_pending_iff h.toChained).2 ⟨hbefore, hgrows.loose hloose⟩)
    have hnone : s.placeUnassigned.1.assignedUser? x = none :=
      harr.assignedUser?_eq_none_iff.2 hloose
    rw [hnone] at hgoes
    cases hgoes with
    | nowhere _ hf =>
      rw [hf] at hfallback
      cases hfallback
  have hperm := s.placeUnassigned.1.pending_perm
  rw [hempty] at hperm
  exact List.map_eq_nil_iff.1 hperm.nil_eq.symm

/-- Placing is list scheduling.  The tasks in no chain are taken in order of priority and number.
Each goes where the rule says from when each worker is free with the tasks of its chain and those
that this call has placed on it before, which is when its chain ends at that moment.  So each chain
grows at its end by the tasks that go to its worker, in order of priority and number. -/
theorem placeUnassigned_schedules (hs : s.Reachable) :
    let s' := s.placeUnassigned.1
    let given (ids : List TaskId) (u : UserId) := ids.filter fun x => s'.assignedUser? x = some u
    s.pending.Perm (s.unassigned.map (·.id)) ∧ s.pending.Pairwise s.Precedes ∧
      (∀ u, s'.chainIds u = s.chainIds u ++ given s.pending u ∧
        (given s.pending u).Pairwise s.Precedes) ∧
      ∀ earlier id later, s.pending = earlier ++ id :: later → ∃ t, s.task? id = some t ∧
        (∀ u, ((s.placeEach earlier).1.chainEndTime u).toNat =
          s.freeAfter (s.chainIds u ++ given earlier u)) ∧
        s.GoesTo (fun u => s.freeAfter (s.chainIds u ++ given earlier u)) t
          (s'.assignedUser? id) := by
  intro s' given
  have h := hs.arranged
  have hqueued := h.queued_pending
  have hsorted := h.keyed.pairwise_pending
  refine ⟨s.pending_perm, hsorted, fun u => ⟨hqueued.chainIds_placeEach h u, hsorted.filter _⟩,
    fun earlier id later hsplit => ?_⟩
  obtain ⟨t, ht, hfree, hgoes⟩ := (hsplit ▸ hqueued).goesTo_placeEach h
  rw [← hsplit] at hfree hgoes
  exact ⟨t, ht, hfree, funext hfree ▸ hgoes⟩

/-- A task that some may work on. -/
def ownedTask (n : Int64) (owners : List OwnerRef) : Task :=
  { Task.ofId ⟨n⟩ "" .lowest with potentialOwners := owners }

/-- John and Mary are in one group.  Mary has a task of five minutes that is none of hers; of the
tasks without a place the second names her as an owner, the third is for the group, and the fourth,
the most urgent, is for nobody. -/
def callsForTeam : List Operation :=
  let member (name : String) : User := { User.ofId ⟨name⟩ with groups := .ofList [⟨"hr"⟩] }
  [.addUser (member "john"), .addUser (member "mary"), .addUser .fallback,
    .addTask { ownedTask 1 [.user ⟨"ghost"⟩] with duration := .ofNat 5 },
    .linkAfter (.user ⟨"mary"⟩) ⟨1⟩,
    .addTask (ownedTask 2 [.group ⟨"hr"⟩, .user ⟨"mary"⟩]),
    .addTask (ownedTask 3 [.group ⟨"hr"⟩]),
    .addTask { ownedTask 4 [] with priority := { value := 0 } }]

/-- The most urgent task comes first, the others by their numbers. -/
theorem pending_team : (Operation.runAll callsForTeam ∅).pending = [⟨4⟩, ⟨2⟩, ⟨3⟩] := by
  have hkeyed := (Reachable.arranged ⟨callsForTeam, rfl⟩).keyed
  have hperm : [⟨4⟩, ⟨2⟩, ⟨3⟩].Perm ((Operation.runAll callsForTeam ∅).unassigned.map (·.id)) := by
    decide +kernel
  have hsecond : (Operation.runAll callsForTeam ∅).task? ⟨2⟩ =
      some (ownedTask 2 [.group ⟨"hr"⟩, .user ⟨"mary"⟩]) := by decide +kernel
  have hthird : (Operation.runAll callsForTeam ∅).task? ⟨3⟩ =
      some (ownedTask 3 [.group ⟨"hr"⟩]) := by decide +kernel
  have hfourth : (Operation.runAll callsForTeam ∅).task? ⟨4⟩ =
      some { ownedTask 4 [] with priority := { value := 0 } } := by decide +kernel
  refine hkeyed.pending_eq hperm ?_
  simp only [List.pairwise_cons, List.forall_mem_cons, List.not_mem_nil, false_implies,
    implies_true, List.Pairwise.nil, and_true]
  exact ⟨⟨⟨_, _, hfourth, hsecond, by decide⟩, _, _, hfourth, hthird, by decide⟩,
    _, _, hsecond, hthird, by decide⟩

theorem placeUnassigned_team : (Operation.runAll callsForTeam ∅).placeUnassigned =
    (Operation.runAll callsForTeam ∅).placeEach [⟨4⟩, ⟨2⟩, ⟨3⟩] :=
  congrArg _ pending_team

/-- The task that names Mary goes to her although John is free; the one for the group goes to John,
who is free first. -/
theorem placeUnassigned_schedules_team :
    let s := Operation.runAll callsForTeam ∅
    let s' := s.placeUnassigned.1
    s.Reachable ∧ s.pending = [⟨4⟩, ⟨2⟩, ⟨3⟩] ∧ s.pending.Pairwise s.Precedes ∧
      s'.chainIds ⟨"mary"⟩ = [⟨1⟩, ⟨2⟩] ∧ s'.chainIds ⟨"john"⟩ = [⟨3⟩] ∧
      s'.chainIds .fallback = [⟨4⟩] ∧ ∃ t, s.task? ⟨3⟩ = some t ∧
        s.GoesTo (fun u => s.freeAfter (s.chainIds u ++
          [⟨4⟩, ⟨2⟩].filter fun x => s'.assignedUser? x = some u)) t (some ⟨"john"⟩) := by
  intro s s'
  have hreach : s.Reachable := ⟨callsForTeam, rfl⟩
  obtain ⟨-, hsorted, -, hgoes⟩ := placeUnassigned_schedules hreach
  obtain ⟨t, ht, -, hthird⟩ := hgoes [⟨4⟩, ⟨2⟩] ⟨3⟩ [] pending_team
  have hs' : s' = (s.placeEach [⟨4⟩, ⟨2⟩, ⟨3⟩]).1 := congrArg Prod.fst placeUnassigned_team
  have hjohn : s'.assignedUser? ⟨3⟩ = some ⟨"john"⟩ := by
    rw [hs']
    decide +kernel
  have hchains : s'.chainIds ⟨"mary"⟩ = [⟨1⟩, ⟨2⟩] ∧ s'.chainIds ⟨"john"⟩ = [⟨3⟩] ∧
      s'.chainIds .fallback = [⟨4⟩] := by
    rw [hs']
    decide +kernel
  exact ⟨hreach, pending_team, hsorted, hchains.1, hchains.2.1, hchains.2.2, t, ht, hjohn ▸ hthird⟩

end Solution

end ChainPlanner
