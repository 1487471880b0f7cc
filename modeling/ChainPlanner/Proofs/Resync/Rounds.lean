import ChainPlanner.Proofs.Placement.Rule
import ChainPlanner.Proofs.Resync.Soundness

/-!
# ChainPlanner.Proofs.Resync.Rounds

A solution and its published tasks, round after round.  A comparison with records that succeeds
makes its changes; one that fails leaves the solution as it is, and the published tasks as they are
where it stops.  The loose tasks are placed in between.

* `Outlook.mem_published_run` — a task is published after some turns exactly if one of them marked
  it, or it was published at the start, and no later one freed it;
* `Outlook.rounded_round` — after a round on records that fit nothing is left to place, every ready
  task is there and not pinned, and every task that a worker holds is in the chain of that worker;
* `Outlook.Rounded.exists_next` — so the next comparison with the same records succeeds, and asks
  for releases only.
-/

namespace ChainPlanner

open Solution Assembly Comparison

/-- A solution and the published tasks that go with it. -/
structure Outlook where
  solution : Solution
  published : PublishedTasks

/-- What happens to a solution: it is compared with records and the changes are made, or its loose
tasks are placed. -/
inductive Turn where
  | compare (records : List TaskRecord)
  | place

namespace Outlook

/-- One turn. -/
def turn (k : Outlook) : Turn → Outlook
  | .compare records => match resync k.solution records k.published with
    | (.ok ms, published) => ⟨(Mutation.applyAll ms k.solution).2, published⟩
    | (.error _, published) => ⟨k.solution, published⟩
  | .place => ⟨k.solution.placeUnassigned.1, k.published⟩

/-- Turns in order. -/
def run (k : Outlook) (turns : List Turn) : Outlook := turns.foldl turn k

/-- A comparison, after which the loose tasks are placed. -/
def round (k : Outlook) (records : List TaskRecord) : Outlook :=
  k.run [.compare records, .place]

variable {k k' : Outlook} {t : Turn} {turns : List Turn} {records : List TaskRecord}
  {r : TaskRecord} {x : TaskId} {u : UserId} {m : Mutation} {ms : List Mutation}

/-- Turns can be taken in two parts. -/
theorem run_append (k : Outlook) (turns turns' : List Turn) :
    k.run (turns ++ turns') = (k.run turns).run turns' := List.foldl_append

/-- A comparison that succeeds has its changes made. -/
theorem compare_of_ok {published : PublishedTasks}
    (h : resync k.solution records k.published = (.ok ms, published)) :
    k.turn (.compare records) = ⟨(Mutation.applyAll ms k.solution).2, published⟩ := by
  rw [turn, h]

/-- A comparison that fails changes the published tasks only. -/
theorem compare_of_error {e : AssemblyError} {published : PublishedTasks}
    (h : resync k.solution records k.published = (.error e, published)) :
    k.turn (.compare records) = ⟨k.solution, published⟩ := by
  rw [turn, h]

/-- The published tasks after a comparison. -/
theorem published_compare (k : Outlook) (records : List TaskRecord) :
    (k.turn (.compare records)).published = (resync k.solution records k.published).2 := by
  cases hresync : resync k.solution records k.published with
  | mk answer published =>
    cases answer with
    | error e => rw [compare_of_error hresync]
    | ok ms => rw [compare_of_ok hresync]

/-! ## the published tasks of a run -/

/-- A turn hears of somebody who holds a task. -/
def Marks (k : Outlook) (t : Turn) (x : TaskId) : Prop :=
  ∃ records r, t = .compare records ∧
    firstRecord? (heard k.solution k.published records) x = some r ∧ r.holder?.isSome = true

/-- A turn hears that a task of the solution is ready. -/
def Frees (k : Outlook) (t : Turn) (x : TaskId) : Prop :=
  ∃ records r, t = .compare records ∧
    firstRecord? (heard k.solution k.published records) x = some r ∧ r.status = .ready ∧
    (subject? k.solution x).isSome = true

/-- A task is published after a turn if the turn marks it, or if it was and is not freed. -/
theorem mem_published_turn (k : Outlook) (t : Turn) (x : TaskId) :
    x ∈ (k.turn t).published ↔ k.Marks t x ∨ (x ∈ k.published ∧ ¬ k.Frees t x) := by
  cases t with
  | compare records =>
    rw [published_compare, mem_published_of_resync]
    simp [Marks, Frees]
  | place => simp [turn, Marks, Frees]

/-- After some of the turns a task is published, at the start or because it has just been marked,
and none of the turns that follow frees it. -/
def Stays (k : Outlook) (turns : List Turn) (x : TaskId) : Prop :=
  ∃ before after, turns = before ++ after ∧
    ((before = [] ∧ x ∈ k.published) ∨
      ∃ earlier t, before = earlier ++ [t] ∧ (k.run earlier).Marks t x) ∧
    ∀ between t later, after = between ++ t :: later → ¬ (k.run (before ++ between)).Frees t x

/-- A task stays published if the last turn marks it, or if it had stayed so and is not freed. -/
theorem stays_append_singleton : k.Stays (turns ++ [t]) x ↔
    (k.run turns).Marks t x ∨ (k.Stays turns x ∧ ¬ (k.run turns).Frees t x) := by
  constructor
  · rintro ⟨before, after, hsplit, hstart, hafter⟩
    rcases List.eq_nil_or_concat after with rfl | ⟨after, t', rfl⟩
    · rw [List.append_nil] at hsplit
      subst hsplit
      rcases hstart with ⟨hempty, -⟩ | ⟨earlier, t', hsplit, hmarks⟩
      · simp at hempty
      · obtain ⟨rfl, rfl⟩ := List.append_singleton_inj.1 hsplit
        exact .inl hmarks
    · rw [List.concat_eq_append, ← List.append_assoc] at hsplit
      obtain ⟨rfl, rfl⟩ := List.append_singleton_inj.1 hsplit
      refine .inr ⟨⟨before, after, rfl, hstart, ?_⟩, hafter after t [] (by simp)⟩
      rintro between t' later rfl
      exact hafter between t' (later ++ [t]) (by simp)
  · rintro (hmarks | ⟨⟨before, after, rfl, hstart, hafter⟩, hfrees⟩)
    · exact ⟨turns ++ [t], [], by simp, .inr ⟨turns, t, rfl, hmarks⟩, by simp⟩
    · refine ⟨before, after ++ [t], by simp, hstart, ?_⟩
      intro between t' later hsplit
      rcases List.eq_nil_or_concat later with rfl | ⟨later, t'', rfl⟩
      · obtain ⟨rfl, rfl⟩ := List.append_singleton_inj.1 hsplit
        exact hfrees
      · rw [List.concat_eq_append, ← List.cons_append, ← List.append_assoc] at hsplit
        exact hafter between t' later (List.append_singleton_inj.1 hsplit).1

/-- The published tasks after some turns: those that stay published since the start or since they
were marked. -/
theorem mem_published_run (k : Outlook) (turns : List Turn) (x : TaskId) :
    x ∈ (k.run turns).published ↔ k.Stays turns x := by
  induction turns using List.reverseRecOn with
  | nil => simp [run, Stays]
  | append_singleton turns t ih =>
    rw [stays_append_singleton, ← ih, run_append]
    exact mem_published_turn _ t x

/-! ## the solutions of a run -/

/-- A solution of which the parts fit together, with the fallback user. -/
structure Sound (k : Outlook) : Prop where
  arranged : k.solution.Arranged k.solution.chainIds
  fallback : k.solution.containsUser .fallback = true

/-- The changes that a comparison finds leave the workers alone. -/
theorem users_applyAll_resync {s s' : Solution} {lists : UserId → List TaskId}
    {p p' : PublishedTasks} (h : s.Arranged lists)
    (hrecords : ∀ r ∈ records, r.taskId ≠ .placeholder)
    (hresync : resync s records p = (.ok ms, p'))
    (hall : Mutation.applyAll ms s = (.ok (), s')) (u : UserId) :
    s'.containsUser u = s.containsUser u := by
  obtain ⟨c, htracks, rfl, -⟩ := exists_tracks h.keyed hrecords hresync
  obtain ⟨s'', -, hall', -, huser, -⟩ :=
    Mutation.exists_applyAll_standing h htracks.applicable (htracks.nodup_ids h.keyed)
  rw [hall] at hall'
  cases hall'
  exact huser u

/-- Placing keeps what is sound, and only makes chains longer. -/
theorem Sound.place (h : k.Sound) : (k.turn .place).Sound ∧
    (∀ u, (k.turn .place).solution.containsUser u = k.solution.containsUser u) ∧
    k.solution.roster.Grows (k.turn .place).solution.roster := by
  obtain ⟨harr, hgrows⟩ := h.arranged.grows_placeEach k.solution.pending
  have huser : ∀ u, (k.turn .place).solution.containsUser u = k.solution.containsUser u :=
    containsUser_of_bare (bare_of_grows hgrows)
  exact ⟨⟨harr, (huser .fallback).trans h.fallback⟩, huser, hgrows⟩

/-- A comparison keeps what is sound, and the workers. -/
theorem Sound.compare (h : k.Sound) (hrecords : ∀ r ∈ records, r.taskId ≠ .placeholder) :
    (k.turn (.compare records)).Sound ∧
      ∀ u, (k.turn (.compare records)).solution.containsUser u = k.solution.containsUser u := by
  cases hresync : resync k.solution records k.published with
  | mk answer published =>
    cases answer with
    | error e =>
      rw [compare_of_error hresync]
      exact ⟨⟨h.arranged, h.fallback⟩, fun _ => rfl⟩
    | ok ms =>
      obtain ⟨-, -, s', lists', hall, harr, -⟩ :=
        exists_applyAll_resync h.arranged hrecords hresync
      have huser := users_applyAll_resync h.arranged hrecords hresync hall
      rw [compare_of_ok hresync, hall]
      exact ⟨⟨harr.self, (huser .fallback).trans h.fallback⟩, huser⟩

/-- Records that are not about the placeholder leave every solution of a run sound. -/
theorem Sound.run (h : k.Sound)
    (hturns : ∀ records, .compare records ∈ turns → ∀ r ∈ records, r.taskId ≠ .placeholder) :
    (k.run turns).Sound := by
  induction turns using List.reverseRecOn with
  | nil => exact h
  | append_singleton turns t ih =>
    have hbefore := ih fun records hmem => hturns records (List.mem_append_left _ hmem)
    rw [run_append]
    cases t with
    | compare records => exact (hbefore.compare (hturns records (by simp))).1
    | place => exact hbefore.place.1

/-! ## one round -/

/-- How a solution and the published tasks look after a round on records that fit. -/
structure Rounded (records : List TaskRecord) (k k' : Outlook) : Prop where
  sound : k'.Sound
  users : ∀ u, k'.solution.containsUser u = k.solution.containsUser u
  placed : k'.solution.unassigned = []
  ready : ∀ {x r}, firstRecord? records x = some r → r.status = .ready →
    (k'.solution.standing x).pinned = some false
  held : ∀ {x r u}, firstRecord? records x = some r → r.holder? = some u →
    (k'.solution.standing x).pinned.isSome = true ∧
      (k.solution.containsUser u = true → (k'.solution.standing x).user = some u)
  gone : ∀ {x}, x ≠ .placeholder →
    (∀ r, firstRecord? records x = some r → r.status.isTerminal = true) →
    k'.solution.containsTask x = false
  published : ∀ {x}, x ∈ k'.published ↔
    (∃ r, firstRecord? records x = some r ∧ r.holder?.isSome = true) ∨
    (x ∈ k.published ∧ ¬ ∃ r, firstRecord? records x = some r ∧ r.status = .ready ∧
      k.solution.containsTask x = true)

/-- What a round of a comparison and a placing comes to. -/
theorem rounded_round (h : k.Sound) (hrecords : ∀ r ∈ records, r.taskId ≠ .placeholder)
    (hok : (resync k.solution records k.published).1 = .ok ms) :
    Rounded records k (k.round records) := by
  have hresync : resync k.solution records k.published =
      (.ok ms, (resync k.solution records k.published).2) := Prod.ext hok rfl
  obtain ⟨-, -, s₁, lists₁, hall, h₁, hline, -⟩ :=
    exists_applyAll_resync h.arranged hrecords hresync
  obtain ⟨hcompared, huser₁⟩ := h.compare hrecords
  obtain ⟨hplaced, huser₂, hgrows⟩ := hcompared.place
  have hfree := hcompared.arranged.unassigned_placeUnassigned hcompared.fallback
  have hturn : k.turn (.compare records) = ⟨s₁, (resync k.solution records k.published).2⟩ := by
    rw [compare_of_ok hresync, hall]
  have hround : k.round records = (k.turn (.compare records)).turn .place := rfl
  have hpublished := fun x => mem_published_resync (x := x) h.arranged.keyed hrecords hresync
  rw [hround]
  rw [hturn] at hplaced huser₁ huser₂ hgrows hfree ⊢
  -- placing pins nothing and takes nothing away
  have hstanding : ∀ {x u}, _ := fun {x u} =>
    h₁.toChained.standing_of_grows (x := x) (u := u) hplaced.arranged.toChained hgrows
  refine ⟨hplaced, fun u => (huser₂ u).trans (huser₁ u), hfree, ?_, ?_, ?_, hpublished _⟩
  · intro x r hr hready
    rw [(hstanding (u := default)).1, hline.standing_eq_of_ready hr hready]
  · intro x r u hr hholder
    obtain ⟨hthere, huser⟩ := hline.of_holder? h.arranged hr hholder
    rw [(hstanding (u := u)).1]
    refine ⟨hthere, fun hu => hstanding.2 ?_⟩
    rw [huser, if_pos hu]
  · intro x hx hdone
    rw [Bool.eq_false_iff, ne_eq, containsTask_iff_standing, (hstanding (u := default)).1,
      hline.gone hx hdone]
    simp

namespace Rounded

/-- After a round every task that is ready or held is there. -/
theorem exists_task? (h : Rounded records k k') (hr : firstRecord? records x = some r)
    (hasks : r.status = .ready ∨ r.holder?.isSome = true) :
    ∃ t, k'.solution.task? x = some t := by
  rw [← containsTask_iff, containsTask_iff_standing]
  rcases hasks with hready | hholder
  · rw [h.ready hr hready]
    rfl
  · obtain ⟨u, hu⟩ := Option.isSome_iff_exists.1 hholder
    exact (h.held hr hu).1

/-- After a round every task belongs to somebody, if only to the fallback user. -/
theorem isUnassigned_eq_false (h : Rounded records k k') {task : Task}
    (htask : k'.solution.task? x = some task) : task.isUnassigned = false := by
  have hmem : task ∈ k'.solution.tasks.values := KeyedList.mem_values_iff.2 ⟨x, htask⟩
  have hno := List.filter_eq_nil_iff.1 h.placed task hmem
  simpa using hno

/-- What a record asks for after a round on the same records: the release of its task, if that is
ready and still published, or is held by a stranger. -/
theorem judge_eq_some_iff (h : Rounded records k k') (hr : firstRecord? records x = some r) :
    (judge k'.solution (k'.solution.task? x) r k'.published).2 = .ok (some m) ↔
      m = .release x ∧ ((r.status = .ready ∧ x ∈ k'.published) ∨
        ∃ u, r.holder? = some u ∧ k.solution.containsUser u = false) := by
  have hid : r.taskId = x := taskId_of_firstRecord? hr
  obtain hready | ⟨u, hholder⟩ | ⟨hready, hholder⟩ := record_cases r
  · obtain ⟨task, htask⟩ := h.exists_task? hr (.inl hready)
    have hpinned : task.pinned = false := by
      have hstanding := h.ready hr hready
      simpa [standing, htask] using hstanding
    rw [htask, judge_of_ready hready]
    by_cases hp : x ∈ k'.published <;>
      simp [judgeReady, hid, hpinned, hp, hready, holder?_of_ready hready, eq_comm (b := m)]
  · obtain ⟨task, htask⟩ := h.exists_task? hr (.inr (by simp [hholder]))
    have hready := not_ready_of_holder? hholder
    rw [htask, judge_of_holder? hholder]
    cases hu : k.solution.containsUser u with
    | true =>
      have hassigned : k'.solution.assignedUser? x = some u := (h.held hr hholder).2 hu
      simp [judgeOwned, h.users, hu, hid, hassigned, hready, hholder]
    | false =>
      simp [judgeOwned, h.users, hu, hid, h.isUnassigned_eq_false htask, hready, hholder,
        eq_comm (b := m)]
  · rw [judge_of_idle hready hholder]
    simp [hready, hholder]

/-- A ready task stays published exactly if it was published and not in the solution. -/
theorem mem_published_of_ready (h : Rounded records k k') (hr : firstRecord? records x = some r)
    (hready : r.status = .ready) :
    x ∈ k'.published ↔ x ∈ k.published ∧ k.solution.containsTask x = false := by
  rw [h.published]
  simp [hr, hready, holder?_of_ready hready]

/-- The next comparison with the same records succeeds, and asks for the release of each task that
is ready and still published, and of each that a stranger holds. -/
theorem exists_next (h : Rounded records k k') (hrecords : ∀ r ∈ records, r.taskId ≠ .placeholder) :
    ∃ ms, (resync k'.solution records k'.published).1 = .ok ms ∧
      ∀ m, m ∈ ms ↔ ∃ x r, m = .release x ∧ firstRecord? records x = some r ∧
        ((r.status = .ready ∧ x ∈ k'.published) ∨
          ∃ u, r.holder? = some u ∧ k.solution.containsUser u = false) := by
  have hkeyed := h.sound.arranged.keyed
  have hsubject : ∀ x r, firstRecord? records x = some r →
      subject? k'.solution x = k'.solution.task? x := fun x r hr =>
    subject?_eq hkeyed (taskId_of_firstRecord? hr ▸ hrecords r (List.mem_of_find?_eq_some hr))
  have hfit : AllFit k'.solution (firstRecord? records) := by
    intro x r hr hbad
    obtain ⟨task, htask⟩ := h.exists_task? hr hbad.asks
    have hnew := hbad.new
    rw [taskId_of_firstRecord? hr, hsubject x r hr, htask] at hnew
    cases hnew
  obtain ⟨ms, hok⟩ := resync_isOk_iff.2 hfit
  refine ⟨ms, hok, fun m => ?_⟩
  rw [mem_of_resync_ok hok]
  constructor
  · rintro (⟨x, r, hr, hjudge⟩ | ⟨x, -, hx, hdone⟩)
    · rw [hsubject x r hr, h.judge_eq_some_iff hr] at hjudge
      exact ⟨x, r, hjudge.1, hr, hjudge.2⟩
    · obtain ⟨hreal, hthere⟩ := (mem_remaining_start hkeyed _).1 hx
      rw [h.gone hreal hdone] at hthere
      cases hthere
  · rintro ⟨x, r, hm, hr, hreason⟩
    refine .inl ⟨x, r, hr, ?_⟩
    rw [hsubject x r hr, h.judge_eq_some_iff hr]
    exact ⟨hm, hreason⟩

end Rounded

/-- Rounds on the same records, as often as given. -/
def rounds (k : Outlook) (records : List TaskRecord) : Nat → Outlook
  | 0 => k
  | n + 1 => (k.rounds records n).round records

/-- If a comparison succeeds, so does the one after each round on its records. -/
theorem rounded_rounds (h : k.Sound) (hrecords : ∀ r ∈ records, r.taskId ≠ .placeholder)
    (hok : (resync k.solution records k.published).1 = .ok ms) (n : Nat) :
    Rounded records (k.rounds records n) (k.rounds records (n + 1)) ∧
      ∀ u, (k.rounds records n).solution.containsUser u = k.solution.containsUser u := by
  induction n with
  | zero => exact ⟨rounded_round h hrecords hok, fun _ => rfl⟩
  | succ n ih =>
    obtain ⟨hround, huser⟩ := ih
    obtain ⟨ms', hok', -⟩ := hround.exists_next hrecords
    exact ⟨rounded_round hround.sound hrecords hok',
      fun u => (hround.users u).trans (huser u)⟩

/-- A ready task can stay published over the first of the rounds only, in which it is added. -/
theorem mem_published_rounds_of_ready (h : k.Sound)
    (hrecords : ∀ r ∈ records, r.taskId ≠ .placeholder)
    (hok : (resync k.solution records k.published).1 = .ok ms) (n : Nat)
    (hr : firstRecord? records x = some r) (hready : r.status = .ready) :
    x ∈ (k.rounds records (n + 1)).published ↔
      n = 0 ∧ x ∈ k.published ∧ k.solution.containsTask x = false := by
  rw [(rounded_rounds h hrecords hok n).1.mem_published_of_ready hr hready]
  cases n with
  | zero => exact ⟨fun hkept => ⟨rfl, hkept⟩, And.right⟩
  | succ n =>
    have hbefore := (rounded_rounds h hrecords hok n).1
    have hthere := containsTask_iff.2 (hbefore.exists_task? hr (.inl hready))
    simp [hthere]

end Outlook

end ChainPlanner
