import ChainPlanner.Proofs.Build.Built
import ChainPlanner.Proofs.Resync.Soundness

/-!
# ChainPlanner.Proofs.Build.Agreement

When a comparison with later records leads to the plan that a build from these records would give.
Both take the holder of a task from its record, so they can only differ about a task that is ready
again.  A build leaves it in no chain, whereas a comparison takes it out of its chain only if it
looks claimed, that is, if it is pinned or published.

The build before marked a task in this way if its record was of a task in progress, or stored a
placement that is pinned or published.  A record that shows none of it is `Unmarked`, and
`warm_agrees_with_cold_iff` says that the unmarked records of tasks that are ready again
(`Overlooked`) are all that a build and a comparison differ about.
-/

namespace ChainPlanner.Assembly

open Solution Draft

variable {before after records : List TaskRecord} {directory : List DirectoryUser}
  {s s₀ s₁ c : Solution} {p : PublishedTasks} {r : TaskRecord} {u : UserId} {x : TaskId}

/-! ## records that leave no mark -/

/-- A record that shows neither that its task is worked on nor that a pinned or published placement
of it has been stored. -/
def Unmarked (r : TaskRecord) : Prop :=
  r.status ≠ .inProgress ∧ ∀ pp ∈ r.planningParameters, pp.pinned = false ∧ pp.published = false

instance (r : TaskRecord) : Decidable (Unmarked r) := inferInstanceAs (Decidable (_ ∧ _))

/-- The tasks of such records are the ones that a build does not pin. -/
theorem not_pinned_iff : (Draft.standing r u).2.1 = false ↔ Unmarked r := by
  rw [Draft.standing, Unmarked]
  cases r.planningParameters with
  | none => simp
  | some pp => simp [and_assoc, and_comm]

/-- A published task is pinned. -/
theorem not_published_of_not_pinned (h : (Draft.standing r u).2.1 = false) :
    (Draft.standing r u).1 = false := by
  rw [Draft.standing] at h ⊢
  cases hpp : r.planningParameters with
  | none => simpa [hpp] using h
  | some pp =>
    simp only [hpp, Bool.or_eq_false_iff] at h ⊢
    exact h.1

/-- Records of different tasks other than the placeholder that can be read, each ready or held by
somebody. -/
structure Snapshot (records : List TaskRecord) : Prop where
  nodup : (records.map (·.taskId)).Nodup
  real : ∀ r ∈ records, r.taskId ≠ .placeholder
  valid : ∀ r ∈ records, 0 ≤ r.priority.toInt ∧ r.priority.toInt ≤ 10
  live : ∀ r ∈ records, r.status = .ready ∨ ∃ u, r.holder? = some u

/-- The earlier record of a task says that a known worker holds it, but leaves no mark, and the
later one says that the task is ready. -/
def Overlooked (directory : List DirectoryUser) (before after : List TaskRecord) (x : TaskId) :
    Prop :=
  ∃ r₀ ∈ before, ∃ r₁ ∈ after, r₀.taskId = x ∧ r₁.taskId = x ∧ r₁.status = .ready ∧ Unmarked r₀ ∧
    ∃ u ∈ r₀.holder?, u = .fallback ∨ ∃ w ∈ directory, w.id = u

instance (directory : List DirectoryUser) (before after : List TaskRecord) (x : TaskId) :
    Decidable (Overlooked directory before after x) :=
  inferInstanceAs (Decidable (∃ r₀ ∈ before, _))

namespace Snapshot

/-- A task has one record. -/
theorem unique (h : Snapshot records) {r r' : TaskRecord} (hr : r ∈ records) (hr' : r' ∈ records)
    (hid : r.taskId = r'.taskId) : r = r' :=
  List.inj_on_of_nodup_map h.nodup hr hr' hid

/-- Every record of a snapshot can be read. -/
theorem readable (h : Snapshot records) : ∀ r ∈ records, ∃ t, r.task? = .ok t := fun r hr =>
  exists_task?_iff.2 (h.valid r hr)

end Snapshot

/-! ## the solution before -/

/-- What a comparison would leave with a worker of the solution that has just been built: the tasks
of unmarked records that the worker holds. -/
theorem Built.unclaimed_iff (h : Built before directory s₀) (hbefore : Snapshot before)
    (hp : ∀ x, x ∈ p ↔ ∃ r ∈ before, r.taskId = x ∧ Exposed r) (hx : x ≠ .placeholder) :
    ((s₀.standing x).pinned = some false ∧ x ∉ p) ∧ (s₀.standing x).user = some u ↔
      ∃ r ∈ before, r.taskId = x ∧ Unmarked r ∧ r.holder? = some u ∧ s₀.containsUser u = true := by
  constructor
  · rintro ⟨⟨hpinned, -⟩, huser⟩
    rcases h.exists_record (x := x) (by simp [hpinned]) with rfl | ⟨r, hr, -, rfl⟩
    · exact absurd rfl hx
    · rcases hbefore.live r hr with hready | ⟨v, hholder⟩
      · simp [h.ready r hr hready] at huser
      · rw [h.held r hr v hholder] at hpinned huser
        split at hpinned
        · next hv =>
          rw [if_pos hv] at huser
          cases huser
          exact ⟨r, hr, rfl, not_pinned_iff.1 (Option.some.inj hpinned), hholder, hv⟩
        · next hv => simp [hv] at huser
  · rintro ⟨r, hr, rfl, hunmarked, hholder, hu⟩
    have hpinned := not_pinned_iff (u := u).2 hunmarked
    have hstanding := h.held r hr u hholder
    rw [if_pos hu, hpinned] at hstanding
    refine ⟨⟨congrArg Standing.pinned hstanding, fun hmem => ?_⟩, congrArg Standing.user hstanding⟩
    -- its own record is the only one that could have entered it into the published tasks
    obtain ⟨r', hr', hid, v, hholder', hpublished⟩ := (hp _).1 hmem
    cases hbefore.unique hr' hr hid
    rw [hholder] at hholder'
    cases hholder'
    rw [not_published_of_not_pinned hpinned] at hpublished
    cases hpublished

/-! ## the two solutions afterwards -/

/-- What has been built from earlier records and compared with later ones, and what has been built
from the later ones. -/
structure WarmAndCold (before after : List TaskRecord) (directory : List DirectoryUser)
    (p : PublishedTasks) (s₀ s₁ c : Solution) : Prop where
  earlier : Snapshot before
  later : Snapshot after
  start : Built before directory s₀
  published : ∀ x, x ∈ p ↔ ∃ r ∈ before, r.taskId = x ∧ Exposed r
  warm : InLine s₀ after p s₁
  placeholder : s₁.standing .placeholder = s₀.standing .placeholder
  cold : Built after directory c

namespace WarmAndCold

/-- Both solutions have the same workers. -/
theorem containsUser_eq (h : WarmAndCold before after directory p s₀ s₁ c) (u : UserId) :
    s₀.containsUser u = c.containsUser u :=
  Bool.eq_iff_iff.2 ((h.start.users u).trans (h.cold.users u).symm)

/-- The placeholder stands the same in both solutions. -/
theorem standing_placeholder (h : WarmAndCold before after directory p s₀ s₁ c) :
    s₁.standing .placeholder = c.standing .placeholder := by
  rw [h.placeholder, h.start.placeholder, h.cold.placeholder]

/-- A task that no record names any more is gone. -/
theorem standing_of_gone (h : WarmAndCold before after directory p s₀ s₁ c)
    (hx : x ≠ .placeholder) (hno : ∀ r ∈ after, r.taskId ≠ x) : s₁.standing x = c.standing x := by
  have hnone : firstRecord? after x = none := by simpa [firstRecord?] using hno
  rw [h.warm.gone hx (by simp [hnone]), h.cold.absent x hx fun r hr _ => hno r hr]

/-- A task that somebody holds is there, and in the chain of the holder if the holder is known. -/
theorem standing_of_held (h : WarmAndCold before after directory p s₀ s₁ c) (hr : r ∈ after)
    (hholder : r.holder? = some u) :
    (s₁.standing r.taskId).pinned.isSome = (c.standing r.taskId).pinned.isSome ∧
      (s₁.standing r.taskId).user = (c.standing r.taskId).user := by
  obtain ⟨hthere, huser⟩ :=
    h.warm.of_holder? h.start.arranged (firstRecord?_of_mem h.later.nodup hr) hholder
  rw [hthere, huser, h.cold.held r hr u hholder, h.containsUser_eq]
  split <;> exact ⟨rfl, rfl⟩

/-- A task that is ready again is where it was if it looks unclaimed, and otherwise in no chain. -/
theorem standing_of_ready (h : WarmAndCold before after directory p s₀ s₁ c) (hr : r ∈ after)
    (hready : r.status = .ready) :
    s₁.standing r.taskId = ⟨some false, if (s₀.standing r.taskId).pinned = some false ∧
      r.taskId ∉ p then (s₀.standing r.taskId).user else none⟩ ∧
      c.standing r.taskId = ⟨some false, none⟩ :=
  ⟨h.warm.standing_eq_of_ready (firstRecord?_of_mem h.later.nodup hr) hready,
    h.cold.ready r hr hready⟩

/-- The same tasks are there. -/
theorem containsTask_eq (h : WarmAndCold before after directory p s₀ s₁ c) (x : TaskId) :
    s₁.containsTask x = c.containsTask x := by
  rw [Bool.eq_iff_iff, containsTask_iff_standing, containsTask_iff_standing, ← Bool.eq_iff_iff]
  by_cases hx : x = .placeholder
  · rw [hx, h.standing_placeholder]
  by_cases hrecord : ∃ r ∈ after, r.taskId = x
  · obtain ⟨r, hr, rfl⟩ := hrecord
    rcases h.later.live r hr with hready | ⟨u, hholder⟩
    · rw [(h.standing_of_ready hr hready).1, (h.standing_of_ready hr hready).2]
    · exact (h.standing_of_held hr hholder).1
  · rw [h.standing_of_gone hx fun r hr hid => hrecord ⟨r, hr, hid⟩]

/-- A task with an overlooked record has been left with its worker. -/
theorem left_of_overlooked (h : WarmAndCold before after directory p s₀ s₁ c)
    (hx : Overlooked directory before after x) :
    ∃ u, s₀.assignedUser? x = some u ∧ s₁.assignedUser? x = some u ∧ c.assignedUser? x = none := by
  obtain ⟨r₀, hr₀, r₁, hr₁, hid₀, rfl, hready, hunmarked, u, hholder, hu⟩ := hx
  obtain ⟨hwarm, hcold⟩ := h.standing_of_ready hr₁ hready
  obtain ⟨hunclaimed, huser⟩ := (h.start.unclaimed_iff h.earlier h.published
    (h.later.real r₁ hr₁)).2 ⟨r₀, hr₀, hid₀, hunmarked, hholder, (h.start.users u).2 hu⟩
  rw [if_pos hunclaimed, huser] at hwarm
  exact ⟨u, huser, congrArg Standing.user hwarm, congrArg Standing.user hcold⟩

/-- Every other task is in the same chain. -/
theorem assignedUser?_eq (h : WarmAndCold before after directory p s₀ s₁ c)
    (hx : ¬ Overlooked directory before after x) : s₁.assignedUser? x = c.assignedUser? x := by
  show (s₁.standing x).user = (c.standing x).user
  by_cases hplaceholder : x = .placeholder
  · rw [hplaceholder, h.standing_placeholder]
  by_cases hrecord : ∃ r ∈ after, r.taskId = x
  · obtain ⟨r₁, hr₁, rfl⟩ := hrecord
    rcases h.later.live r₁ hr₁ with hready | ⟨u, hholder⟩
    · obtain ⟨hwarm, hcold⟩ := h.standing_of_ready hr₁ hready
      rw [hwarm, hcold]
      split
      · next hunclaimed =>
        refine Option.eq_none_iff_forall_ne_some.2 fun u huser => hx ?_
        obtain ⟨r₀, hr₀, hid₀, hunmarked, hholder, hu⟩ := (h.start.unclaimed_iff h.earlier
          h.published hplaceholder).1 ⟨hunclaimed, huser⟩
        exact ⟨r₀, hr₀, r₁, hr₁, hid₀, rfl, hready, hunmarked, u, hholder, (h.start.users u).1 hu⟩
      · rfl
    · exact (h.standing_of_held hr₁ hholder).2
  · rw [h.standing_of_gone hplaceholder fun r hr hid => hrecord ⟨r, hr, hid⟩]

end WarmAndCold

/-! ## agreement -/

/-- A build from earlier records, a comparison of its solution with later records and a build from
the later ones all succeed.  The comparison leads to the tasks of the later build, each in the same
chain, except for the overlooked ones: these stay with their worker, whereas the later build has
them in no chain. -/
theorem warm_agrees_with_cold_iff (hbefore : Snapshot before) (hafter : Snapshot after)
    (directory : List DirectoryUser) :
    ∃ s₀ p ms p₁ s₁ c p₂, build before directory ∅ = (.ok s₀, p) ∧
      resync s₀ after p = (.ok ms, p₁) ∧ Mutation.applyAll ms s₀ = (.ok (), s₁) ∧
      build after directory ∅ = (.ok c, p₂) ∧
      (∀ x, s₁.containsTask x = c.containsTask x) ∧
      (∀ x, s₁.assignedUser? x = c.assignedUser? x ↔ ¬ Overlooked directory before after x) ∧
      ∀ x, Overlooked directory before after x → ∃ u, s₀.assignedUser? x = some u ∧
        s₁.assignedUser? x = some u ∧ c.assignedUser? x = none := by
  obtain ⟨s₀, hs₀⟩ := exists_build hbefore.nodup hbefore.real hbefore.readable directory ∅
  obtain ⟨c, hc⟩ := exists_build hafter.nodup hafter.real hafter.readable directory ∅
  obtain ⟨hstart, hpublished⟩ := built_of_build hs₀
  obtain ⟨ms, p₁, hresync⟩ := exists_resync_ok s₀ (build before directory ∅).2 hafter.readable
  obtain ⟨-, hreal, s₁, -, hall, -, hline, hsame⟩ :=
    exists_applyAll_resync hstart.arranged hafter.real hresync
  have h : WarmAndCold before after directory (build before directory ∅).2 s₀ s₁ c := {
    earlier := hbefore
    later := hafter
    start := hstart
    published := fun x => by rw [hpublished, or_iff_right (SortedSet.not_mem_empty x)]
    warm := hline
    placeholder := hsame _ hreal
    cold := (built_of_build hc).1 }
  refine ⟨s₀, _, ms, p₁, s₁, c, _, Prod.ext hs₀ rfl, hresync, hall, Prod.ext hc rfl,
    h.containsTask_eq, fun x => ⟨fun heq hx => ?_, h.assignedUser?_eq⟩,
    fun x hx => h.left_of_overlooked hx⟩
  obtain ⟨u, -, hwarm, hcold⟩ := h.left_of_overlooked hx
  rw [hwarm, hcold] at heq
  cases heq

/-- Two tasks of a worker are ready again.  The first was only claimed and stays with the worker;
the second was worked on and is released. -/
theorem warm_agrees_with_cold_iff_two_tasks :
    let before := [recordOf 1 .reserved (some ⟨"john"⟩), recordOf 2 .inProgress (some ⟨"john"⟩)]
    let after := [recordOf 1 .ready none, recordOf 2 .ready none]
    let directory : List DirectoryUser := [⟨⟨"john"⟩, []⟩]
    Snapshot before ∧ Snapshot after ∧ ∃ s₀ p ms p₁ s₁ c p₂,
      build before directory ∅ = (.ok s₀, p) ∧ resync s₀ after p = (.ok ms, p₁) ∧
      Mutation.applyAll ms s₀ = (.ok (), s₁) ∧ build after directory ∅ = (.ok c, p₂) ∧
      s₁.assignedUser? ⟨1⟩ = some ⟨"john"⟩ ∧ c.assignedUser? ⟨1⟩ = none ∧
      s₁.assignedUser? ⟨2⟩ = c.assignedUser? ⟨2⟩ := by
  intro before after directory
  have hbefore : Snapshot before :=
    ⟨by decide, by decide +kernel, by decide +kernel, by
      simp only [before, List.forall_mem_cons]
      exact ⟨.inr ⟨⟨"john"⟩, rfl⟩, .inr ⟨⟨"john"⟩, rfl⟩, by simp⟩⟩
  have hafter : Snapshot after :=
    ⟨by decide, by decide +kernel, by decide +kernel, by
      simp only [after, List.forall_mem_cons]
      exact ⟨.inl rfl, .inl rfl, by simp⟩⟩
  obtain ⟨s₀, p, ms, p₁, s₁, c, p₂, hs₀, hresync, hall, hc, -, hiff, hleft⟩ :=
    warm_agrees_with_cold_iff hbefore hafter directory
  have hfirst : Overlooked directory before after ⟨1⟩ := by decide +kernel
  have hsecond : ¬ Overlooked directory before after ⟨2⟩ := by decide +kernel
  obtain ⟨u, hu, hwarm, hcold⟩ := hleft ⟨1⟩ hfirst
  have hstart : (builtOf before directory ∅).assignedUser? ⟨1⟩ = some ⟨"john"⟩ := by
    decide +kernel
  rw [builtOf, hs₀] at hstart
  exact ⟨hbefore, hafter, s₀, p, ms, p₁, s₁, c, p₂, hs₀, hresync, hall, hc,
    hwarm.trans (hu.symm.trans hstart), hcold, (hiff ⟨2⟩).2 hsecond⟩

/-- A task that was claimed and is ready again is not released: the comparison finds nothing to
do, and the task stays with the worker, whereas a build from the later records has it in no
chain. -/
theorem claimed_task_back_to_ready_not_released :
    let before := [recordOf 1 .reserved (some ⟨"john"⟩)]
    let after := [recordOf 1 .ready none]
    let directory : List DirectoryUser := [⟨⟨"john"⟩, []⟩]
    let s₀ := builtOf before directory ∅
    let c := builtOf after directory ∅
    Snapshot before ∧ Snapshot after ∧ build before directory ∅ = (.ok s₀, ∅) ∧
      resync s₀ after ∅ = (.ok [], ∅) ∧ Mutation.applyAll [] s₀ = (.ok (), s₀) ∧
      build after directory ∅ = (.ok c, ∅) ∧ s₀.assignedUser? ⟨1⟩ = some ⟨"john"⟩ ∧
      c.assignedUser? ⟨1⟩ = none := by
  intro before after directory s₀ c
  have hbefore : Snapshot before := ⟨by decide, by decide +kernel, by decide +kernel,
    List.forall_mem_singleton.2 (.inr ⟨⟨"john"⟩, rfl⟩)⟩
  have hafter : Snapshot after := ⟨by decide, by decide +kernel, by decide +kernel,
    List.forall_mem_singleton.2 (.inl rfl)⟩
  exact ⟨hbefore, hafter, by decide +kernel, by decide +kernel, rfl, by decide +kernel,
    by decide +kernel, by decide +kernel⟩

end ChainPlanner.Assembly
