import ChainPlanner.Proofs.Chain.Validation
import ChainPlanner.Proofs.Publishing.Follows
import ChainPlanner.Proofs.Publishing.Numbering

/-!
# ChainPlanner.Proofs.Publishing.Exposure

Each task is published for the first time once, until a comparison forgets it.

A plan publishes what was not among the published tasks when its job was handed over.  So a task
that one plan has published can be in a later plan only if it was missing from the published tasks
at the later hand-over, although the outcome of the first plan had been entered before.  Only a
comparison takes a task out of them.

`Flow` says what one event does to the log, to the jobs on their way and to the published tasks.
Along the events that follow a report, `Guarded` is kept: a task that the report has entered is
still published or a comparison has taken it out, and the job on its way, which is the one handed
over last (`lastHanded?`), knows the task as published or was handed over after that.
-/

namespace ChainPlanner

open Note

namespace Coordination

variable {c : Coordination} {s : Solution} {isOpen : Bool} {event : BestSolution}
  {outcome : PublishOutcome} {job : PublishJob} {x : TaskId}

/-- A job that is handed over knows the published tasks of that moment. -/
theorem published_handOver (c : Coordination) (s : Solution) (isOpen : Bool) :
    (c.handOver s isOpen).1.published = c.published ∧
      ∀ job, (c.handOver s isOpen).2 = some job → job.published = c.published := by
  cases isOpen with
  | true =>
    refine ⟨rfl, ?_⟩
    rintro job ⟨⟩
    rfl
  | false => exact ⟨rfl, nofun⟩

/-- A solution that arrives does not change the published tasks, and a job carries them as they are.
-/
theorem published_bestSolution (c : Coordination) (event : BestSolution) (isOpen : Bool) :
    (c.bestSolution event isOpen).1.published = c.published ∧
      ∀ job, (c.bestSolution event isOpen).2 = some job → job.published = c.published := by
  unfold bestSolution
  split
  · dsimp only
    split
    · exact ⟨rfl, nofun⟩
    · exact published_handOver _ _ _
  · exact ⟨rfl, nofun⟩

/-- A report that is good enters the tasks of its outcome. -/
theorem mem_merged_iff : x ∈ c.merged outcome ↔
    x ∈ c.published ∨ ((∃ n, outcome.result = .ok n) ∧ x ∈ outcome.newlyPublished) := by
  rw [merged]
  cases outcome.result with
  | ok n => simp [SortedSet.mem_insertMany, or_comm]
  | error e => simp

/-- It does so before the next job is handed over. -/
theorem published_publishProcessed (c : Coordination) (outcome : PublishOutcome) (isOpen : Bool) :
    (c.publishProcessed outcome isOpen).1.published = c.merged outcome ∧
      ∀ job, (c.publishProcessed outcome isOpen).2 = some job →
        job.published = c.merged outcome := by
  rw [publishProcessed_eq]
  cases c.next with
  | none => exact ⟨rfl, nofun⟩
  | some s => exact published_handOver _ s isOpen

end Coordination

namespace Note

variable {log silent : List Note} {job : PublishJob}

/-- The job that was handed over last. -/
def lastHanded? (log : List Note) : Option PublishJob :=
  (log.filterMap fun | handed job => some job | _ => none).getLast?

/-- What follows in the log hands over at most one job, and that at its end. -/
theorem lastHanded?_append (hsilent : ∀ job, handed job ∉ silent) (next : Option PublishJob) :
    lastHanded? (log ++ (silent ++ (next.map handed).toList)) = next.or (lastHanded? log) := by
  have hnone : (silent.filterMap fun | handed job => some job | _ => none) = [] := by
    refine List.filterMap_eq_nil_iff.2 fun note hnote => ?_
    cases note with
    | handed job => exact absurd hnote (hsilent job)
    | arrived s => rfl
    | reported => rfl
  rw [lastHanded?, List.filterMap_append, List.filterMap_append, hnone, List.nil_append]
  cases next with
  | none => simp [lastHanded?]
  | some job => simp

end Note

namespace Desk

variable {d d' : Desk} {event : DeskEvent} {events : List DeskEvent} {silent : List Note}
  {next : Option PublishJob} {job : PublishJob} {plan : PublishPlan} {gate : Option Nat}
  {x : TaskId}

/-! ## one event -/

/-- Sending a job does not touch the shared state. -/
theorem coordination_dispatch (d : Desk) (next : Option PublishJob) :
    (d.dispatch next).coordination = d.coordination := by cases next <;> rfl

/-- Sending a job is noted. -/
theorem log_dispatch (d : Desk) (next : Option PublishJob) :
    (d.dispatch next).log = d.log ++ (next.map handed).toList := by
  cases next with
  | none => exact (List.append_nil d.log).symm
  | some job => rfl

/-- Sending a job does not disturb the publisher at its work. -/
theorem stage_dispatch (d : Desk) (next : Option PublishJob) :
    (d.dispatch next).publisher.stage = d.publisher.stage := by
  cases next with
  | none => rfl
  | some job => simp only [dispatch, Publisher.send]; split <;> rfl

/-- Sending a job does not change how plans are made. -/
theorem plan_dispatch (d : Desk) (next : Option PublishJob) :
    (d.dispatch next).publisher.plan = d.publisher.plan := by
  cases next with
  | none => rfl
  | some job => simp only [dispatch, Publisher.send]; split <;> rfl

/-- What one event does to the log, to the jobs on their way and to the published tasks.  It hands
over at most one job, at its end. -/
structure Flow (d d' : Desk) (event : DeskEvent) (notes : List Note)
    (next : Option PublishJob) : Prop where
  log : d'.log = d.log ++ (notes ++ (next.map handed).toList)
  silent : ∀ job, .handed job ∉ notes
  arrived : ∀ s, .arrived s ∈ notes → ∃ best, event = .best best ∧ best.solution = s
  plan : d'.publisher.plan = d.publisher.plan
  sent : ∀ job ∈ d'.publisher.jobs, job ∈ d.publisher.jobs ∨ next = some job
  queued : d'.publisher.isOpen = true → ∀ job, next = some job → job ∈ d'.publisher.jobs
  snapshot : ∀ job, next = some job → job.published = d'.coordination.published
  applied : ∀ plan gate, d'.publisher.stage = .applying plan gate →
    (∃ gate, d.publisher.stage = .applying plan gate) ∨
      ∃ job ∈ d.publisher.jobs, plan = d.publisher.plan job
  kept : (∀ records, event ≠ .compare records) →
    ∀ x ∈ d.coordination.published, x ∈ d'.coordination.published
  comparing : ∀ records, event = .compare records → next = none

/-- An event after which no job is handed over. -/
theorem Flow.of_silent (hlog : d'.log = d.log) (hplan : d'.publisher.plan = d.publisher.plan)
    (hjobs : d'.publisher.jobs ⊆ d.publisher.jobs)
    (happlied : ∀ plan gate, d'.publisher.stage = .applying plan gate →
      (∃ gate, d.publisher.stage = .applying plan gate) ∨
        ∃ job ∈ d.publisher.jobs, plan = d.publisher.plan job)
    (hkept : (∀ records, event ≠ .compare records) →
      ∀ x ∈ d.coordination.published, x ∈ d'.coordination.published) :
    Flow d d' event [] none where
  log := by simp [hlog]
  silent := by simp
  arrived := by simp
  plan := hplan
  sent _ hjob := .inl (hjobs hjob)
  queued := nofun
  snapshot := nofun
  applied := happlied
  kept := hkept
  comparing _ _ := rfl

/-- An event that does nothing to the publisher. -/
theorem Flow.of_shared (hlog : d'.log = d.log) (hpublisher : d'.publisher = d.publisher)
    (hkept : (∀ records, event ≠ .compare records) →
      ∀ x ∈ d.coordination.published, x ∈ d'.coordination.published) :
    Flow d d' event [] none :=
  .of_silent hlog (by rw [hpublisher]) (by rw [hpublisher]; exact List.Subset.refl _)
    (fun plan gate hstage => .inl ⟨gate, hpublisher ▸ hstage⟩) hkept

/-- An event after which a job may be handed over. -/
theorem Flow.of_dispatch (hlog : d'.log = d.log ++ silent) (hsilent : ∀ job, .handed job ∉ silent)
    (harrived : ∀ s, .arrived s ∈ silent → ∃ best, event = .best best ∧ best.solution = s)
    (hplan : d'.publisher.plan = d.publisher.plan) (hjobs : d'.publisher.jobs = d.publisher.jobs)
    (hstage : ∀ plan gate, d'.publisher.stage = .applying plan gate →
      d.publisher.stage = .applying plan gate)
    (hnext : ∀ job, next = some job → job.published = d'.coordination.published)
    (hkept : ∀ x ∈ d.coordination.published, x ∈ d'.coordination.published)
    (hcompare : ∀ records, event ≠ .compare records) :
    Flow d (d'.dispatch next) event silent next where
  log := by rw [log_dispatch, hlog, List.append_assoc]
  silent := hsilent
  arrived := harrived
  plan := by rw [plan_dispatch, hplan]
  sent job hjob := by
    rw [← hjobs]
    cases next with
    | none => exact .inl hjob
    | some job' =>
      simp only [dispatch, Publisher.send] at hjob
      split at hjob
      · simpa [eq_comm] using hjob
      · exact .inl hjob
  queued hopen job hjob := by
    subst hjob
    simp only [dispatch, Publisher.isOpen_send] at hopen
    simp [dispatch, Publisher.send, hopen]
  snapshot job hjob := by rw [coordination_dispatch, hnext job hjob]
  applied plan gate hplan := .inl ⟨gate, hstage plan gate (by rw [← hplan, stage_dispatch])⟩
  kept _ := by
    rw [coordination_dispatch]
    exact hkept
  comparing records he := absurd he (hcompare records)

/-- A report of the optimizer may hand a job over. -/
theorem exists_flow_best (d : Desk) (best : BestSolution) :
    ∃ silent, Flow d (d.step (.best best)) (.best best) silent
      (d.coordination.bestSolution best d.publisher.isOpen).2 := by
  obtain ⟨hsame, hjob⟩ := d.coordination.published_bestSolution best d.publisher.isOpen
  have hlog : ∃ silent, (if best.isPublishable then d.log ++ [.arrived best.solution] else d.log) =
      d.log ++ silent ∧ (∀ job, .handed job ∉ silent) ∧
        ∀ s, .arrived s ∈ silent → best.solution = s := by
    split
    · exact ⟨[.arrived best.solution], rfl, by simp, by simp [eq_comm]⟩
    · exact ⟨[], by simp, by simp, by simp⟩
  obtain ⟨silent, hlog, hsilent, harrived⟩ := hlog
  have hflow : Flow d (Desk.dispatch ⟨(d.coordination.bestSolution best d.publisher.isOpen).1,
      d.publisher, d.log ++ silent⟩ (d.coordination.bestSolution best d.publisher.isOpen).2)
      (.best best) silent (d.coordination.bestSolution best d.publisher.isOpen).2 :=
    .of_dispatch rfl hsilent (fun s hs => ⟨best, rfl, harrived s hs⟩) rfl rfl (fun _ _ => id)
      (fun job hnext => by rw [hjob job hnext, hsame]) (fun x hx => by rwa [hsame]) nofun
  rw [← hlog] at hflow
  exact ⟨silent, hflow⟩

/-- When the publisher reports, the solution that waits is handed over, if there is one. -/
theorem step_report (hstage : d.publisher.stage = .applying plan gate)
    (answer : Except RuntimeError Unit) : d.step (.report answer) = Desk.dispatch
      ⟨(d.coordination.publishProcessed (Publisher.outcome plan answer) true).1,
        { d.publisher with stage := .idle }, d.log ++ [.reported]⟩
      (d.coordination.publishProcessed (Publisher.outcome plan answer) true).2 := by
  rw [step, hstage]
  rfl

/-- A report enters its outcome, and a job that is handed over at once knows it. -/
theorem flow_report (hstage : d.publisher.stage = .applying plan gate)
    (answer : Except RuntimeError Unit) :
    (d.step (.report answer)).coordination.published =
        d.coordination.merged (Publisher.outcome plan answer) ∧
      (d.step (.report answer)).publisher.stage = .idle ∧
      Flow d (d.step (.report answer)) (.report answer) [.reported]
        (d.coordination.publishProcessed (Publisher.outcome plan answer) true).2 := by
  obtain ⟨hmerged, hjob⟩ :=
    d.coordination.published_publishProcessed (Publisher.outcome plan answer) true
  rw [step_report hstage]
  refine ⟨by rw [coordination_dispatch, hmerged], stage_dispatch _ _, .of_dispatch rfl (by simp)
    (by simp) rfl rfl nofun (fun job hnext => ?_) (fun x hx => ?_) nofun⟩
  · rw [hjob job hnext, hmerged]
  · rw [hmerged, Coordination.mem_merged_iff]
    exact .inl hx

/-- A publisher that takes a job hands nothing over. -/
theorem flow_receive (d : Desk) (gate : Option Nat) :
    Flow d (d.step (.receive gate)) (.receive gate) [] none := by
  rw [step]
  split
  · next job jobs hstage hjobs =>
    refine .of_silent rfl rfl ?_ ?_ fun _ _ hx => hx
    · rw [hjobs]
      exact List.subset_cons_self _ _
    · rintro plan gate' ⟨⟩
      exact .inr ⟨job, hjobs ▸ List.mem_cons_self, rfl⟩
  · exact .of_shared rfl rfl fun _ _ hx => hx

/-- Every event is a flow of solutions, with one job handed over at most. -/
theorem exists_flow (d : Desk) (event : DeskEvent) :
    ∃ silent next, Flow d (d.step event) event silent next := by
  cases event with
  | best best =>
    obtain ⟨silent, hflow⟩ := d.exists_flow_best best
    exact ⟨silent, _, hflow⟩
  | compare records => exact ⟨[], none, .of_shared rfl rfl fun h => absurd rfl (h records)⟩
  | submitted ms => exact ⟨[], none, .of_shared rfl rfl fun _ _ hx => hx⟩
  | recover published =>
    exact ⟨[], none, .of_shared rfl rfl fun _ _ hx => SortedSet.mem_union.2 (.inr hx)⟩
  | start =>
    rw [step]
    split
    · refine ⟨[], none, .of_silent rfl rfl (List.Subset.refl _) ?_ fun _ _ hx => hx⟩
      rintro plan gate ⟨⟩
    · exact ⟨[], none, .of_shared rfl rfl fun _ _ hx => hx⟩
  | receive gate => exact ⟨[], none, d.flow_receive gate⟩
  | report answer =>
    by_cases hstage : ∃ plan gate, d.publisher.stage = .applying plan gate
    · obtain ⟨plan, gate, hstage⟩ := hstage
      exact ⟨_, _, (flow_report hstage answer).2.2⟩
    · have hsame : d.step (.report answer) = d := by
        rw [step]
        split
        · next plan gate hplan => exact absurd ⟨plan, gate, hplan⟩ hstage
        · rfl
      exact ⟨[], none, .of_shared (by rw [hsame]) (by rw [hsame]) fun _ x hx => by rwa [hsame]⟩

/-! ## what has been handed over -/

/-- The last event comes last. -/
theorem run_snoc (d : Desk) (events : List DeskEvent) (event : DeskEvent) :
    d.run (events ++ [event]) = (d.run events).step event := by
  rw [run_append]
  rfl

/-- The settings of the publisher stay what they are. -/
theorem plan_run (d : Desk) (events : List DeskEvent) :
    (d.run events).publisher.plan = d.publisher.plan := by
  induction events generalizing d with
  | nil => rfl
  | cons event events ih =>
    obtain ⟨silent, next, hflow⟩ := d.exists_flow event
    exact (ih (d.step event)).trans hflow.plan

/-- Whatever arrives has been reported by the optimizer. -/
theorem exists_best_of_arrived {s : Solution} (hs : .arrived s ∈ (d.run events).log)
    (hd : d.log = []) : ∃ best, .best best ∈ events ∧ best.solution = s := by
  induction events using List.reverseRecOn with
  | nil =>
    rw [show d.run [] = d from rfl, hd] at hs
    cases hs
  | append_singleton events event ih =>
    obtain ⟨silent, next, hflow⟩ := (d.run events).exists_flow event
    rw [run_snoc, hflow.log, List.mem_append, List.mem_append] at hs
    rcases hs with hs | hs | hs
    · obtain ⟨best, hbest, hsolution⟩ := ih hs
      exact ⟨best, List.mem_append_left _ hbest, hsolution⟩
    · obtain ⟨best, rfl, hsolution⟩ := hflow.arrived s hs
      exact ⟨best, by simp, hsolution⟩
    · cases next <;> simp at hs

/-- So has what is handed over. -/
theorem exists_best_of_handed {config : Config}
    (hjob : .handed job ∈ ((initial config).run events).log) :
    ∃ best, .best best ∈ events ∧ best.solution = job.solution := by
  have htallied := (tallied_initial config).run events
  have hhanded : job.solution ∈ handovers ((initial config).run events).log :=
    List.mem_filterMap.2 ⟨_, hjob, rfl⟩
  obtain ⟨note, hnote, hsolution⟩ := List.mem_filterMap.1 (htallied.sublist.subset hhanded)
  have harrived : note = .arrived job.solution := by
    cases note with
    | arrived s => exact congrArg _ (Option.some.inj hsolution)
    | handed job => cases hsolution
    | reported => cases hsolution
  exact exists_best_of_arrived (harrived ▸ hnote) rfl

/-- No two jobs wait. -/
theorem Tallied.eq_of_mem_jobs (h : d.Tallied) {job' : PublishJob}
    (hjob : job ∈ d.publisher.jobs) (hjob' : job' ∈ d.publisher.jobs) : job = job' := by
  have hone := Bool.toNat_le d.coordination.processing
  rw [← h.held, Publisher.held] at hone
  have hlength : d.publisher.jobs.length ≤ 1 := by omega
  obtain ⟨first, hjobs⟩ := List.length_eq_one_iff.1
    (Nat.le_antisymm hlength (List.length_pos_of_mem hjob))
  rw [hjobs, List.mem_singleton] at hjob hjob'
  rw [hjob, hjob']

/-! ## after a report -/

/-- In a run of events a comparison takes a task out of the published ones. -/
structure Forgets (d : Desk) (x : TaskId) (earlier : List DeskEvent) (records : List TaskRecord) :
    Prop where
  before : x ∈ (d.run earlier).coordination.published
  after : x ∉ (d.run (earlier ++ [.compare records])).coordination.published

/-- A job knows a task as published, or was handed over after the task was forgotten. -/
def Knows (d : Desk) (x : TaskId) (events : List DeskEvent) (job : PublishJob) : Prop :=
  x ∈ job.published ∨ ∃ earlier records later notes,
    events = earlier ++ .compare records :: later ∧ d.Forgets x earlier records ∧
    (d.run events).log = (d.run (earlier ++ [.compare records])).log ++ notes ∧
    .handed job ∈ notes

/-- What holds of a task that was published before a run of events: it is published or has been
forgotten, and the job on its way, which is the last one handed over, knows it. -/
structure Guarded (d : Desk) (x : TaskId) (events : List DeskEvent) : Prop where
  live : x ∈ (d.run events).coordination.published ∨
    ∃ earlier records later, events = earlier ++ .compare records :: later ∧
      d.Forgets x earlier records
  sent : ∀ job ∈ (d.run events).publisher.jobs,
    lastHanded? (d.run events).log = some job ∧ d.Knows x events job
  applied : ∀ plan gate, (d.run events).publisher.stage = .applying plan gate →
    ∃ job, lastHanded? (d.run events).log = some job ∧ plan = d.publisher.plan job ∧
      d.Knows x events job

/-- Nothing is struck from the log. -/
theorem log_run_append (d : Desk) (events events' : List DeskEvent) :
    ∃ notes, (d.run (events ++ events')).log = (d.run events).log ++ notes := by
  induction events' using List.reverseRecOn with
  | nil => exact ⟨[], by simp⟩
  | append_singleton events' event ih =>
    obtain ⟨notes, hnotes⟩ := ih
    obtain ⟨silent, next, hflow⟩ := (d.run (events ++ events')).exists_flow event
    refine ⟨notes ++ (silent ++ (next.map handed).toList), ?_⟩
    rw [← List.append_assoc, run_snoc, hflow.log, hnotes, List.append_assoc]

/-- A job that knows a task still knows it after one more event. -/
theorem Knows.snoc (h : d.Knows x events job) (event : DeskEvent) :
    d.Knows x (events ++ [event]) job := by
  rcases h with hjob | ⟨earlier, records, later, notes, rfl, hforgets, hlog, hnotes⟩
  · exact .inl hjob
  · obtain ⟨notes', hlog'⟩ := d.log_run_append (earlier ++ .compare records :: later) [event]
    refine .inr ⟨earlier, records, later ++ [event], notes ++ notes', by simp, hforgets, ?_,
      List.mem_append_left _ hnotes⟩
    rw [hlog', hlog, List.append_assoc]

/-- A job that is handed over by an event knows a guarded task. -/
theorem Guarded.knows (h : d.Guarded x events)
    (hflow : Flow (d.run events) (d.run (events ++ [event])) event silent (some job)) :
    d.Knows x (events ++ [event]) job := by
  rcases h.live with hx | ⟨earlier, records, later, rfl, hforgets⟩
  · refine .inl (hflow.snapshot job rfl ▸ hflow.kept ?_ x hx)
    intro records he
    cases hflow.comparing records he
  · obtain ⟨notes, hlog⟩ := d.log_run_append (earlier ++ [.compare records]) later
    rw [List.append_assoc, List.singleton_append] at hlog
    refine .inr ⟨earlier, records, later ++ [event], notes ++ (silent ++ [.handed job]), by simp,
      hforgets, ?_, by simp⟩
    rw [hflow.log, hlog, List.append_assoc]
    rfl

/-- An event that takes a guarded task out of the published ones is a comparison. -/
theorem Guarded.live_snoc (h : d.Guarded x events)
    (hflow : Flow (d.run events) (d.run (events ++ [event])) event silent next) :
    x ∈ (d.run (events ++ [event])).coordination.published ∨
      ∃ earlier records later, events ++ [event] = earlier ++ .compare records :: later ∧
        d.Forgets x earlier records := by
  rcases h.live with hx | ⟨earlier, records, later, rfl, hforgets⟩
  · by_cases hkept : x ∈ (d.run (events ++ [event])).coordination.published
    · exact .inl hkept
    · have hcompare : ∃ records, event = .compare records := by
        by_contra hno
        exact hkept (hflow.kept (fun records he => hno ⟨records, he⟩) x hx)
      obtain ⟨records, rfl⟩ := hcompare
      exact .inr ⟨events, records, [], rfl, hx, hkept⟩
  · exact .inr ⟨earlier, records, later ++ [event], by simp, hforgets⟩

/-- Every event keeps a published task guarded. -/
theorem Guarded.snoc (h : d.Guarded x events) (htallied : d.Tallied) (event : DeskEvent) :
    d.Guarded x (events ++ [event]) := by
  obtain ⟨silent, next, hflow⟩ := (d.run events).exists_flow event
  rw [← run_snoc] at hflow
  have htallied' := htallied.run (events ++ [event])
  have hlast : lastHanded? (d.run (events ++ [event])).log =
      next.or (lastHanded? (d.run events).log) := by
    rw [hflow.log, lastHanded?_append hflow.silent]
  refine ⟨h.live_snoc hflow, fun job hjob => ?_, fun plan gate hstage => ?_⟩
  · cases next with
    | none =>
      obtain ⟨hsame, hknows⟩ := h.sent job ((hflow.sent job hjob).resolve_right nofun)
      exact ⟨hlast.trans hsame, hknows.snoc event⟩
    | some job' =>
      obtain rfl := htallied'.eq_of_mem_jobs hjob (hflow.queued htallied'.isOpen job' rfl)
      exact ⟨hlast, h.knows hflow⟩
  · have hnone : next = none := by
      cases next with
      | none => rfl
      | some job =>
        have hjob := hflow.queued htallied'.isOpen job rfl
        rw [(htallied'.of_applying hstage).1] at hjob
        cases hjob
    subst hnone
    rcases hflow.applied plan gate hstage with ⟨gate', hold⟩ | ⟨job, hjob, hplan⟩
    · obtain ⟨job, hsame, hplan, hknows⟩ := h.applied plan gate' hold
      exact ⟨job, hlast.trans hsame, hplan, hknows.snoc event⟩
    · obtain ⟨hsame, hknows⟩ := h.sent job hjob
      exact ⟨job, hlast.trans hsame, by rw [hplan, plan_run], hknows.snoc event⟩

/-- A task that is guarded stays so along every run. -/
theorem Guarded.run (h : d.Guarded x []) (htallied : d.Tallied) (events : List DeskEvent) :
    d.Guarded x events := by
  induction events using List.reverseRecOn with
  | nil => exact h
  | append_singleton events event ih => exact ih.snoc htallied event

/-- When a report has entered a task, no job is on its way but one that knows the task. -/
theorem Tallied.guarded_report (h : d.Tallied) (hstage : d.publisher.stage = .applying plan gate)
    {answer : Except RuntimeError Unit}
    (hx : x ∈ (Publisher.outcome plan answer).newlyPublished) :
    (d.step (.report answer)).Guarded x [] := by
  obtain ⟨hmerged, hidle, hflow⟩ := flow_report hstage answer
  have hin : x ∈ (d.step (.report answer)).coordination.published := by
    rw [hmerged]
    refine Coordination.mem_merged_iff.2 (.inr ⟨?_, hx⟩)
    cases answer with
    | ok _ => exact ⟨_, rfl⟩
    | error e => cases hx
  refine ⟨.inl hin, fun job hjob => ?_, fun plan' gate' hplan => ?_⟩
  · rcases hflow.sent job hjob with hold | hnew
    · rw [(h.of_applying hstage).1] at hold
      cases hold
    · refine ⟨?_, .inl (hflow.snapshot job hnew ▸ hin)⟩
      rw [show (d.step (.report answer)).run [] = d.step (.report answer) from rfl, hflow.log,
        lastHanded?_append hflow.silent, hnew, Option.some_or]
  · rw [show (d.step (.report answer)).run [] = d.step (.report answer) from rfl, hidle] at hplan
    cases hplan

/-! ## each task once -/

/-- The plan of a valid solution publishes each task for the first time once, never the placeholder
and no task that was published before. -/
theorem newlyPublished_plan (config : Config) {job : PublishJob} (hkeyed : job.solution.Keyed)
    (hvalidate : job.solution.validate = .ok ()) :
    let plan := (Publisher.ofConfig config).plan job
    plan.newlyPublished.Nodup ∧ .placeholder ∉ plan.newlyPublished ∧
      ∀ x ∈ plan.newlyPublished, x ∉ job.published := by
  intro plan
  obtain ⟨lists, hchained, -⟩ := Solution.exists_chained_untimed_of_validate hkeyed hvalidate
  have hsame := PublishPlan.newlyPublished_untimed config.publishWindow.toNat config.pinOnPublish
    job.solution job.published
  refine ⟨?_, fun hmem => ?_, fun x => PublishPlan.not_mem_of_mem_newlyPublished⟩
  · exact hsame ▸ PublishPlan.nodup_newlyPublished hchained _ _ _
  · exact PublishPlan.ne_placeholder_of_mem_newlyPublished hchained (hsame ▸ hmem) rfl

/-- If a report has entered a task and a later plan publishes it for the first time again, then in
between a comparison has forgotten the task, and the job of that plan was handed over afterwards. -/
theorem Tallied.exists_forgets (h : d.Tallied) (hstage : d.publisher.stage = .applying plan gate)
    {answer : Except RuntimeError Unit} {second : PublishPlan} {gate' : Option Nat}
    (hx : x ∈ (Publisher.outcome plan answer).newlyPublished)
    (hsecond : ((d.step (.report answer)).run events).publisher.stage = .applying second gate')
    (hagain : x ∈ second.newlyPublished) :
    ∃ earlier records later job notes, events = earlier ++ .compare records :: later ∧
      (d.step (.report answer)).Forgets x earlier records ∧
      ((d.step (.report answer)).run events).log =
        ((d.step (.report answer)).run (earlier ++ [.compare records])).log ++ notes ∧
      .handed job ∈ notes ∧
      lastHanded? ((d.step (.report answer)).run events).log = some job ∧
      second = d.publisher.plan job := by
  have hguarded := (h.guarded_report hstage hx).run (h.step _) events
  obtain ⟨job, hlast, hplan, hknows⟩ := hguarded.applied second gate' hsecond
  rw [(flow_report hstage answer).2.2.plan] at hplan
  rcases hknows with hjob | ⟨earlier, records, later, notes, hsplit, hforgets, hlog, hnote⟩
  · rw [hplan] at hagain
    exact absurd hjob (PublishPlan.not_mem_of_mem_newlyPublished hagain)
  · exact ⟨earlier, records, later, job, notes, hsplit, hforgets, hlog, hnote, hlast, hplan⟩

/-- Let the optimizer report valid solutions only.  The plan of each job that is handed over
publishes each task for the first time once, never the placeholder, and no task that was published
at the hand-over.  If two outcomes publish the same task for the first time, then between the two a
comparison has taken it out of the published tasks, after the first outcome was entered and before
the job of the second was handed over. -/
theorem each_task_exposed_once (config : Config) (events : List DeskEvent)
    (hvalid : ∀ best, .best best ∈ events →
      best.solution.Keyed ∧ best.solution.validate = .ok ()) :
    let d := (initial config).run events
    let planOf := (Publisher.ofConfig config).plan
    (∀ job, .handed job ∈ d.log → (planOf job).newlyPublished.Nodup ∧
      .placeholder ∉ (planOf job).newlyPublished ∧
      ∀ x ∈ (planOf job).newlyPublished, x ∉ job.published) ∧
    ∀ before answer between first gate second gate' answer' x,
      events = before ++ .report answer :: between →
      ((initial config).run before).publisher.stage = .applying first gate →
      d.publisher.stage = .applying second gate' →
      x ∈ (Publisher.outcome first answer).newlyPublished →
      x ∈ (Publisher.outcome second answer').newlyPublished →
      ∃ earlier records later job notes, between = earlier ++ .compare records :: later ∧
        let prior := (initial config).run (before ++ .report answer :: earlier)
        x ∈ prior.coordination.published ∧
          x ∉ (prior.step (.compare records)).coordination.published ∧
          d.log = (prior.step (.compare records)).log ++ notes ∧ .handed job ∈ notes ∧
          lastHanded? d.log = some job ∧ second = planOf job := by
  intro d planOf
  constructor
  · intro job hjob
    obtain ⟨best, hbest, hsolution⟩ := exists_best_of_handed hjob
    obtain ⟨hkeyed, hvalidate⟩ := hvalid best hbest
    rw [hsolution] at hkeyed hvalidate
    exact newlyPublished_plan config hkeyed hvalidate
  · rintro before answer between first gate second gate' answer' x rfl hfirst hsecond hx hx'
    have hrun : ∀ rest, (initial config).run (before ++ .report answer :: rest) =
        (((initial config).run before).step (.report answer)).run rest :=
      fun rest => run_append _ _ _
    -- a refused plan publishes nothing, so the second outcome is a success
    have hagain : x ∈ second.newlyPublished := by
      cases answer' with
      | ok _ => exact hx'
      | error e => cases hx'
    obtain ⟨earlier, records, later, job, notes, hsplit, hforgets, hlog, hnote, hlast, hplan⟩ :=
      ((tallied_initial config).run before).exists_forgets hfirst hx
        (by rw [← hrun]; exact hsecond) hagain
    have hafter := hforgets.after
    rw [run_snoc] at hafter hlog
    rw [plan_run] at hplan
    refine ⟨earlier, records, later, job, notes, hsplit, ?_⟩
    rw [hrun earlier]
    exact ⟨hforgets.before, hafter, by rw [← hlog, ← hrun], hnote, by rw [← hlast, ← hrun], hplan⟩

/-- A solution of three tasks, two of them in a chain, that may be published. -/
def bestOfThree : BestSolution := ⟨Operation.runAll Solution.callsForThree ∅, true, true⟩

/-- The solution is published. -/
def untilPublished : List DeskEvent := [.best bestOfThree, .start, .receive none]

/-- The first task is ready again, and the solution is taken to the runtime once more. -/
def untilAgain : List DeskEvent :=
  [.compare [Assembly.recordOf 1 .ready none], .best bestOfThree, .receive none]

/-- The first task of the chain is published twice, and forgotten in between. -/
theorem each_task_exposed_once_again :
    let events := untilPublished ++ .report (.ok ()) :: untilAgain
    let planOf := (Publisher.ofConfig .default).plan
    let first := planOf ⟨bestOfThree.solution, ∅⟩
    let second := planOf ⟨bestOfThree.solution, .ofList [⟨2⟩]⟩
    (∀ best, .best best ∈ events → best.solution.Keyed ∧ best.solution.validate = .ok ()) ∧
      ((initial .default).run untilPublished).publisher.stage = .applying first none ∧
      ((initial .default).run events).publisher.stage = .applying second none ∧
      ⟨1⟩ ∈ (Publisher.outcome first (.ok ())).newlyPublished ∧
      ⟨1⟩ ∈ (Publisher.outcome second (.ok ())).newlyPublished ∧
      ∃ earlier records later job, untilAgain = earlier ++ .compare records :: later ∧
        lastHanded? ((initial .default).run events).log = some job ∧ second = planOf job := by
  intro events planOf first second
  have hvalid : ∀ best, .best best ∈ events →
      best.solution.Keyed ∧ best.solution.validate = .ok () := by
    intro best hbest
    have hsame : best = bestOfThree := by
      simpa [events, untilPublished, untilAgain] using hbest
    rw [hsame]
    exact ⟨(Solution.Reachable.arranged ⟨Solution.callsForThree, rfl⟩).keyed, by decide +kernel⟩
  have hfirst : ((initial .default).run untilPublished).publisher.stage = .applying first none :=
    rfl
  have hsecond : ((initial .default).run events).publisher.stage = .applying second none := by
    rfl
  have hnew : ⟨1⟩ ∈ (Publisher.outcome first (.ok ())).newlyPublished := by decide +kernel
  have hagain : ⟨1⟩ ∈ (Publisher.outcome second (.ok ())).newlyPublished := by decide +kernel
  obtain ⟨earlier, records, later, job, notes, hsplit, -, -, -, -, hlast, hplan⟩ :=
    (each_task_exposed_once .default events hvalid).2 untilPublished (.ok ()) untilAgain first none
      second none (.ok ()) ⟨1⟩ rfl hfirst hsecond hnew hagain
  exact ⟨hvalid, hfirst, hsecond, hnew, hagain, earlier, records, later, job, hsplit, hlast,
    hplan⟩

end Desk

end ChainPlanner
