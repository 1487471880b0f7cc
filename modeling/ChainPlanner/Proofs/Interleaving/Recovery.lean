import ChainPlanner.Proofs.Interleaving.FailedPublish
import ChainPlanner.Proofs.Publishing.Exposure

/-!
# ChainPlanner.Proofs.Interleaving.Recovery

A planner that starts again, while its other loops go on.

The first solution shows which tasks had been published before.  A planner starts its driver on the
solution (`launch`), and only then enters these tasks into the state that the loops share
(`merge`).  The two are critical sections of their own, of the driver and of the shared state.  In
between the loop of the driver may take its permit, the optimizer may report, and the publisher may
be handed the report and go on with it.

A job knows the published tasks of the moment of its hand-over.  So the jobs that are handed over
after the merge know all tasks that were recovered, until a comparison forgets one.  Of those that
are handed over before, the first does not know a single one that was not known without the
records.
-/

namespace ChainPlanner

open Assembly

namespace Publisher

/-- A publisher with no job and no plan. -/
structure Quiet (p : Publisher) : Prop where
  jobs : p.jobs = []
  stage : ∀ plan gate, p.stage ≠ .applying plan gate

/-- It has nothing to do. -/
theorem Quiet.step? {p : Publisher} (h : p.Quiet) (r : MemoryRuntime) : p.step? r = none := by
  unfold Publisher.step?
  split
  next hjobs =>
    rw [h.jobs] at hjobs
    cases hjobs
  next hstage => exact absurd hstage (h.stage _ _)
  next => rfl

/-- A publisher either takes its first job, or reports on the plan that it has had stored. -/
theorem step?_cases {p p' : Publisher} {r r' : MemoryRuntime} {report : Option PublishOutcome}
    (h : p.step? r = some (p', r', report)) :
    (∃ job jobs gate, p.stage = .idle ∧ p.jobs = job :: jobs ∧
      p' = { p with jobs, stage := .applying (p.plan job) gate } ∧ report = none) ∨
    ∃ plan gate answer, p.stage = .applying plan gate ∧ p' = { p with stage := .idle } ∧
      report = some (outcome plan answer) := by
  unfold Publisher.step? at h
  split at h
  next job jobs hstage hjobs =>
    cases h
    exact .inl ⟨job, jobs, _, hstage, hjobs, rfl, rfl⟩
  next jobs plan gate hstage =>
    obtain ⟨r, -, h⟩ := Option.bind_eq_some_iff.mp h
    cases h
    exact .inr ⟨plan, gate, _, hstage, rfl, rfl⟩
  next => cases h

end Publisher

namespace Planner

/-! ## starting on the records -/

/-- Start the driver on the first solution for records, if that can be done.  What was published
before is handed on to the merge. -/
def launch (records : List TaskRecord) (users : List DirectoryUser) (p : Planner) :
    Option (PublishedTasks × Planner) :=
  match p.coordination.firstSolution records users with
  | (.error _, _) => none
  | (.ok s, published) =>
    if s.hasRealTasks then match p.driver.start s with
      | (.error _, _) => none
      | (.ok (), driver) => some (published, { p with driver })
    else none

/-- Enter recovered tasks into the state that the loops share. -/
def merge (published : PublishedTasks) (p : Planner) : Planner :=
  { p with coordination := p.coordination.recover published }

variable {p p' q : Planner} {records : List TaskRecord} {users : List DirectoryUser}
  {published : PublishedTasks} {x : TaskId} {job : PublishJob}

/-- To start on the records is to launch and to merge, with nothing in between. -/
theorem bootstrap_eq_some_true_iff : bootstrap records users p = (some true, p') ↔
    ∃ published q, launch records users p = some (published, q) ∧ p' = q.merge published := by
  unfold bootstrap launch
  rcases p.coordination.firstSolution records users with ⟨e | s, published⟩
  · simp
  · by_cases hreal : s.hasRealTasks = true
    · simp only [hreal, if_true]
      rcases p.driver.start s with ⟨e | _, driver⟩
      · simp
      · simp [merge, @eq_comm _ p']
    · simp [hreal]

/-- The driver has been started, and nothing else. -/
theorem launch_shared (h : launch records users p = some (published, q)) :
    q.coordination = p.coordination ∧ q.publisher = p.publisher := by
  unfold launch at h
  split at h
  · cases h
  · split at h
    · split at h <;> cases h
      exact ⟨rfl, rfl⟩
    · cases h

/-! ## what goes on in the meantime -/

/-- What the loops of a planner may do when it starts. -/
inductive StartupMove where
  /-- The loop of the driver takes its permit. -/
  | permit
  /-- An optimizer that records its use reports. -/
  | report (event : BestSolution)
  | loop (m : Move)

/-- A planner after a move. -/
def startupMove (p : Planner) : StartupMove → Planner
  | .permit => p.takePermit
  | .report event => match p.optimizer with
    | .recorder r => if r.hasListener then p.forward event else p
    | .greedy _ _ => p
  | .loop m => p.move m

/-- A planner after moves in order. -/
def startup (p : Planner) (moves : List StartupMove) : Planner := moves.foldl startupMove p

/-- The job that a report of the optimizer hands over. -/
def forwarded? (p : Planner) (event : BestSolution) : Option PublishJob :=
  if p.driver.forwards then (p.coordination.bestSolution event p.publisher.isOpen).2 else none

/-- The job that a move hands over. -/
def handed? (p : Planner) : StartupMove → Option PublishJob
  | .report event => match p.optimizer with
    | .recorder r => if r.hasListener then p.forwarded? event else none
    | .greedy _ _ => none
  | .loop .optimize => match p.optimizer with
    | .greedy _ (some search) => search.step.2.bind p.forwarded?
    | _ => none
  | .loop .publish => do
    let (publisher, _, report) ← p.publisher.step? p.runtime
    let outcome ← report
    (p.coordination.publishProcessed outcome publisher.isOpen).2
  | .permit | .loop (.refresh _) | .loop (.outside _) => none

/-- The jobs that moves hand over, in order. -/
def jobsHanded (p : Planner) : List StartupMove → List PublishJob
  | [] => []
  | m :: moves => (p.handed? m).toList ++ (p.startupMove m).jobsHanded moves

/-! ## one move -/

/-- What a move does to the jobs on their way and to the published tasks, as an event at the desk of
the planner does it. -/
def Hands (p p' : Planner) (m : StartupMove) (next : Option PublishJob) : Prop :=
  ∃ event silent log, Desk.Flow (p.desk []) (p'.desk log) event silent next ∧
    ∀ records, event = .compare records → m = .loop (.refresh records)

variable {m : StartupMove} {moves : List StartupMove} {next : Option PublishJob}

/-- A move that touches neither the shared state nor the publisher hands nothing over. -/
theorem Hands.of_desk (hc : p'.coordination = p.coordination) (hp : p'.publisher = p.publisher) :
    p.Hands p' m none :=
  ⟨.submitted [], [], [], .of_shared rfl hp fun _ x hx => by rwa [desk, hc], nofun⟩

/-- A report that the driver passes on is an event at the desk. -/
theorem hands_forward (p : Planner) (event : BestSolution) (m : StartupMove) :
    p.Hands (p.forward event) m (p.forwarded? event) := by
  unfold forward forwarded?
  split
  · obtain ⟨silent, hflow⟩ := (p.desk []).exists_flow_best event
    obtain ⟨log, hlog⟩ : ∃ log, (p.desk []).step (.best event) = Planner.desk _ log :=
      exists_dispatch { p with coordination := _ } _ _
    exact ⟨.best event, silent, log, hlog ▸ hflow, nofun⟩
  · exact .of_desk rfl rfl

/-- A step of the publisher is an event at the desk, or nothing. -/
theorem hands_publish (p : Planner) : p.Hands (p.move .publish) (.loop .publish)
    (p.handed? (.loop .publish)) := by
  cases hstep : p.publisher.step? p.runtime with
  | none =>
    simp only [move, publishStep?, handed?, hstep]
    exact .of_desk rfl rfl
  | some after =>
    obtain ⟨publisher, runtime, report⟩ := after
    simp only [move, publishStep?, handed?, hstep]
    rcases Publisher.step?_cases hstep with
      ⟨job, jobs, gate, hstage, hjobs, rfl, rfl⟩ | ⟨plan, gate, answer, hstage, rfl, rfl⟩
    · refine ⟨.receive gate, [], [], ?_, fun _ hcompare => by cases hcompare⟩
      have hflow := (p.desk []).flow_receive gate
      simp only [Desk.step, desk, hstage, hjobs] at hflow
      exact hflow
    · obtain ⟨-, -, hflow⟩ := Desk.flow_report (d := p.desk []) hstage answer
      rw [Desk.step_report hstage] at hflow
      obtain ⟨log, hlog⟩ := exists_dispatch { p with
          publisher := { p.publisher with stage := .idle }
          coordination := _, runtime := runtime } _ _
      exact ⟨.report answer, [.reported], log, hlog ▸ hflow, fun _ hcompare => by cases hcompare⟩

/-- The optimizer delivers what its step delivers, and the driver passes it on. -/
theorem hands_optimize (p : Planner) : p.Hands (p.move .optimize) (.loop .optimize)
    (p.handed? (.loop .optimize)) := by
  simp only [move, searchStep, handed?]
  cases hp : p.optimizer with
  | recorder r => exact .of_desk rfl rfl
  | greedy queue search => cases search with
    | none => exact .of_desk rfl rfl
    | some search =>
      simp only
      rcases search.step with ⟨search', _ | event⟩
      · exact .of_desk rfl rfl
      · exact hands_forward { p with
          optimizer := .greedy queue (some search')
          events := p.events ++ [event] } event (.loop .optimize)

/-- Submitting changes does not touch the publisher. -/
theorem publisher_submit (p : Planner) (ms : List Mutation) :
    (p.submit ms).2.publisher = p.publisher := by
  unfold submit
  split <;> rfl

/-- A refresh does not touch the publisher. -/
theorem publisher_refresh (p : Planner) (records : List TaskRecord) :
    (refresh records p).2.publisher = p.publisher := by
  unfold refresh
  split
  · rfl
  · rfl
  next ms coordination _ _ =>
    have hsubmit := publisher_submit { p with coordination } ms
    split <;> simp_all

/-- Every move is an event at the desk, and hands over the job that `handed?` says. -/
theorem hands_startupMove (p : Planner) (m : StartupMove) :
    p.Hands (p.startupMove m) m (p.handed? m) := by
  cases m with
  | permit =>
    simp only [startupMove, takePermit]
    split
    · split
      · exact .of_desk rfl rfl
      · exact .of_desk rfl rfl
      · unfold beginSolving
        split <;> exact .of_desk rfl rfl
    · exact .of_desk rfl rfl
  | report event =>
    simp only [startupMove, handed?]
    cases p.optimizer with
    | greedy queue search => exact .of_desk rfl rfl
    | recorder r =>
      simp only
      split
      · exact p.hands_forward event (.report event)
      · exact .of_desk rfl rfl
  | loop m => cases m with
    | optimize => exact p.hands_optimize
    | publish => exact p.hands_publish
    | outside f => exact .of_desk rfl rfl
    | refresh records =>
      have hflow : Desk.Flow (p.desk []) ((refresh records p).2.desk []) (.compare records) []
          none :=
        .of_shared rfl (p.publisher_refresh records) fun h => absurd rfl (h records)
      refine ⟨.compare records, [], [], hflow, ?_⟩
      rintro records' ⟨⟩
      rfl

/-! ## runs -/

/-- The published tasks stay, unless records are compared. -/
theorem Hands.kept (h : p.Hands p' m next) (hm : ∀ records, m ≠ .loop (.refresh records))
    (hx : x ∈ p.coordination.published) : x ∈ p'.coordination.published := by
  obtain ⟨event, silent, log, hflow, hcompare⟩ := h
  exact hflow.kept (fun records he => hm records (hcompare records he)) x hx

/-- A job carries the published tasks as they stand when it is handed over. -/
theorem Hands.snapshot (h : p.Hands p' m (some job)) :
    job.published = p'.coordination.published := by
  obtain ⟨event, silent, log, hflow, -⟩ := h
  exact hflow.snapshot job rfl

/-- A publisher that is given nothing has nothing to do. -/
theorem Hands.quiet (h : p.Hands p' m none) (hquiet : p.publisher.Quiet) :
    p'.publisher.Quiet := by
  obtain ⟨event, silent, log, hflow, -⟩ := h
  constructor
  · refine List.eq_nil_iff_forall_not_mem.2 fun job hjob => ?_
    have hold := (hflow.sent job hjob).resolve_right nofun
    simp [desk, hquiet.jobs] at hold
  · intro plan gate hstage
    rcases hflow.applied plan gate hstage with ⟨gate', hold⟩ | ⟨job, hjob, -⟩
    · exact hquiet.stage plan gate' hold
    · simp [desk, hquiet.jobs] at hjob

/-- Where the plans of a publisher come from that had nothing to do before some moves. -/
structure Works (p p' : Planner) (jobs : List PublishJob) : Prop where
  plan : p'.publisher.plan = p.publisher.plan
  sent : ∀ job ∈ p'.publisher.jobs, job ∈ jobs
  applied : ∀ plan gate, p'.publisher.stage = .applying plan gate →
    ∃ job ∈ jobs, plan = p.publisher.plan job

/-- A publisher that has nothing to do works on nothing. -/
theorem works_nil (h : p.publisher.Quiet) : p.Works p [] where
  plan := rfl
  sent := by simp [h.jobs]
  applied plan gate hstage := absurd hstage (h.stage plan gate)

/-- After a move the publisher works on the jobs that there were and the one handed over. -/
theorem Works.hands {jobs : List PublishJob} (h : p.Works q jobs) (hq : q.Hands p' m next) :
    p.Works p' (jobs ++ next.toList) := by
  obtain ⟨event, silent, log, hflow, -⟩ := hq
  refine ⟨hflow.plan.trans h.plan, fun job hjob => ?_, fun plan gate hstage => ?_⟩
  · rcases hflow.sent job hjob with hold | rfl
    · exact List.mem_append_left _ (h.sent job hold)
    · exact List.mem_append_right _ (by simp)
  · rcases hflow.applied plan gate hstage with ⟨gate', hold⟩ | ⟨job, hjob, hplan⟩
    · obtain ⟨job, hjob, hplan⟩ := h.applied plan gate' hold
      exact ⟨job, List.mem_append_left _ hjob, hplan⟩
    · refine ⟨job, List.mem_append_left _ (h.sent job hjob), ?_⟩
      rw [hplan]
      exact congrFun h.plan job

/-- After any moves the publisher works on jobs that have been handed over. -/
theorem Works.startup {jobs : List PublishJob} (h : p.Works q jobs) (moves : List StartupMove) :
    p.Works (q.startup moves) (jobs ++ q.jobsHanded moves) := by
  induction moves generalizing q jobs with
  | nil => rwa [jobsHanded, List.append_nil]
  | cons m moves ih =>
    rw [jobsHanded, ← List.append_assoc]
    exact ih (h.hands (q.hands_startupMove m))

/-! ## before the merge -/

/-- A report does not change the published tasks. -/
theorem published_forward (p : Planner) (event : BestSolution) :
    (p.forward event).coordination.published = p.coordination.published := by
  unfold forward
  split
  · rw [coordination_sendJob]
    exact (p.coordination.published_bestSolution event _).1
  · rfl

/-- As long as the publisher has nothing to report, only a comparison changes the published
tasks. -/
theorem published_startupMove (hquiet : p.publisher.Quiet)
    (hm : ∀ records, m ≠ .loop (.refresh records)) :
    (p.startupMove m).coordination.published = p.coordination.published := by
  cases m with
  | permit =>
    simp only [startupMove, takePermit]
    split
    · split
      · rfl
      · rfl
      · unfold beginSolving
        split <;> rfl
    · rfl
  | report event =>
    simp only [startupMove]
    split
    · split
      · exact p.published_forward event
      · rfl
    · rfl
  | loop m => cases m with
    | optimize =>
      simp only [startupMove, move, searchStep]
      split
      · split
        · rfl
        · exact published_forward _ _
      · rfl
    | publish =>
      simp only [startupMove, move, publishStep?, hquiet.step?]
      rfl
    | outside f => rfl
    | refresh records => exact absurd rfl (hm records)

/-- The first job that is handed over to a publisher knows the tasks published before, and no
others. -/
theorem published_of_jobsHanded {jobs : List PublishJob} (hquiet : p.publisher.Quiet)
    (hmoves : ∀ records, .loop (.refresh records) ∉ moves)
    (hjobs : p.jobsHanded moves = job :: jobs) : job.published = p.coordination.published := by
  induction moves generalizing p with
  | nil => cases hjobs
  | cons m moves ih =>
    have hm : ∀ records, m ≠ .loop (.refresh records) := by
      rintro records rfl
      exact hmoves records List.mem_cons_self
    have hsame := published_startupMove hquiet hm
    have hhands := p.hands_startupMove m
    rw [jobsHanded] at hjobs
    cases hnext : p.handed? m with
    | some first =>
      rw [hnext] at hjobs hhands
      cases hjobs
      rw [hhands.snapshot, hsame]
    | none =>
      rw [hnext] at hjobs hhands
      rw [← hsame]
      exact ih (hhands.quiet hquiet)
        (fun records hmem => hmoves records (List.mem_cons_of_mem m hmem)) hjobs

/-! ## after the merge -/

/-- A comparison takes a task out of the published ones, and a job is handed over after that. -/
def ForgottenBefore (p : Planner) (x : TaskId) (moves : List StartupMove) (job : PublishJob) :
    Prop :=
  ∃ earlier records later, moves = earlier ++ .loop (.refresh records) :: later ∧
    x ∈ (p.startup earlier).coordination.published ∧
    let after := p.startup (earlier ++ [.loop (.refresh records)])
    x ∉ after.coordination.published ∧ job ∈ after.jobsHanded later

/-- Without a comparison nothing is forgotten. -/
theorem not_forgottenBefore (hmoves : ∀ records, .loop (.refresh records) ∉ moves) :
    ¬ p.ForgottenBefore x moves job := by
  rintro ⟨earlier, records, later, rfl, -⟩
  exact hmoves records (by simp)

/-- A job that is handed over knows a task that was published before, unless a comparison has
forgotten the task. -/
theorem mem_published_of_jobsHanded (hx : x ∈ p.coordination.published)
    (hjob : job ∈ p.jobsHanded moves) : x ∈ job.published ∨ p.ForgottenBefore x moves job := by
  induction moves generalizing p with
  | nil => cases hjob
  | cons m moves ih =>
    have hhands := p.hands_startupMove m
    rw [jobsHanded, List.mem_append] at hjob
    by_cases hkept : x ∈ (p.startupMove m).coordination.published
    · rcases hjob with hjob | hjob
      · obtain hnext := Option.mem_toList.mp hjob
        rw [hnext] at hhands
        exact .inl (hhands.snapshot ▸ hkept)
      · rcases ih hkept hjob with hknown | ⟨earlier, records, later, rfl, hbefore, hafter⟩
        · exact .inl hknown
        · exact .inr ⟨m :: earlier, records, later, rfl, hbefore, hafter⟩
    · obtain ⟨records, rfl⟩ : ∃ records, m = .loop (.refresh records) := by
        by_contra hno
        exact hkept (hhands.kept (fun records hm => hno ⟨records, hm⟩) hx)
      rcases hjob with hjob | hjob
      · cases hjob
      · exact .inr ⟨[], records, moves, rfl, hx, hkept, hjob⟩

/-- A planner starts again.  Whatever its loops do before and after the merge, the publisher works
on the jobs that are handed over.  Those of before the merge all know the recovered tasks exactly if
there is no such job, or nothing was recovered that was not known anyway.  Those of after the merge
know them all and report them as published, except for a task that a comparison has forgotten. -/
theorem recovered_known_iff_merged_first (hlaunch : launch records users p = some (published, q))
    (hquiet : p.publisher.Quiet) (before after : List StartupMove)
    (hbefore : ∀ records, .loop (.refresh records) ∉ before) :
    let merged := (q.startup before).merge published
    (∀ plan gate, (merged.startup after).publisher.stage = .applying plan gate →
      ∃ job ∈ q.jobsHanded before ++ merged.jobsHanded after, plan = p.publisher.plan job) ∧
    ((∀ job ∈ q.jobsHanded before, ∀ x ∈ published, x ∈ job.published) ↔
      q.jobsHanded before = [] ∨ ∀ x ∈ published, x ∈ p.coordination.published) ∧
    ∀ job ∈ merged.jobsHanded after, ∀ x ∈ published,
      (x ∈ job.published ∧ ∀ res ∈ (p.publisher.plan job).results, res.taskId = x →
        res.parameters.published = true) ∨ merged.ForgottenBefore x after job := by
  intro merged
  obtain ⟨hcoordination, hpublisher⟩ := launch_shared hlaunch
  have hquiet' : q.publisher.Quiet := hpublisher ▸ hquiet
  refine ⟨fun plan gate hstage => ?_, ⟨fun hknown => ?_, fun h job hjob x hx => ?_⟩,
    fun job hjob x hx => ?_⟩
  · have hworks : q.Works merged (q.jobsHanded before) := by
      have hbefore := (works_nil hquiet').startup before
      exact ⟨hbefore.plan, hbefore.sent, hbefore.applied⟩
    rw [← hpublisher]
    exact (hworks.startup after).applied plan gate hstage
  · cases hjobs : q.jobsHanded before with
    | nil => exact .inl rfl
    | cons job jobs =>
      refine .inr fun x hx => ?_
      -- the first job was handed over before any outcome could add to the published tasks
      rw [← hcoordination, ← published_of_jobsHanded hquiet' hbefore hjobs]
      exact hknown job (by rw [hjobs]; exact List.mem_cons_self) x hx
  · rcases h with hnone | hall
    · rw [hnone] at hjob
      cases hjob
    · rw [← hcoordination] at hall
      exact (mem_published_of_jobsHanded (hall x hx) hjob).resolve_right
        (not_forgottenBefore hbefore)
  · have hmerged : x ∈ merged.coordination.published := SortedSet.mem_union.2 (.inl hx)
    refine (mem_published_of_jobsHanded hmerged hjob).imp_left fun hknown => ⟨hknown, ?_⟩
    rintro res hres rfl
    obtain ⟨-, -, -, hpublished⟩ := PublishPlan.index_of_mem_results hres
    exact hpublished hknown

/-- A planner that runs and has not looked at the runtime yet. -/
def beforeFirstLook (c : Config) (records : List TaskRecord) (users : List DirectoryUser) :
    Planner :=
  { Planner.new c (.ofTasks records) (.ofUsers users) (.greedy [] none) none with
    driver := .withOptimizer
    driverLoop := .waiting
    publisher := (Publisher.ofConfig c).start
    syncDue := some (0 + c.syncPeriod.toNat)
    unjoined := true }

/-- That is what initializing and starting a new planner leaves. -/
theorem start_init_new {c : Config} (hc : c.validate = .ok ()) (records : List TaskRecord)
    (users : List DirectoryUser) :
    let p := Planner.new c (.ofTasks records) (.ofUsers users) (.greedy [] none) none
    p.init.1 = .ok () ∧ p.init.2.start = (.ok (), beforeFirstLook c records users) := by
  intro p
  have hinit : p.init = (.ok (), { p with driver := .withOptimizer }) := by
    simp only [p, init, new, hc]
    rfl
  rw [hinit]
  exact ⟨rfl, rfl⟩

/-- The record of a task that a worker holds and that an earlier planner has published. -/
def shownTo (user : UserId) (n : Int64) (index : Int32) : TaskRecord :=
  { recordOf n .reserved (some user) with planningParameters := some ⟨user, index, false, true⟩ }

/-- A worker who holds two published tasks. -/
def heldByAnn : List TaskRecord := [shownTo ⟨"ann"⟩ 1 0, shownTo ⟨"ann"⟩ 2 1]

/-- A planner that publishes one task of each worker, before it looks at these records. -/
def beforeHeldByAnn : Planner :=
  beforeFirstLook { Config.default with publishWindow := 1 } heldByAnn [⟨⟨"ann"⟩, []⟩]

/-- The merge comes after the permit and before the report.  The job knows both tasks. -/
theorem recovered_known_iff_merged_first_held :
    ∃ published q job, launch heldByAnn [⟨⟨"ann"⟩, []⟩] beforeHeldByAnn = some (published, q) ∧
      beforeHeldByAnn.publisher.Quiet ∧
      (∀ records, .loop (.refresh records) ∉ [StartupMove.permit]) ∧
      ((q.startup [.permit]).merge published).jobsHanded (firstReport.map .loop) = [job] ∧
      ⟨2⟩ ∈ published ∧ ∀ res ∈ (beforeHeldByAnn.publisher.plan job).results,
        res.taskId = ⟨2⟩ → res.parameters.published = true := by
  have hrun : (launch heldByAnn [⟨⟨"ann"⟩, []⟩] beforeHeldByAnn).any (fun l =>
      decide (⟨2⟩ ∈ l.1 ∧
        (((l.2.startup [.permit]).merge l.1).jobsHanded (firstReport.map .loop)).length = 1)) =
          true := by
    decide +kernel
  obtain ⟨⟨published, q⟩, hlaunch, hfacts⟩ := (Option.any_eq_true ..).mp hrun
  obtain ⟨htwo, hone⟩ := of_decide_eq_true hfacts
  obtain ⟨job, hjob⟩ := List.length_eq_one_iff.mp hone
  have hquiet : beforeHeldByAnn.publisher.Quiet := ⟨rfl, nofun⟩
  have hpermit : ∀ records, .loop (.refresh records) ∉ [StartupMove.permit] := by simp
  obtain ⟨-, -, hafter⟩ :=
    recovered_known_iff_merged_first hlaunch hquiet [.permit] (firstReport.map .loop) hpermit
  have hknown := (hafter job (by rw [hjob]; exact List.mem_cons_self) ⟨2⟩ htwo).resolve_right
    (not_forgottenBefore (by simp [firstReport]))
  exact ⟨published, q, job, hlaunch, hquiet, hpermit, hjob, htwo, hknown.2⟩

/-- The optimizer begins to solve and reports. -/
def permitAndReport : List StartupMove := .permit :: firstReport.map .loop

/-- The report comes before the merge.  The job knows neither of the tasks, and one of them is
stored as not published, although it was published before and the merge has entered it by then. -/
theorem recovered_task_stored_as_unpublished :
    (let p := Planner.new { Config.default with publishWindow := 1 } (.ofTasks heldByAnn)
      (.ofUsers [⟨⟨"ann"⟩, []⟩]) (.greedy [] none) none
    p.init.1 = .ok () ∧ p.init.2.start = (.ok (), beforeHeldByAnn)) ∧
    ∃ published q job, launch heldByAnn [⟨⟨"ann"⟩, []⟩] beforeHeldByAnn = some (published, q) ∧
      ⟨2⟩ ∈ published ∧ q.jobsHanded permitAndReport = [job] ∧ ⟨2⟩ ∉ job.published ∧
      let stored := ((q.startup permitAndReport).merge published).startup
        [.loop .publish, .loop .publish]
      ⟨2⟩ ∈ stored.coordination.published ∧
        stored.runtime.tasks.map (fun r => (r.taskId, r.planningParameters.map (·.published))) =
          [(⟨1⟩, some true), (⟨2⟩, some false)] := by
  refine ⟨start_init_new (by decide) _ _, ?_⟩
  have hrun : (launch heldByAnn [⟨⟨"ann"⟩, []⟩] beforeHeldByAnn).any (fun l =>
      let stored := ((l.2.startup permitAndReport).merge l.1).startup
        [.loop .publish, .loop .publish]
      decide (⟨2⟩ ∈ l.1 ∧ (l.2.jobsHanded permitAndReport).map (·.published) = [∅] ∧
        ⟨2⟩ ∈ stored.coordination.published ∧
        stored.runtime.tasks.map (fun r => (r.taskId, r.planningParameters.map (·.published))) =
          [(⟨1⟩, some true), (⟨2⟩, some false)])) = true := by
    decide +kernel
  obtain ⟨⟨published, q⟩, hlaunch, hfacts⟩ := (Option.any_eq_true ..).mp hrun
  obtain ⟨htwo, hhanded, hentered, hstored⟩ := of_decide_eq_true hfacts
  obtain ⟨job, hjob, hnone⟩ := List.map_eq_singleton_iff.mp hhanded
  exact ⟨published, q, job, hlaunch, htwo, hjob, by rw [hnone]; exact SortedSet.not_mem_empty _,
    hentered, hstored⟩

end Planner

end ChainPlanner
