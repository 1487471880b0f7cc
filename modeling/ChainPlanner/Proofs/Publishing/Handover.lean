import ChainPlanner.Planner.Basic

/-!
# ChainPlanner.Proofs.Publishing.Handover

The way of solutions from the optimizer to the task runtime, with a log of it.

A desk is what the loops share and the publisher, while the publisher is alive.  Events come in any
order: reports of the optimizer, the critical sections of a look at the runtime, and the moves of
the publisher, whose plans the runtime may store or refuse.  The log notes what arrives, what is
handed over and what is reported; it is read by the theorems only.

The invariant is `Tallied`.  The publisher holds one job while a solution is on its way and none
otherwise, and the solution that waits is newer than all that have been handed over.  The moment of
a hand-over is the same for a solution that has just arrived and for one that has waited, so it is
treated once, in `Owes.handOver`.
-/

namespace ChainPlanner

/-! ## the log -/

/-- What is noted of the way of solutions to the task runtime. -/
inductive Note where
  /-- A publishable solution has arrived. -/
  | arrived (s : Solution)
  /-- A job has been handed over to the publisher. -/
  | handed (job : PublishJob)
  /-- The publisher has reported on a job. -/
  | reported

namespace Note

/-- The publishable solutions in the order of their arrival. -/
def arrivals (log : List Note) : List Solution :=
  log.filterMap fun | arrived s => some s | _ => none

/-- The solutions handed over, in order. -/
def handovers (log : List Note) : List Solution :=
  log.filterMap fun | handed job => some job.solution | _ => none

/-- How many reports there were. -/
def reports (log : List Note) : Nat := log.countP fun | reported => true | _ => false

/-- Each job carries the solution that was the last to arrive before it was handed over. -/
def Newest (log : List Note) : Prop :=
  ∀ before job after, log = before ++ handed job :: after →
    (arrivals before).getLast? = some job.solution

/-- A solution is the last that has arrived, and has not been handed over. -/
def Waiting (log : List Note) (s : Solution) : Prop :=
  ∃ earlier, arrivals log = earlier ++ [s] ∧ (handovers log).Sublist earlier

variable {log : List Note} {s : Solution} {job : PublishJob}

@[simp] theorem arrivals_append (log log' : List Note) :
    arrivals (log ++ log') = arrivals log ++ arrivals log' := List.filterMap_append

@[simp] theorem handovers_append (log log' : List Note) :
    handovers (log ++ log') = handovers log ++ handovers log' := List.filterMap_append

@[simp] theorem reports_append (log log' : List Note) :
    reports (log ++ log') = reports log + reports log' := List.countP_append

@[simp] theorem arrivals_arrived (s : Solution) : arrivals [arrived s] = [s] := rfl
@[simp] theorem arrivals_handed (job : PublishJob) : arrivals [handed job] = [] := rfl
@[simp] theorem arrivals_reported : arrivals [reported] = [] := rfl
@[simp] theorem handovers_arrived (s : Solution) : handovers [arrived s] = [] := rfl
@[simp] theorem handovers_handed (job : PublishJob) :
    handovers [handed job] = [job.solution] := rfl
@[simp] theorem handovers_reported : handovers [reported] = [] := rfl
@[simp] theorem reports_arrived (s : Solution) : reports [arrived s] = 0 := rfl
@[simp] theorem reports_handed (job : PublishJob) : reports [handed job] = 0 := rfl
@[simp] theorem reports_reported : reports [reported] = 1 := rfl

/-- A further note keeps the rule if it is no hand-over, or one of the latest solution. -/
theorem Newest.append {note : Note} (h : Newest log)
    (hnote : ∀ job, note = handed job → (arrivals log).getLast? = some job.solution) :
    Newest (log ++ [note]) := by
  intro before job after hlog
  cases List.eq_nil_or_concat after with
  | inl hnil =>
    subst hnil
    obtain ⟨hbefore, hlast⟩ := List.append_inj' hlog rfl
    rw [← hbefore]
    exact hnote job (List.head_eq_of_cons_eq hlast)
  | inr hconcat =>
    obtain ⟨after, last, rfl⟩ := hconcat
    have hlog : log ++ [note] = (before ++ handed job :: after) ++ [last] := by simpa using hlog
    exact h before job after (List.append_inj' hlog rfl).1

/-- While a solution waits, those handed over have arrived before it. -/
theorem Waiting.sublist (h : Waiting log s) : (handovers log).Sublist (arrivals log) := by
  obtain ⟨earlier, harr, hsub⟩ := h
  rw [harr]
  exact hsub.trans (List.sublist_append_left earlier [s])

/-- The solution that waits is the last that has arrived. -/
theorem Waiting.getLast?_arrivals (h : Waiting log s) : (arrivals log).getLast? = some s := by
  obtain ⟨earlier, harr, -⟩ := h
  rw [harr, List.getLast?_concat]

/-- A solution that has just arrived waits, whatever has been handed over before. -/
theorem waiting_arrived (h : (handovers log).Sublist (arrivals log)) :
    Waiting (log ++ [arrived s]) s :=
  ⟨arrivals log, by simp, by simpa using h⟩

/-- A report of the publisher does not change what waits. -/
theorem Waiting.reported (h : Waiting log s) : Waiting (log ++ [reported]) s := by
  simpa [Waiting] using h

end Note

open Note

/-! ## the desk -/

/-- What the loops of a planner share and its publisher, with a log. -/
structure Desk where
  coordination : Coordination
  publisher : Publisher
  log : List Note

/-- What happens at a desk. -/
inductive DeskEvent where
  /-- The optimizer reports. -/
  | best (event : BestSolution)
  /-- New records are compared with the latest solution. -/
  | compare (records : List TaskRecord)
  /-- The changes found have been submitted. -/
  | submitted (ms : List Mutation)
  /-- The first solution shows published tasks. -/
  | recover (published : PublishedTasks)
  /-- The loop of the publisher begins to run. -/
  | start
  /-- The publisher takes a job to the runtime and comes to a gate or to none. -/
  | receive (gate : Option Nat)
  /-- The runtime has stored a plan or refused it, and the publisher reports. -/
  | report (answer : Except RuntimeError Unit)

/-- The solution of a report that may be published. -/
def DeskEvent.publishable? : DeskEvent → Option Solution
  | .best event => if event.isPublishable then some event.solution else none
  | _ => none

namespace Desk

/-- A desk where nothing has happened. -/
def initial (config : Config) : Desk := ⟨.initial, .ofConfig config, []⟩

/-- Send a job, if there is one, and note it. -/
def dispatch (d : Desk) : Option PublishJob → Desk
  | none => d
  | some job => { d with publisher := d.publisher.send job, log := d.log ++ [.handed job] }

/-- One event; the publisher makes only moves that it can make. -/
def step (d : Desk) : DeskEvent → Desk
  | .best event =>
    let (coordination, job) := d.coordination.bestSolution event d.publisher.isOpen
    let log := if event.isPublishable then d.log ++ [.arrived event.solution] else d.log
    { d with coordination, log }.dispatch job
  | .compare records => { d with coordination := (d.coordination.compare records).2 }
  | .submitted ms => { d with coordination := d.coordination.noteSubmitted ms }
  | .recover published => { d with coordination := d.coordination.recover published }
  | .start => match d.publisher.stage with
    | .unstarted => { d with publisher := d.publisher.start }
    | _ => d
  | .receive gate => match d.publisher.stage, d.publisher.jobs with
    | .idle, job :: jobs =>
      { d with publisher :=
        { d.publisher with jobs, stage := .applying (d.publisher.plan job) gate } }
    | _, _ => d
  | .report answer => match d.publisher.stage with
    | .applying plan _ =>
      let publisher := { d.publisher with stage := .idle }
      let (coordination, job) :=
        d.coordination.publishProcessed (Publisher.outcome plan answer) publisher.isOpen
      { coordination, publisher, log := d.log ++ [.reported] : Desk }.dispatch job
    | _ => d

/-- Events in order. -/
def run (d : Desk) (events : List DeskEvent) : Desk := events.foldl step d

end Desk

/-- How many jobs a publisher has been sent and has not reported on. -/
def Publisher.held (p : Publisher) : Nat :=
  p.jobs.length + match p.stage with
    | .applying _ _ => 1
    | _ => 0

namespace Publisher

@[simp] theorem isOpen_send (p : Publisher) (job : PublishJob) :
    (p.send job).isOpen = p.isOpen := by
  unfold send
  cases hopen : p.isOpen <;> simp [isOpen] at hopen ⊢ <;> simp [hopen]

/-- A publisher that is alive holds each job that it is sent. -/
theorem held_send {p : Publisher} (h : p.isOpen = true) (job : PublishJob) :
    (p.send job).held = p.held + 1 := by
  simp only [send, h, if_true, held, List.length_append, List.length_singleton]
  omega

end Publisher

namespace Coordination

/-- While the publisher is alive a solution goes to it with the published tasks of the moment. -/
theorem handOver_of_open (c : Coordination) (s : Solution) :
    c.handOver s true = ({ c with current := some s }, some ⟨s, c.published⟩) := rfl

/-- A comparison only marks and forgets published tasks. -/
theorem exists_compare (c : Coordination) (records : List TaskRecord) :
    ∃ published, (c.compare records).2 = { c with published } := by
  unfold compare
  cases c.expected? with
  | none => exact ⟨c.published, rfl⟩
  | some s => exact ⟨(Assembly.resync s records c.published).2, rfl⟩

/-- The published tasks after a report. -/
def merged (c : Coordination) (outcome : PublishOutcome) : PublishedTasks :=
  match outcome.result with
  | .ok _ => c.published.insertMany outcome.newlyPublished
  | .error _ => c.published

/-- The course of publishing after a report. -/
theorem publishProcessed_eq (c : Coordination) (outcome : PublishOutcome) (isOpen : Bool) :
    c.publishProcessed outcome isOpen = match c.next with
      | some s => { c with published := c.merged outcome, next := none }.handOver s isOpen
      | none => ({ c with published := c.merged outcome, processing := false }, none) := by
  unfold publishProcessed merged
  cases outcome.result <;> cases hnext : c.next <;> simp [hnext]

/-- The course of publishing after a report, with the published tasks that it leaves. -/
theorem exists_publishProcessed (c : Coordination) (outcome : PublishOutcome) (isOpen : Bool) :
    ∃ published, c.publishProcessed outcome isOpen = match c.next with
      | some s => { c with published, next := none }.handOver s isOpen
      | none => ({ c with published, processing := false }, none) :=
  ⟨c.merged outcome, c.publishProcessed_eq outcome isOpen⟩

end Coordination

namespace Desk

variable {d : Desk}

/-! ## what arrives -/

/-- Sending a job is no arrival. -/
@[simp] theorem arrivals_dispatch (d : Desk) (job : Option PublishJob) :
    arrivals (d.dispatch job).log = arrivals d.log := by
  cases job <;> simp [dispatch]

/-- A report that may be published arrives, whether or not it has to wait, and nothing else does. -/
theorem arrivals_step (d : Desk) (event : DeskEvent) :
    arrivals (d.step event).log = arrivals d.log ++ event.publishable?.toList := by
  cases event with
  | best event =>
    cases hpub : event.isPublishable <;> simp [step, DeskEvent.publishable?, hpub]
  | compare records => simp [step, DeskEvent.publishable?]
  | submitted ms => simp [step, DeskEvent.publishable?]
  | recover published => simp [step, DeskEvent.publishable?]
  | start => simp only [step]; split <;> simp [DeskEvent.publishable?]
  | receive gate => simp only [step]; split <;> simp [DeskEvent.publishable?]
  | report answer => simp only [step]; split <;> simp [DeskEvent.publishable?]

/-- Along a run exactly the reports that may be published arrive, in the order of the events. -/
theorem arrivals_run (d : Desk) (events : List DeskEvent) :
    arrivals (d.run events).log =
      arrivals d.log ++ events.filterMap DeskEvent.publishable? := by
  induction events generalizing d with
  | nil => exact (List.append_nil _).symm
  | cons event events ih =>
    have hcons : (event :: events).filterMap DeskEvent.publishable? =
        event.publishable?.toList ++ events.filterMap DeskEvent.publishable? := by
      cases h : event.publishable? <;> simp [h]
    calc arrivals ((d.step event).run events).log
        = arrivals (d.step event).log ++ events.filterMap DeskEvent.publishable? := ih _
      _ = arrivals d.log ++ (event :: events).filterMap DeskEvent.publishable? := by
          rw [arrivals_step, hcons, List.append_assoc]

/-! ## the invariant -/

/-- The log and the publisher are as the shared state says. -/
structure Tallied (d : Desk) : Prop where
  isOpen : d.publisher.isOpen = true
  held : d.publisher.held = d.coordination.processing.toNat
  balance : (handovers d.log).length = reports d.log + d.publisher.held
  newest : Newest d.log
  sublist : (handovers d.log).Sublist (arrivals d.log)
  current : d.coordination.current = (handovers d.log).getLast?
  /-- With nothing that waits, the last solution to arrive has been handed over. -/
  caughtUp : d.coordination.next = none → (arrivals d.log).getLast? = (handovers d.log).getLast?
  waiting : ∀ s, d.coordination.next = some s → d.coordination.processing = true ∧ Waiting d.log s

/-- A solution is to be handed over now. -/
structure Owes (d : Desk) (s : Solution) : Prop where
  isOpen : d.publisher.isOpen = true
  held : d.publisher.held = 0
  balance : (handovers d.log).length = reports d.log
  newest : Newest d.log
  waiting : Waiting d.log s
  next : d.coordination.next = none
  processing : d.coordination.processing = true

/-- Where nothing has happened the tally is right. -/
theorem tallied_initial (config : Config) : (initial config).Tallied where
  isOpen := rfl
  held := rfl
  balance := rfl
  newest before job after h := by simp [initial] at h
  sublist := List.Sublist.slnil
  current := rfl
  caughtUp _ := rfl
  waiting s h := by cases h

/-- What neither the log nor the course of publishing sees keeps the tally. -/
theorem Tallied.congr {d' : Desk} (h : d.Tallied) (hlog : d'.log = d.log)
    (hopen : d'.publisher.isOpen = d.publisher.isOpen)
    (hheld : d'.publisher.held = d.publisher.held)
    (hcurrent : d'.coordination.current = d.coordination.current)
    (hnext : d'.coordination.next = d.coordination.next)
    (hprocessing : d'.coordination.processing = d.coordination.processing) : d'.Tallied where
  isOpen := by rw [hopen, h.isOpen]
  held := by rw [hheld, hprocessing, h.held]
  balance := by rw [hlog, hheld, h.balance]
  newest := by rw [hlog]; exact h.newest
  sublist := by rw [hlog]; exact h.sublist
  current := by rw [hlog, hcurrent, h.current]
  caughtUp := by rw [hlog, hnext]; exact h.caughtUp
  waiting := by rw [hlog, hnext, hprocessing]; exact h.waiting

/-- Handing over what is due, whether it has just arrived or has waited. -/
theorem Owes.handOver {s : Solution} (h : d.Owes s) :
    let (coordination, job) := d.coordination.handOver s d.publisher.isOpen
    ({ d with coordination }.dispatch job).Tallied := by
  rw [h.isOpen, Coordination.handOver_of_open]
  have hheld := Publisher.held_send h.isOpen ⟨s, d.coordination.published⟩
  rw [h.held] at hheld
  exact {
    isOpen := by simp [dispatch, h.isOpen]
    held := by simp [dispatch, hheld, h.processing]
    balance := by simp [dispatch, hheld, h.balance]
    newest := by
      apply h.newest.append
      intro job hjob
      cases hjob
      exact h.waiting.getLast?_arrivals
    sublist := by
      obtain ⟨earlier, harr, hsub⟩ := h.waiting
      simpa [dispatch, harr] using hsub
    current := by simp [dispatch]
    caughtUp := by simp [dispatch, h.waiting.getLast?_arrivals]
    waiting := by simp [dispatch, h.next] }

/-- A report of the optimizer keeps the tally, whether its solution is handed over, waits or is
dropped. -/
theorem Tallied.best (h : d.Tallied) (event : BestSolution) : (d.step (.best event)).Tallied := by
  cases hpub : event.isPublishable with
  | false => simpa [step, Coordination.bestSolution, hpub, dispatch] using h
  | true =>
    cases hproc : d.coordination.processing with
    | true =>
      simp only [step, Coordination.bestSolution, hpub, hproc, if_true, dispatch]
      exact {
        isOpen := h.isOpen
        held := by simpa [hproc] using h.held
        balance := by simpa using h.balance
        newest := h.newest.append (by simp)
        sublist := (waiting_arrived h.sublist).sublist
        current := by simpa using h.current
        caughtUp := by simp
        waiting := by
          intro s hs
          cases hs
          exact ⟨rfl, waiting_arrived h.sublist⟩ }
    | false =>
      have hheld : d.publisher.held = 0 := by simp [h.held, hproc]
      -- nothing waits while nothing is on its way, so the solution is due at once
      have hnext : d.coordination.next = none := by
        cases hn : d.coordination.next with
        | none => rfl
        | some s => simp [(h.waiting s hn).1] at hproc
      have howes : Owes
          { d with
            coordination := { d.coordination with submitted := [], processing := true }
            log := d.log ++ [.arrived event.solution] } event.solution := {
        isOpen := h.isOpen
        held := hheld
        balance := by simpa [hheld] using h.balance
        newest := h.newest.append (by simp)
        waiting := waiting_arrived h.sublist
        next := hnext
        processing := rfl }
      simpa [step, Coordination.bestSolution, hpub, hproc] using howes.handOver

/-- Taking a job to the runtime does not change how many the publisher holds. -/
theorem Tallied.receive (h : d.Tallied) (gate : Option Nat) :
    (d.step (.receive gate)).Tallied := by
  simp only [step]
  split
  · rename_i job jobs hstage hjobs
    exact h.congr rfl (by simp [Publisher.isOpen, hstage])
      (by simp [Publisher.held, hstage, hjobs]) rfl rfl rfl
  · exact h

/-- While a plan is stored no other job waits. -/
theorem Tallied.of_applying (h : d.Tallied) {plan : PublishPlan} {gate : Option Nat}
    (hstage : d.publisher.stage = .applying plan gate) :
    d.publisher.jobs = [] ∧ d.coordination.processing = true := by
  have hheld : d.publisher.jobs.length + 1 = d.coordination.processing.toNat := by
    rw [← h.held, Publisher.held, hstage]
  cases hproc : d.coordination.processing with
  | true => exact ⟨List.length_eq_zero_iff.1 (by simpa [hproc] using hheld), rfl⟩
  | false => simp [hproc] at hheld

/-- A report of the publisher settles one job and hands over what waits. -/
theorem Tallied.report (h : d.Tallied) (answer : Except RuntimeError Unit) :
    (d.step (.report answer)).Tallied := by
  simp only [step]
  split
  · rename_i plan gate hstage
    obtain ⟨hjobs, hproc⟩ := h.of_applying hstage
    -- the report settles the one job that the publisher held
    have hbalance : (handovers (d.log ++ [.reported])).length = reports (d.log ++ [.reported]) := by
      have hbal := h.balance
      rw [Publisher.held, hstage, hjobs] at hbal
      simpa using hbal
    have hopen : Publisher.isOpen { d.publisher with stage := .idle } = true := rfl
    obtain ⟨published, hprocessed⟩ :=
      d.coordination.exists_publishProcessed (Publisher.outcome plan answer) true
    rw [hopen, hprocessed]
    cases hnext : d.coordination.next with
    | some s =>
      have howes : Owes
          ⟨{ d.coordination with published, next := none }, { d.publisher with stage := .idle },
            d.log ++ [.reported]⟩ s := {
        isOpen := rfl
        held := by simp [Publisher.held, hjobs]
        balance := hbalance
        newest := h.newest.append (by simp)
        waiting := (h.waiting s hnext).2.reported
        next := rfl
        processing := hproc }
      exact howes.handOver
    | none =>
      exact {
        isOpen := rfl
        held := by simp [dispatch, Publisher.held, hjobs]
        balance := by simpa [dispatch, Publisher.held, hjobs] using hbalance
        newest := h.newest.append (by simp)
        sublist := by simpa [dispatch] using h.sublist
        current := by simpa [dispatch] using h.current
        caughtUp := by simpa [dispatch] using h.caughtUp hnext
        waiting := by simp [dispatch] }
  · exact h

/-- Every event keeps the tally. -/
theorem Tallied.step (h : d.Tallied) (event : DeskEvent) : (d.step event).Tallied := by
  cases event with
  | best event => exact h.best event
  | compare records =>
    obtain ⟨published, hcompare⟩ := d.coordination.exists_compare records
    rw [Desk.step, hcompare]
    exact h.congr rfl rfl rfl rfl rfl rfl
  | submitted ms => exact h.congr rfl rfl rfl rfl rfl rfl
  | recover published => exact h.congr rfl rfl rfl rfl rfl rfl
  | start =>
    simp only [Desk.step]
    split
    · rename_i hstage
      exact h.congr rfl (by simp [Publisher.isOpen, Publisher.start, hstage])
        (by simp [Publisher.held, Publisher.start, hstage]) rfl rfl rfl
    · exact h
  | receive gate => exact h.receive gate
  | report answer => exact h.report answer

/-- Along every run the tally is kept. -/
theorem Tallied.run (h : d.Tallied) (events : List DeskEvent) : (d.run events).Tallied := by
  induction events generalizing d with
  | nil => exact h
  | cons event events ih => exact ih (h.step event)

/-- The solution that waits, or else the current one, is the last that has arrived. -/
theorem Tallied.latest (h : d.Tallied) :
    (d.coordination.next <|> d.coordination.current) = (arrivals d.log).getLast? := by
  cases hnext : d.coordination.next with
  | none => rw [h.caughtUp hnext, ← h.current]; rfl
  | some s => rw [(h.waiting s hnext).2.getLast?_arrivals]; rfl

/-- In whatever order solutions arrive, records are compared and the publisher takes jobs and
reports on them, as long as it is alive: what arrives are the reports that may be published, in
order; the publisher holds at most one job, and that exactly while a solution is noted to be on its
way; a solution waits only then; each job carries the solution that was the last to arrive;
solutions are handed over in the order of their arrival, each at most once; and the solution that
waits, or else the current one, is the last that has arrived, and it has been handed over as soon as
none is on its way. -/
theorem one_on_its_way_latest_wins (config : Config) (events : List DeskEvent) :
    let d := (initial config).run events
    let c := d.coordination
    let outstanding := (handovers d.log).length - reports d.log
    arrivals d.log = events.filterMap DeskEvent.publishable? ∧
      (reports d.log ≤ (handovers d.log).length ∧
        outstanding = d.publisher.held ∧ outstanding ≤ 1) ∧
      (c.processing = true ↔ outstanding = 1) ∧
      (c.next.isSome = true → c.processing = true) ∧
      (∀ before job after, d.log = before ++ .handed job :: after →
        (arrivals before).getLast? = some job.solution) ∧
      (handovers d.log).Sublist (arrivals d.log) ∧
      (c.next <|> c.current) = (arrivals d.log).getLast? ∧
      (c.processing = false → (arrivals d.log).getLast? = (handovers d.log).getLast?) := by
  intro d c outstanding
  have h : d.Tallied := (tallied_initial config).run events
  have hbalance : (handovers d.log).length = reports d.log + d.publisher.held := h.balance
  have hheld : d.publisher.held = c.processing.toNat := h.held
  have hout : outstanding = d.publisher.held := by
    show (handovers d.log).length - reports d.log = d.publisher.held
    omega
  have hone : outstanding ≤ 1 := by
    rw [hout, hheld]
    exact Bool.toNat_le c.processing
  have hwaits : c.next.isSome = true → c.processing = true := by
    intro hnext
    obtain ⟨s, hs⟩ := Option.isSome_iff_exists.1 hnext
    exact (h.waiting s hs).1
  have hidle : c.processing = false → (arrivals d.log).getLast? = (handovers d.log).getLast? := by
    intro hproc
    apply h.caughtUp
    cases hnext : c.next with
    | none => rfl
    | some s => simp [hwaits (by simp [hnext])] at hproc
  have harrived : arrivals d.log = events.filterMap DeskEvent.publishable? :=
    (initial config).arrivals_run events
  exact ⟨harrived, ⟨by omega, hout, hone⟩, by rw [hout, hheld]; cases c.processing <;> simp, hwaits,
    h.newest, h.sublist, h.latest, hidle⟩

/-- Two solutions arrive while the first one is on its way, and a report that may not be published.
The later of the two waits; it is handed over when the publisher reports, the other one never. -/
theorem one_on_its_way_latest_wins_in_flight :
    let early : Solution := .ofUsers [.ofId ⟨"ann"⟩]
    let stale : Solution := .ofUsers [.ofId ⟨"ben"⟩]
    let late : Solution := .ofUsers [.ofId ⟨"cal"⟩]
    let events : List DeskEvent := [.best ⟨early, true, true⟩, .start, .receive none,
      .best ⟨stale, true, true⟩, .best ⟨late, true, true⟩, .best ⟨stale, false, true⟩]
    let d := (initial .default).run events
    let d' := (initial .default).run (events ++ [.report (.ok ())])
    (handovers d.log = [early] ∧ d.coordination.next = some late) ∧
      handovers d'.log = [early, late] ∧
      (arrivals d.log = [early, stale, late] ∧
        (d.coordination.next <|> d.coordination.current) = some late) ∧
      (d'.coordination.next <|> d'.coordination.current) = some late := by
  intro early stale late events d d'
  obtain ⟨harrived, -, -, -, -, -, hlatest, -⟩ := one_on_its_way_latest_wins .default events
  obtain ⟨harrived', -, -, -, -, -, hlatest', -⟩ :=
    one_on_its_way_latest_wins .default (events ++ [.report (.ok ())])
  exact ⟨⟨rfl, rfl⟩, rfl, ⟨harrived, hlatest.trans (congrArg List.getLast? harrived)⟩,
    hlatest'.trans (congrArg List.getLast? harrived')⟩

end Desk

end ChainPlanner
