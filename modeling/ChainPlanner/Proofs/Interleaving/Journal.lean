import ChainPlanner.Proofs.Interleaving.Moves
import ChainPlanner.Proofs.Publishing.Handover

/-!
# ChainPlanner.Proofs.Interleaving.Journal

A planner on its moves, with a journal of the changes that were submitted to the optimizer.

All batches together are one list of changes in the order of their submission.  The optimizer takes
them in that order, so what its working copy has had is an initial part of the list, and so is what
the latest solution has had, which the working copy was when a report on it was built.  The journal
keeps the two parts, `made` and `arrived`; what follows `arrived` is `unconfirmed`.  It is read by
the theorems only.

`Kept` is the invariant.  It holds of a planner whose optimizer has just begun, and every move keeps
it (`Kept.step`).  The lemma for a move also says what happens to the two records that matter for a
refresh, the unconfirmed changes and those that the planner has noted as submitted: both grow by the
same changes, or a publishable report is delivered and the planner strikes out all that it has
noted, whatever has been queued since the report was built.
-/

namespace ChainPlanner

/-! ## what the shared state does -/

namespace Coordination

variable {c : Coordination} {event : BestSolution}

/-- A report that may not be published changes nothing. -/
theorem bestSolution_of_unpublishable (h : event.isPublishable = false) (isOpen : Bool) :
    c.bestSolution event isOpen = (c, none) := by
  rw [bestSolution, if_neg (by simp [h])]

/-- A publishable report becomes the latest solution, and the changes noted are struck out. -/
theorem bestSolution_of_publishable (h : event.isPublishable = true)
    (hbusy : c.next.isSome = true → c.processing = true) (isOpen : Bool) :
    let c' := (c.bestSolution event isOpen).1
    c'.latest? = some event.solution ∧ c'.submitted = [] ∧
      (c'.next.isSome = true → c'.processing = true) := by
  rw [bestSolution, if_pos h]
  cases hprocessing : c.processing with
  | true => exact ⟨rfl, rfl, fun _ => rfl⟩
  | false =>
    have hnext : c.next = none := by
      cases hnext : c.next with
      | none => rfl
      | some s => simp [hnext, hprocessing] at hbusy
    cases isOpen <;> simp [handOver, latest?, hnext]

/-- When the publisher reports, the latest solution stays the latest. -/
theorem latest?_publishProcessed (c : Coordination) (outcome : PublishOutcome) (isOpen : Bool) :
    let c' := (c.publishProcessed outcome isOpen).1
    c'.latest? = c.latest? ∧ c'.submitted = c.submitted ∧
      (c'.next.isSome = true → c'.processing = true) := by
  obtain ⟨published, h⟩ := c.exists_publishProcessed outcome isOpen
  rw [h]
  cases hnext : c.next with
  | none => simp [latest?, hnext]
  | some s => cases isOpen <;> simp [handOver, latest?, hnext]

end Coordination

/-! ## what the moves of a planner do -/

namespace Planner

variable {p p' : Planner} {queue : List Batch} {search : Search} {event : BestSolution}

@[simp] theorem coordination_sendJob (p : Planner) (job : Option PublishJob) :
    (p.sendJob job).coordination = p.coordination := by cases job <;> rfl

@[simp] theorem optimizer_sendJob (p : Planner) (job : Option PublishJob) :
    (p.sendJob job).optimizer = p.optimizer := by cases job <;> rfl

@[simp] theorem driver_sendJob (p : Planner) (job : Option PublishJob) :
    (p.sendJob job).driver = p.driver := by cases job <;> rfl

@[simp] theorem batches_sendJob (p : Planner) (job : Option PublishJob) :
    (p.sendJob job).batches = p.batches := by cases job <;> rfl

/-- A delivered report of a driver that has not been destroyed reaches the shared state. -/
theorem exists_of_searchStep {search' : Search} (hstate : p.driver.state = .started)
    (hp : p.optimizer = .greedy queue (some search)) (hs : search.step = (search', some event)) :
    p.searchStep.driver = p.driver ∧ p.searchStep.optimizer = .greedy queue (some search') ∧
      p.searchStep.batches = p.batches ∧ ∃ isOpen,
        p.searchStep.coordination = (p.coordination.bestSolution event isOpen).1 := by
  have hforwards : p.driver.forwards = true := by
    simp [Driver.forwards, Driver.isDestroyed, hstate]
  rw [searchStep_of_delivers hp hs, forward, if_pos hforwards]
  exact ⟨driver_sendJob _ _, optimizer_sendJob _ _, batches_sendJob _ _,
    p.publisher.isOpen, coordination_sendJob _ _⟩

/-- The publisher changes the shared state by its reports only. -/
theorem exists_of_publishStep? (h : p.publishStep? = some p') :
    p'.driver = p.driver ∧ p'.optimizer = p.optimizer ∧ p'.batches = p.batches ∧
      (p'.coordination = p.coordination ∨ ∃ outcome isOpen,
        p'.coordination = (p.coordination.publishProcessed outcome isOpen).1) := by
  simp only [publishStep?, bind, Option.bind_eq_some_iff] at h
  obtain ⟨⟨publisher, runtime, report⟩, -, h⟩ := h
  cases report with
  | none =>
    cases h
    exact ⟨rfl, rfl, rfl, .inl rfl⟩
  | some outcome =>
    cases h
    exact ⟨driver_sendJob _ _, optimizer_sendJob _ _, batches_sendJob _ _,
      .inr ⟨outcome, publisher.isOpen, coordination_sendJob _ _⟩⟩

/-- A refresh of a planner whose optimizer solves submits and notes what it finds. -/
theorem refresh_of_compare {ms : List Mutation} {c : Coordination} {records : List TaskRecord}
    (hstate : p.driver.state = .started) (hbuilt : p.driver.built = true)
    (hp : p.optimizer = .greedy queue (some search))
    (hcompare : p.coordination.compare records = (.ok ms, c)) :
    refresh records p = (some ms.length, if ms = [] then { p with coordination := c } else { p with
      optimizer := .greedy queue (some (search.submit ms))
      batches := p.batches ++ [ms]
      coordination := c.noteSubmitted ms }) := by
  cases ms with
  | nil => simp [refresh, hcompare]
  | cons m ms => simp [refresh, hcompare, submit, Driver.submit, hstate, hbuilt, hp]

/-- A comparison that fails leaves the published tasks as it left them. -/
theorem refresh_of_error {e : AssemblyError} {c : Coordination} {records : List TaskRecord}
    (hcompare : p.coordination.compare records = (.error e, c)) :
    refresh records p = (none, { p with coordination := c }) := by
  rw [refresh, hcompare]

/-- A refresh changes the published tasks, and beside them only what it submits and notes. -/
theorem refresh_cases (hstate : p.driver.state = .started) (hbuilt : p.driver.built = true)
    (hp : p.optimizer = .greedy queue (some search)) (records : List TaskRecord) :
    ∃ published, (refresh records p).2 =
        { p with coordination := { p.coordination with published } } ∨
      ∃ ms, ms ≠ [] ∧ (refresh records p).2 = { p with
        optimizer := .greedy queue (some (search.submit ms))
        batches := p.batches ++ [ms]
        coordination := { p.coordination with
          published, submitted := p.coordination.submitted ++ ms } } := by
  obtain ⟨published, hc⟩ := p.coordination.exists_compare records
  cases hanswer : p.coordination.compare records with
  | mk answer c =>
    rw [hanswer] at hc
    have hc : c = { p.coordination with published } := hc
    subst hc
    cases answer with
    | error e => exact ⟨published, .inl (by rw [refresh_of_error hanswer])⟩
    | ok ms =>
      rw [refresh_of_compare hstate hbuilt hp hanswer]
      by_cases hms : ms = []
      · exact ⟨published, .inl (if_pos hms)⟩
      · exact ⟨published, .inr ⟨ms, hms, if_neg hms⟩⟩

/-! ## the beginning -/

/-- The optimizer has just begun to solve, and nothing else has happened. -/
structure Begun (p : Planner) (initial : Solution) : Prop where
  state : p.driver.state = .started
  built : p.driver.built = true
  optimizer : p.optimizer = .greedy [] (some (.ofSolution initial [] false))
  current : p.coordination.current = none
  next : p.coordination.next = none
  submitted : p.coordination.submitted = []
  batches : p.batches = []

/-- That is so when the loop of a driver that has been started takes its permit. -/
theorem begun_takePermit {initial : Solution} {permits : Nat} (hloop : p.driverLoop = .waiting)
    (hdriver : p.driver = ⟨.started, true, some initial, permits + 1⟩)
    (hoptimizer : p.optimizer = .greedy [] none) (hcurrent : p.coordination.current = none)
    (hnext : p.coordination.next = none) (hsubmitted : p.coordination.submitted = [])
    (hbatches : p.batches = []) : p.takePermit.Begun initial := by
  have hpermit : p.takePermit = { p with
      driver := ⟨.started, true, none, permits⟩
      optimizer := .greedy [] (some (.ofSolution initial [] false))
      driverLoop := .solving } := by
    simp [takePermit, hloop, hdriver, Driver.release?, Driver.isDestroyed, beginSolving,
      hoptimizer]
  rw [hpermit]
  exact ⟨rfl, rfl, rfl, hcurrent, hnext, hsubmitted, hbatches⟩

/-- A planner whose optimizer is about to begin from a solution, with a publisher that waits. -/
def aboutToSolve (initial : Solution) (records : List TaskRecord) : Planner :=
  { Planner.new .default (.ofTasks records) (.ofUsers []) (.greedy [] none) none with
    driver := ⟨.started, true, some initial, 1⟩
    driverLoop := .waiting
    publisher := (Publisher.ofConfig .default).start }

/-- A planner that is about to solve begins. -/
theorem begun_aboutToSolve (initial : Solution) (records : List TaskRecord) :
    (aboutToSolve initial records).takePermit.Begun initial :=
  begun_takePermit rfl rfl rfl rfl rfl rfl rfl

/-- Calls that leave a worker with a chain of one task. -/
def callsForOne : List Operation :=
  [.addUser (.ofId ⟨"ann"⟩), .addTask (.ofId ⟨1⟩ "" .lowest),
    .linkAfter (.user ⟨"ann"⟩) ⟨1⟩]

end Planner

/-! ## the journal -/

/-- A planner, and what has become of the changes that were submitted to its optimizer. -/
structure Journal where
  planner : Planner
  /-- The changes that the working copy has had. -/
  made : List Mutation
  /-- The changes that the latest solution has had. -/
  arrived : List Mutation

namespace Journal

open Planner

/-- A journal in which nothing is written yet. -/
def ofPlanner (p : Planner) : Journal := ⟨p, [], []⟩

/-- The changes that have been submitted and that the latest solution has not had. -/
def unconfirmed (j : Journal) : List Mutation :=
  j.planner.batches.flatten.drop j.arrived.length

/-- The changes that the planner has noted as submitted. -/
def noted (j : Journal) : List Mutation := j.planner.coordination.submitted

/-- A move, and what it adds to the journal. -/
def step (j : Journal) : Move → Journal
  | .optimize =>
    { planner := j.planner.searchStep
      made := j.made ++ (j.planner.search?.map Search.taken).getD []
      arrived := if (j.planner.search?.bind Search.delivers?).isSome then j.made else j.arrived }
  | m => { j with planner := j.planner.move m }

/-- Moves in order. -/
def run (j : Journal) (moves : List Move) : Journal := moves.foldl step j

variable {j : Journal} {search : Search} {L : Solution}

/-- Moves can be made in two parts. -/
theorem run_append (j : Journal) (moves moves' : List Move) :
    j.run (moves ++ moves') = (j.run moves).run moves' := List.foldl_append

/-- A journal does not interfere with its planner. -/
theorem planner_step (j : Journal) (m : Move) : (j.step m).planner = j.planner.move m := by
  cases m <;> rfl

/-- A journal does not interfere with its planner, move by move. -/
theorem planner_run (j : Journal) (moves : List Move) :
    (j.run moves).planner = j.planner.run moves := by
  induction moves generalizing j with
  | nil => rfl
  | cons m moves ih =>
    have htail := ih (j.step m)
    rw [planner_step] at htail
    exact htail

/-! ## the invariant -/

/-- The journal of a planner whose optimizer began from `L` is kept well.  What the working copy and
the latest solution have had are initial parts of what was submitted, and both are `L` with these
changes made and tasks placed in between. -/
structure Kept (L : Solution) (j : Journal) (search : Search) : Prop where
  state : j.planner.driver.state = .started
  built : j.planner.driver.built = true
  optimizer : j.planner.optimizer = .greedy [] (some search)
  busy : j.planner.coordination.next.isSome = true → j.planner.coordination.processing = true
  history : j.planner.batches.flatten = j.made ++ search.taken ++ search.queue.flatten
  nonempty : ∀ batch ∈ search.queue, batch ≠ []
  working : ∃ steps, WorkStep.changes steps = j.made ∧
    search.working = WorkStep.runAll steps L
  report : ∀ event, search.stage = .reporting event → event.solution = search.working
  arrived : j.arrived <+: j.made
  latest : ∀ s, j.planner.coordination.latest? = some s →
    ∃ steps, WorkStep.changes steps = j.arrived ∧ s = WorkStep.runAll steps L

/-- The journal of a planner that begins is kept. -/
theorem kept_ofPlanner {p : Planner} (h : p.Begun L) :
    Kept L (ofPlanner p) (.ofSolution L [] false) where
  state := h.state
  built := h.built
  optimizer := h.optimizer
  busy hnext := by simp [ofPlanner, h.next] at hnext
  history := by
    rw [ofPlanner, h.batches]
    rfl
  nonempty := by simp [Search.ofSolution]
  working := ⟨[], rfl, rfl⟩
  report _ hstage := nomatch hstage
  arrived := List.prefix_rfl
  latest s hs := by simp [ofPlanner, Coordination.latest?, h.next, h.current] at hs

/-- The optimizer solves. -/
theorem Kept.search?_eq (h : Kept L j search) : j.planner.search? = some search := by
  rw [search?, h.optimizer]

/-- What has arrived was submitted first. -/
theorem Kept.arrived_prefix (h : Kept L j search) : j.arrived <+: j.planner.batches.flatten := by
  rw [h.history, List.append_assoc]
  exact h.arrived.trans (List.prefix_append _ _)

/-- What was submitted is what the latest solution has had and what is unconfirmed. -/
theorem Kept.batches_eq (h : Kept L j search) :
    j.planner.batches.flatten = j.arrived ++ j.unconfirmed :=
  List.prefix_iff_eq_append.1 h.arrived_prefix |>.symm

/-- What a refresh compares records with: the latest solution has had some of the changes submitted,
and those noted are made as well. -/
theorem Kept.expected (h : Kept L j search) {s : Solution}
    (hs : j.planner.coordination.expected? = some s) :
    ∃ steps, WorkStep.changes steps = j.arrived ++ j.noted ∧ s = WorkStep.runAll steps L := by
  obtain ⟨latest, hlatest, rfl⟩ := Option.map_eq_some_iff.1 hs
  obtain ⟨steps, hsteps, rfl⟩ := h.latest latest hlatest
  refine ⟨steps ++ j.noted.map .change, ?_, ?_⟩
  · rw [WorkStep.changes_append, hsteps, WorkStep.changes_map_change]
  · rw [WorkStep.runAll_append, WorkStep.runAll_map_change, noted]

/-! ## the moves -/

/-- What the unconfirmed changes and the changes noted come to by a move that keeps the journal. -/
structure Adds (j j' : Journal) (ms : List Mutation) : Prop where
  unconfirmed : j'.unconfirmed = j.unconfirmed ++ ms
  noted : j'.noted = j.noted ++ ms

/-- Where nothing is submitted, delivered or noted, nothing is added. -/
theorem Adds.of_eq {j' : Journal} (hbatches : j'.planner.batches = j.planner.batches)
    (harrived : j'.arrived = j.arrived)
    (hnoted : j'.planner.coordination.submitted = j.planner.coordination.submitted) :
    Adds j j' [] := by
  constructor
  · rw [Journal.unconfirmed, Journal.unconfirmed, hbatches, harrived, List.append_nil]
  · rw [Journal.noted, Journal.noted, hnoted, List.append_nil]

/-- A step of the optimizer that delivers nothing to be published. -/
theorem Kept.silent {search' : Search} (h : Kept L j search)
    (hs : search.step = (search', none)) :
    search.delivers? = none ∧ Kept L (j.step .optimize) search' ∧
      Adds j (j.step .optimize) [] := by
  obtain ⟨hqueue, hsub, ⟨steps, hchanges, hworking⟩, hreport⟩ := search.step_silent hs
  have hdelivers : search.delivers? = none := by
    cases hstage : search.stage with
    | reporting event => simp [Search.step, hstage] at hs
    | _ => simp [Search.delivers?, hstage]
  have hstep : j.step .optimize = ⟨{ j.planner with optimizer := .greedy [] (some search') },
      j.made ++ search.taken, j.arrived⟩ := by
    simp only [step, searchStep_of_silent h.optimizer hs, h.search?_eq, Option.map_some,
      Option.getD_some, Option.bind_some, hdelivers]
    rfl
  rw [hstep]
  refine ⟨hdelivers, ?_, .of_eq rfl rfl rfl⟩
  obtain ⟨before, hbefore, hcopy⟩ := h.working
  exact {
    state := h.state
    built := h.built
    optimizer := rfl
    busy := h.busy
    history := by
      rw [List.append_assoc, hqueue]
      exact h.history
    nonempty := fun batch hbatch => h.nonempty batch (hsub hbatch)
    working := ⟨before ++ steps, by rw [WorkStep.changes_append, hbefore, hchanges],
      by rw [hworking, hcopy, WorkStep.runAll_append]⟩
    report := hreport
    arrived := h.arrived.trans (List.prefix_append _ _)
    latest := h.latest }

/-- A report is delivered.  One that may be published makes the latest solution, and strikes out
what has been noted. -/
theorem Kept.delivers {search' : Search} {event : BestSolution} (h : Kept L j search)
    (hs : search.step = (search', some event)) :
    Kept L (j.step .optimize) search' ∧
      (search.delivers? = none → Adds j (j.step .optimize) []) ∧
      (search.delivers?.isSome = true → (j.step .optimize).unconfirmed = search.queue.flatten ∧
        (j.step .optimize).noted = []) := by
  obtain ⟨hstage, rfl⟩ := search.step_delivers hs
  obtain ⟨hdriver, hoptimizer, hbatches, isOpen, hcoordination⟩ :=
    exists_of_searchStep h.state h.optimizer hs
  have htaken : search.taken = [] := by rw [Search.taken, hstage]
  have hmade : (j.step .optimize).made = j.made := by simp [step, h.search?_eq, htaken]
  have hplanner : (j.step .optimize).planner = j.planner.searchStep := rfl
  have hhistory : j.planner.batches.flatten = j.made ++ search.queue.flatten := by
    rw [h.history, htaken, List.append_nil]
  -- the search waits for changes again; only the shared state depends on the report
  have hkept : ∀ arrived, (j.step .optimize).arrived = arrived → arrived <+: j.made →
      (j.planner.searchStep.coordination.next.isSome = true →
        j.planner.searchStep.coordination.processing = true) →
      (∀ s, j.planner.searchStep.coordination.latest? = some s →
        ∃ steps, WorkStep.changes steps = arrived ∧ s = WorkStep.runAll steps L) →
      Kept L (j.step .optimize) { search with stage := .polling false } := by
    intro arrived harrived hprefix hbusy hlatest
    exact {
      state := by rw [hplanner, hdriver, h.state]
      built := by rw [hplanner, hdriver, h.built]
      optimizer := by rw [hplanner, hoptimizer]
      busy := hbusy
      history := by
        rw [hplanner, hbatches, hmade]
        simpa [Search.taken] using hhistory
      nonempty := h.nonempty
      working := by rw [hmade]; exact h.working
      report := by
        rintro event ⟨⟩
      arrived := by rw [harrived, hmade]; exact hprefix
      latest := by rw [harrived]; exact hlatest }
  cases hpublishable : event.isPublishable with
  | false =>
    rw [Coordination.bestSolution_of_unpublishable hpublishable] at hcoordination
    have harrived : (j.step .optimize).arrived = j.arrived := by
      simp [step, h.search?_eq, Search.delivers?, hstage, hpublishable]
    have hdelivers : search.delivers? = none := by
      simp [Search.delivers?, hstage, hpublishable]
    refine ⟨hkept j.arrived harrived h.arrived ?_ ?_,
      fun _ => .of_eq hbatches harrived ?_, fun hsome => ?_⟩
    · rw [hcoordination]
      exact h.busy
    · rw [hcoordination]
      exact h.latest
    · rw [hplanner, hcoordination]
    · rw [hdelivers] at hsome
      cases hsome
  | true =>
    obtain ⟨hlatest, hsubmitted, hbusy⟩ :=
      Coordination.bestSolution_of_publishable hpublishable h.busy isOpen
    rw [← hcoordination] at hlatest hsubmitted hbusy
    have hdelivers : search.delivers? = some event := by
      simp [Search.delivers?, hstage, hpublishable]
    have harrived : (j.step .optimize).arrived = j.made := by
      simp [step, h.search?_eq, hdelivers]
    refine ⟨hkept j.made harrived List.prefix_rfl hbusy ?_, fun hnone => ?_, fun _ => ⟨?_, ?_⟩⟩
    · rw [hlatest]
      rintro s ⟨⟩
      rw [h.report event hstage]
      exact h.working
    · rw [hdelivers] at hnone
      cases hnone
    · rw [unconfirmed, harrived, hplanner, hbatches, hhistory, List.drop_left]
    · rw [noted, hplanner, hsubmitted]

/-- A refresh notes what it submits. -/
theorem Kept.refresh (h : Kept L j search) (records : List TaskRecord) :
    ∃ search' ms, Kept L (j.step (.refresh records)) search' ∧
      Adds j (j.step (.refresh records)) ms := by
  obtain ⟨published, hsame | ⟨ms, hms, hsubmit⟩⟩ :=
    refresh_cases h.state h.built h.optimizer records
  · have hstep : j.step (.refresh records) = ⟨{ j.planner with
        coordination := { j.planner.coordination with published } }, j.made, j.arrived⟩ := by
      rw [step, move, hsame]
      intro he
      cases he
    rw [hstep]
    exact ⟨search, [], ⟨h.state, h.built, h.optimizer, h.busy, h.history, h.nonempty, h.working,
      h.report, h.arrived, h.latest⟩, .of_eq rfl rfl rfl⟩
  · have hstep : j.step (.refresh records) = ⟨{ j.planner with
        optimizer := .greedy [] (some (search.submit ms))
        batches := j.planner.batches ++ [ms]
        coordination := { j.planner.coordination with
          published, submitted := j.planner.coordination.submitted ++ ms } },
        j.made, j.arrived⟩ := by
      rw [step, move, hsubmit]
      intro he
      cases he
    rw [hstep]
    have hqueue : (search.submit ms).queue = search.queue ++ [ms] := rfl
    have hnonempty : ∀ batch ∈ (search.submit ms).queue, batch ≠ [] := by
      intro batch hbatch
      rw [hqueue, List.mem_append, List.mem_singleton] at hbatch
      rcases hbatch with hbatch | rfl
      · exact h.nonempty batch hbatch
      · exact hms
    have hhistory : (j.planner.batches ++ [ms]).flatten =
        j.made ++ (search.submit ms).taken ++ (search.submit ms).queue.flatten := by
      rw [hqueue, List.flatten_append, List.flatten_append, h.history, List.append_assoc _ _
        ([ms].flatten)]
      rfl
    have hadds : (j.planner.batches ++ [ms]).flatten.drop j.arrived.length =
        j.unconfirmed ++ ms := by
      rw [List.flatten_append, List.drop_append_of_le_length h.arrived_prefix.length_le,
        List.flatten_singleton, unconfirmed]
    exact ⟨search.submit ms, ms, ⟨h.state, h.built, rfl, h.busy, hhistory, hnonempty, h.working,
      h.report, h.arrived, h.latest⟩, hadds, rfl⟩

/-- The publisher and the runtime see nothing of the changes. -/
theorem Kept.publish (h : Kept L j search) :
    Kept L (j.step .publish) search ∧ Adds j (j.step .publish) [] := by
  have hstep : j.step .publish = ⟨j.planner.publishStep?.getD j.planner, j.made, j.arrived⟩ := rfl
  cases hpublish : j.planner.publishStep? with
  | none =>
    rw [hpublish] at hstep
    rw [hstep]
    exact ⟨h, .of_eq rfl rfl rfl⟩
  | some p =>
    rw [hpublish, Option.getD_some] at hstep
    rw [hstep]
    obtain ⟨hdriver, hoptimizer, hbatches, hcoordination⟩ := exists_of_publishStep? hpublish
    obtain ⟨hlatest, hsubmitted, hbusy⟩ :
        p.coordination.latest? = j.planner.coordination.latest? ∧
          p.coordination.submitted = j.planner.coordination.submitted ∧
          (p.coordination.next.isSome = true → p.coordination.processing = true) := by
      rcases hcoordination with hsame | ⟨outcome, isOpen, hprocessed⟩
      · rw [hsame]
        exact ⟨rfl, rfl, h.busy⟩
      · rw [hprocessed]
        exact j.planner.coordination.latest?_publishProcessed outcome isOpen
    refine ⟨?_, .of_eq hbatches rfl hsubmitted⟩
    exact {
      state := by rw [hdriver, h.state]
      built := by rw [hdriver, h.built]
      optimizer := by rw [hoptimizer, h.optimizer]
      busy := hbusy
      history := by rw [hbatches, h.history]
      nonempty := h.nonempty
      working := h.working
      report := h.report
      arrived := h.arrived
      latest := by rw [hlatest]; exact h.latest }

/-- A move that delivers a publishable report of the optimizer. -/
def Strikes (search : Search) (m : Move) : Prop :=
  m = .optimize ∧ search.delivers?.isSome = true

/-- Every move keeps the journal.  One that delivers a publishable report leaves what is queued as
unconfirmed and nothing noted; any other extends what is unconfirmed and what is noted by the same
changes. -/
theorem Kept.step (h : Kept L j search) (m : Move) : ∃ search', Kept L (j.step m) search' ∧
    (¬ Strikes search m → ∃ ms, Adds j (j.step m) ms) ∧
    (Strikes search m → (j.step m).unconfirmed = search.queue.flatten ∧ (j.step m).noted = []) := by
  cases m with
  | optimize =>
    cases hs : search.step with
    | mk search' answer =>
      cases answer with
      | none =>
        obtain ⟨hdelivers, hkept, hadds⟩ := h.silent hs
        refine ⟨search', hkept, fun _ => ⟨[], hadds⟩, fun ⟨_, hsome⟩ => ?_⟩
        rw [hdelivers] at hsome
        cases hsome
      | some event =>
        obtain ⟨hkept, hadds, hstruck⟩ := h.delivers hs
        refine ⟨search', hkept, fun hno => ⟨[], hadds ?_⟩, fun ⟨_, hsome⟩ => hstruck hsome⟩
        simpa [Strikes] using hno
  | refresh records =>
    obtain ⟨search', ms, hkept, hadds⟩ := h.refresh records
    exact ⟨search', hkept, fun _ => ⟨ms, hadds⟩, fun ⟨he, _⟩ => nomatch he⟩
  | publish =>
    exact ⟨search, h.publish.1, fun _ => ⟨[], h.publish.2⟩, fun ⟨he, _⟩ => nomatch he⟩
  | outside f =>
    refine ⟨search, ?_, fun _ => ⟨[], .of_eq rfl rfl rfl⟩, fun ⟨he, _⟩ => nomatch he⟩
    exact ⟨h.state, h.built, h.optimizer, h.busy, h.history, h.nonempty, h.working, h.report,
      h.arrived, h.latest⟩

/-- A journal is kept well on every run. -/
theorem Kept.run (h : Kept L j search) (moves : List Move) :
    ∃ search', Kept L (j.run moves) search' := by
  induction moves generalizing j search with
  | nil => exact ⟨search, h⟩
  | cons m moves ih =>
    obtain ⟨search', hkept, -⟩ := h.step m
    exact ih hkept

end Journal

end ChainPlanner
