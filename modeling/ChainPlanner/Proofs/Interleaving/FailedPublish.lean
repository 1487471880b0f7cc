import ChainPlanner.Proofs.Interleaving.StaleRecords

/-!
# ChainPlanner.Proofs.Interleaving.FailedPublish

What becomes of a plan that the runtime refuses.

The publisher reports that the plan could not be stored.  If a newer solution waits by then it is
handed over, and otherwise the planner is idle, with a current solution that nobody has stored.  The
next look at the runtime is meant to be the retry, but a refresh only submits changes: it hands
nothing over, and an optimizer that is given no change makes no report.  So the plan is tried again,
as a part of a newer one, once a refresh finds a change, and until then it is lost.

`Accounted` is the invariant of a run.  It follows the plan that is on its way from the hand-over to
the answer of the runtime, so that in an idle planner the last answer was about the current solution
(`Accounted.run`).  `AtRest` describes an idle planner whose optimizer waits, and it stays so as
long as refreshes find nothing (`AtRest.run`).
-/

namespace ChainPlanner

open Assembly

/-! ## an optimizer that waits -/

/-- Where a loop is that has reported on its working copy and has taken no batch since. -/
def SearchStage.waits : SearchStage → Bool
  | .polling dirty => !dirty
  | .holding batches dirty => batches.isEmpty && !dirty
  | _ => false

/-- A loop waits when it has found nothing to do, or is about to. -/
theorem SearchStage.waits_iff {stage : SearchStage} :
    stage.waits = true ↔ stage = .polling false ∨ stage = .holding [] false := by
  cases stage <;> simp [waits]

namespace Search

/-- The loop waits for changes, and there are none. -/
structure Rests (s : Search) : Prop where
  running : s.terminated = false
  queue : s.queue = []
  stage : s.stage.waits = true

instance (s : Search) : Decidable s.Rests :=
  decidable_of_iff (s.terminated = false ∧ s.queue = [] ∧ s.stage.waits = true)
    ⟨fun ⟨hrunning, hqueue, hstage⟩ => ⟨hrunning, hqueue, hstage⟩,
      fun h => ⟨h.running, h.queue, h.stage⟩⟩

variable {s : Search}

/-- A loop that waits reports nothing. -/
theorem Rests.step (h : s.Rests) : ∃ s', s.step = (s', none) ∧ s'.Rests := by
  rcases SearchStage.waits_iff.1 h.stage with hat | hat
  · refine ⟨{ s with queue := [], stage := .holding s.queue false }, ?_, h.running, rfl, ?_⟩
    · simp [Search.step, hat, h.running]
    · simp [SearchStage.waits, h.queue]
  · exact ⟨{ s with stage := .polling false }, by simp [Search.step, hat], h.running, h.queue, rfl⟩

/-- The report of a loop that was waiting when it was given a batch. -/
def answerTo (s : Search) (batch : Batch) : BestSolution :=
  let working := (Mutation.replay batch s.working).placeUnassigned.1
  ⟨working, true, working.unassigned.isEmpty⟩

/-- It makes this report in five steps, if it has yet to find that it took nothing, and otherwise
in four. -/
theorem Rests.exists_advance (h : s.Rests) (batch : Batch) :
    ∃ s', (s.submit batch).advance 5 = (s', some (s.answerTo batch)) := by
  obtain ⟨working, queue, terminated, stage⟩ := s
  obtain ⟨hrunning, hqueue, hstage⟩ := h
  cases hrunning
  cases hqueue
  let placed := (Mutation.replay [batch].flatten working).placeUnassigned.1
  have hanswer : (⟨working, [], false, stage⟩ : Search).answerTo batch =
      ⟨placed, true, placed.unassigned.isEmpty⟩ := by
    rw [answerTo, ← List.flatten_singleton (l := batch)]
  rw [hanswer]
  refine ⟨⟨placed, [], false, .polling false⟩, ?_⟩
  obtain rfl | rfl := SearchStage.waits_iff.1 hstage
  · rfl
  · rfl

end Search

/-- A publisher has been given a job and nothing else. -/
def Publisher.Carries (p : Publisher) (job : PublishJob) : Prop :=
  (p.stage = .idle ∧ p.jobs = [job]) ∨
    (p.jobs = [] ∧ ∃ gate, p.stage = .applying (p.plan job) gate)

namespace Planner

variable {p q : Planner} {s : Solution} {search : Search} {records : List TaskRecord} {m : Move}
  {moves more : List Move}

/-- A loop that waits reports on a batch within five steps. -/
theorem exists_run_report {batch : Batch} (h : search.Rests)
    (hp : p.optimizer = .greedy [] (some (search.submit batch))) :
    ∃ steps ≤ 5, ∃ search', p.run (List.replicate steps .optimize) = { p with
      optimizer := .greedy [] (some search')
      events := p.events ++ [search.answerTo batch] }.forward (search.answerTo batch) := by
  obtain ⟨search', hadvance⟩ := h.exists_advance batch
  obtain ⟨steps, hsteps, hrun⟩ := p.exists_run_advanceSearch 5
  refine ⟨steps, hsteps, search', ?_⟩
  simp only [← hrun, advanceSearch, hp, hadvance]

/-! ## the answers of the runtime -/

/-- The plan that a move has the runtime store or refuse, and the answer. -/
def attempt? (p : Planner) : Move → Option (PublishPlan × Except RuntimeError Unit)
  | .publish => match p.publisher.stage with
    | .applying plan gate => (p.runtime.passGate? gate).map fun r =>
      (plan, (r.finishApply ⟨plan.results, p.publisher.actingUser⟩).1)
    | _ => none
  | _ => none

/-- The plans that moves have the runtime store or refuse, with the answers. -/
def attempts (p : Planner) : List Move → List (PublishPlan × Except RuntimeError Unit)
  | [] => []
  | m :: moves => (p.attempt? m).toList ++ (p.move m).attempts moves

/-- Attempts come in the order of the moves. -/
theorem attempts_append (p : Planner) (moves more : List Move) :
    p.attempts (moves ++ more) = p.attempts moves ++ (p.run moves).attempts more := by
  induction moves generalizing p with
  | nil => rfl
  | cons m moves ih => rw [List.cons_append, attempts, attempts, ih, run_cons, List.append_assoc]

/-- A planner that solves, and the answers of the runtime so far. -/
structure Accounted (p : Planner) (tried : List (PublishPlan × Except RuntimeError Unit)) :
    Prop where
  state : p.driver.state = .started
  built : p.driver.built = true
  optimizer : ∃ search, p.optimizer = .greedy [] (some search)
  waiting : p.coordination.next.isSome = true → p.coordination.processing = true
  /-- A solution that is on its way is the current one. -/
  busy : p.coordination.processing = true →
    ∃ s published, p.coordination.current = some s ∧ p.publisher.Carries ⟨s, published⟩
  /-- If none is on its way, the last answer was about the current one. -/
  idle : p.coordination.processing = false →
    p.publisher.stage = .idle ∧ p.publisher.jobs = [] ∧
      ∀ s, p.coordination.current = some s → ∃ published answer,
        tried.getLast? = some (p.publisher.plan ⟨s, published⟩, answer)

/-- A planner whose optimizer has just begun to solve and whose publisher has nothing to do. -/
structure Fresh (p : Planner) (initial : Solution) : Prop extends p.Begun initial where
  processing : p.coordination.processing = false
  stage : p.publisher.stage = .idle
  jobs : p.publisher.jobs = []

/-- A planner that begins has no attempt to account for. -/
theorem Fresh.accounted {initial : Solution} (h : p.Fresh initial) : p.Accounted [] where
  state := h.state
  built := h.built
  optimizer := ⟨_, h.optimizer⟩
  waiting hnext := by simp [h.next] at hnext
  busy hbusy := by simp [h.processing] at hbusy
  idle _ := ⟨h.stage, h.jobs, fun s hs => by simp [h.current] at hs⟩

/-- Handing a solution over to a publisher that has nothing to do. -/
theorem accounted_handOver {c : Coordination} (hstate : p.driver.state = .started)
    (hbuilt : p.driver.built = true) (hoptimizer : ∃ search, p.optimizer = .greedy [] (some search))
    (hstage : p.publisher.stage = .idle) (hjobs : p.publisher.jobs = [])
    (hbusy : c.processing = true) (hnext : c.next = none) (s : Solution)
    (tried : List (PublishPlan × Except RuntimeError Unit)) :
    Accounted ({ p with coordination := (c.handOver s p.publisher.isOpen).1 }.sendJob
      (c.handOver s p.publisher.isOpen).2) tried := by
  have hopen : p.publisher.isOpen = true := by rw [Publisher.isOpen, hstage]
  rw [hopen, Coordination.handOver_of_open]
  have hsend : p.publisher.send ⟨s, c.published⟩ =
      { p.publisher with jobs := [⟨s, c.published⟩] } := by
    rw [Publisher.send, if_pos hopen, hjobs]
    rfl
  exact {
    state := hstate
    built := hbuilt
    optimizer := hoptimizer
    waiting := fun hsome => by simp [hnext] at hsome
    busy := fun _ => ⟨s, c.published, rfl, .inl (by simp [sendJob, hsend, hstage])⟩
    idle := fun hidle => by simp [hbusy] at hidle }

variable {tried : List (PublishPlan × Except RuntimeError Unit)}

/-- What neither the publisher nor the course of publishing sees changes no account. -/
theorem Accounted.congr (h : p.Accounted tried) {p' : Planner} (hdriver : p'.driver = p.driver)
    (hoptimizer : ∃ search, p'.optimizer = .greedy [] (some search))
    (hpublisher : p'.publisher = p.publisher)
    (hcurrent : p'.coordination.current = p.coordination.current)
    (hnext : p'.coordination.next = p.coordination.next)
    (hprocessing : p'.coordination.processing = p.coordination.processing) :
    p'.Accounted tried where
  state := by rw [hdriver, h.state]
  built := by rw [hdriver, h.built]
  optimizer := hoptimizer
  waiting := by rw [hnext, hprocessing]; exact h.waiting
  busy := by rw [hcurrent, hprocessing, hpublisher]; exact h.busy
  idle := by rw [hcurrent, hprocessing, hpublisher]; exact h.idle

/-- The publisher of a planner that is accounted for is there to take a job. -/
theorem Accounted.isOpen (h : p.Accounted tried) : p.publisher.isOpen = true := by
  cases hprocessing : p.coordination.processing with
  | false => rw [Publisher.isOpen, (h.idle hprocessing).1]
  | true =>
    obtain ⟨s, published, -, ⟨hstage, -⟩ | ⟨-, gate, hstage⟩⟩ := h.busy hprocessing
    · rw [Publisher.isOpen, hstage]
    · rw [Publisher.isOpen, hstage]

/-- No solution waits unless one is on its way. -/
theorem Accounted.next_eq_none (h : p.Accounted tried)
    (hidle : p.coordination.processing = false) : p.coordination.next = none := by
  by_contra hnext
  have hbusy := h.waiting (Option.isSome_iff_ne_none.2 hnext)
  simp [hidle] at hbusy

/-- A report of the optimizer is handed over, or waits, or may not be published. -/
theorem Accounted.forward (h : p.Accounted tried) (event : BestSolution) :
    (p.forward event).Accounted tried := by
  have hforwards : p.driver.forwards = true := by
    simp [Driver.forwards, Driver.isDestroyed, h.state]
  rw [Planner.forward, if_pos hforwards, Coordination.bestSolution]
  cases hpublishable : event.isPublishable with
  | false => exact h
  | true =>
    cases hprocessing : p.coordination.processing with
    | true =>
      simp only [if_true]
      exact {
        state := h.state
        built := h.built
        optimizer := h.optimizer
        waiting := fun _ => rfl
        busy := fun _ => h.busy hprocessing
        idle := fun hidle => by simp at hidle }
    | false =>
      obtain ⟨hstage, hjobs, -⟩ := h.idle hprocessing
      exact accounted_handOver
        (c := { p.coordination with submitted := [], processing := true }) h.state h.built
        h.optimizer hstage hjobs rfl (h.next_eq_none hprocessing) event.solution tried

/-- A report of the optimizer is handed over, kept for later or not passed on. -/
theorem Accounted.optimize (h : p.Accounted tried) : (p.move .optimize).Accounted tried := by
  obtain ⟨search, hp⟩ := h.optimizer
  cases hs : search.step with
  | mk search' answer =>
    cases answer with
    | none =>
      rw [move, searchStep_of_silent hp hs]
      exact h.congr rfl ⟨search', rfl⟩ rfl rfl rfl rfl
    | some event =>
      have hbefore : Accounted { p with
          optimizer := .greedy [] (some search'), events := p.events ++ [event] } tried :=
        h.congr rfl ⟨search', rfl⟩ rfl rfl rfl rfl
      rw [move, searchStep_of_delivers hp hs]
      exact hbefore.forward event

/-- A refresh does not touch the course of publishing. -/
theorem Accounted.refresh (h : p.Accounted tried) (records : List TaskRecord) :
    (p.move (.refresh records)).Accounted tried := by
  obtain ⟨search, hp⟩ := h.optimizer
  obtain ⟨published, hsame | ⟨ms, -, hsubmit⟩⟩ := refresh_cases h.state h.built hp records
  · rw [move, hsame]
    exact h.congr rfl ⟨search, hp⟩ rfl rfl rfl rfl
  · rw [move, hsubmit]
    exact h.congr rfl ⟨search.submit ms, rfl⟩ rfl rfl rfl rfl

/-- The runtime answers, and the next solution is handed over if one waits. -/
theorem Accounted.processed {plan : PublishPlan} (h : p.Accounted tried)
    (hbusy : p.coordination.processing = true) (hjobs : p.publisher.jobs = [])
    (hplan : ∀ s, p.coordination.current = some s → ∃ published,
      plan = p.publisher.plan ⟨s, published⟩)
    (answer : Except RuntimeError Unit) (runtime : MemoryRuntime) :
    (({ p with publisher := { p.publisher with stage := .idle }, runtime } : Planner).processed
      (Publisher.outcome plan answer)).Accounted (tried ++ [(plan, answer)]) := by
  rw [Planner.processed, Coordination.publishProcessed_eq]
  cases hnext : p.coordination.next with
  | some s =>
    exact accounted_handOver (p := { p with
        publisher := { p.publisher with stage := .idle }, runtime })
      (c := { p.coordination with
        published := p.coordination.merged (Publisher.outcome plan answer), next := none })
      h.state h.built h.optimizer rfl hjobs hbusy rfl s _
  | none =>
    refine ⟨h.state, h.built, h.optimizer, fun hsome => ?_, nofun, fun _ => ⟨rfl, hjobs, ?_⟩⟩
    · simp [sendJob] at hsome
    · intro s hs
      obtain ⟨published, rfl⟩ := hplan s hs
      exact ⟨published, answer, List.getLast?_concat⟩

/-- A publisher that has a job takes it to the runtime, or has the runtime answer. -/
theorem Accounted.publish (h : p.Accounted tried) :
    (p.move .publish).Accounted (tried ++ (p.attempt? .publish).toList) := by
  cases hprocessing : p.coordination.processing with
  | false =>
    obtain ⟨hstage, hjobs, -⟩ := h.idle hprocessing
    simpa [Planner.move, publishStep?, Publisher.step?, attempt?, hstage, hjobs] using h
  | true =>
    obtain ⟨s, published, hcurrent, ⟨hstage, hjobs⟩ | ⟨hjobs, gate, hstage⟩⟩ := h.busy hprocessing
    · have hstep : p.move .publish = { p with
          publisher := { p.publisher with
            jobs := []
            stage := .applying (p.publisher.plan ⟨s, published⟩) p.runtime.enterApply.1 }
          runtime := p.runtime.enterApply.2 } := by
        simp [Planner.move, publishStep?, Publisher.step?, hstage, hjobs]
      have hattempt : p.attempt? .publish = none := by simp [attempt?, hstage]
      rw [hstep, hattempt, Option.toList_none, List.append_nil]
      exact {
        state := h.state
        built := h.built
        optimizer := h.optimizer
        waiting := h.waiting
        busy := fun _ => ⟨s, published, hcurrent, .inr ⟨rfl, _, rfl⟩⟩
        idle := fun hidle => by simp [hprocessing] at hidle }
    · cases hgate : p.runtime.passGate? gate with
      | none =>
        simpa [Planner.move, publishStep?, Publisher.step?, attempt?, hstage, hgate] using h
      | some r =>
        -- the plan that is answered is one of the current solution
        have hplan : ∀ s', p.coordination.current = some s' → ∃ published',
            p.publisher.plan ⟨s, published⟩ = p.publisher.plan ⟨s', published'⟩ := by
          intro s' hs'
          rw [hcurrent, Option.some.injEq] at hs'
          exact ⟨published, by rw [hs']⟩
        have hprocessed := h.processed hprocessing hjobs hplan
          (r.finishApply ⟨(p.publisher.plan ⟨s, published⟩).results, p.publisher.actingUser⟩).1
          (r.finishApply ⟨(p.publisher.plan ⟨s, published⟩).results, p.publisher.actingUser⟩).2
        simpa [Planner.move, publishStep?, Publisher.step?, attempt?, hstage, hgate]
          using hprocessed

/-- Every move accounts for the plan that it has stored or refused, if any. -/
theorem Accounted.move (h : p.Accounted tried) (m : Move) :
    (p.move m).Accounted (tried ++ (p.attempt? m).toList) := by
  cases m with
  | optimize => simpa [attempt?] using h.optimize
  | refresh records => simpa [attempt?] using h.refresh records
  | publish => exact h.publish
  | outside f =>
    have hsame : (p.move (.outside f)).Accounted tried :=
      h.congr rfl h.optimizer rfl rfl rfl rfl
    simpa [attempt?] using hsame

/-- After any moves the last plan that was stored or refused is accounted for. -/
theorem Accounted.run (h : p.Accounted tried) (moves : List Move) :
    (p.run moves).Accounted (tried ++ p.attempts moves) := by
  induction moves generalizing p tried with
  | nil => simpa [attempts, Planner.run] using h
  | cons m moves ih =>
    rw [run_cons, attempts, ← List.append_assoc]
    exact ih (h.move m)

/-! ## a planner at rest -/

/-- An idle planner with a current solution, whose optimizer waits. -/
structure AtRest (p : Planner) (s : Solution) : Prop where
  state : p.driver.state = .started
  built : p.driver.built = true
  search : ∃ search, p.optimizer = .greedy [] (some search) ∧ search.Rests
  current : p.coordination.current = some s
  next : p.coordination.next = none
  processing : p.coordination.processing = false
  stage : p.publisher.stage = .idle
  jobs : p.publisher.jobs = []

/-- Moves among which no refresh finds a change. -/
def Fruitless (p : Planner) (moves : List Move) : Prop :=
  ∀ before records after, moves = before ++ .refresh records :: after →
    ∀ n, (refresh records (p.run before)).1 ≠ some (n + 1)

/-- One move is fruitless if it is no refresh that finds a change. -/
theorem fruitless_singleton : p.Fruitless [m] ↔
    ∀ records, m = .refresh records → ∀ n, (refresh records p).1 ≠ some (n + 1) := by
  constructor
  · rintro h records rfl
    exact h [] records [] rfl
  · intro h before records after hsplit
    cases before with
    | nil =>
      cases hsplit
      exact h records rfl
    | cons m' before => simp at hsplit

/-- The first of some fruitless moves is fruitless. -/
theorem Fruitless.head (h : p.Fruitless (m :: moves)) : p.Fruitless [m] :=
  fruitless_singleton.2 fun records hm => h [] records moves (by rw [hm]; rfl)

/-- After the first of some fruitless moves the others are fruitless. -/
theorem Fruitless.tail (h : p.Fruitless (m :: moves)) : (p.move m).Fruitless moves :=
  fun before records after hsplit => h (m :: before) records after (by rw [hsplit]; rfl)

/-- A refresh of a planner at rest finds nothing, or submits what it finds. -/
theorem AtRest.refresh_cases (h : p.AtRest s) (records : List TaskRecord) :
    ((refresh records p).2.AtRest s ∧ ∀ n, (refresh records p).1 ≠ some (n + 1)) ∨
      ∃ (search : Search) (ms : List Mutation) (published : PublishedTasks), search.Rests ∧
        ms ≠ [] ∧ (refresh records p).1 = some ms.length ∧ (refresh records p).2 = { p with
          optimizer := .greedy [] (some (search.submit ms))
          batches := p.batches ++ [ms]
          coordination := { p.coordination with
            published, submitted := p.coordination.submitted ++ ms } } := by
  obtain ⟨search, hp, hrests⟩ := h.search
  obtain ⟨published, hc⟩ := p.coordination.exists_compare records
  cases hanswer : p.coordination.compare records with
  | mk answer c =>
    rw [hanswer] at hc
    obtain rfl : c = { p.coordination with published } := hc
    have hrest : AtRest { p with coordination := { p.coordination with published } } s :=
      ⟨h.state, h.built, h.search, h.current, h.next, h.processing, h.stage, h.jobs⟩
    cases answer with
    | error e =>
      rw [refresh_of_error hanswer]
      exact .inl ⟨hrest, nofun⟩
    | ok ms =>
      rw [refresh_of_compare h.state h.built hp hanswer]
      by_cases hms : ms = []
      · rw [if_pos hms, hms]
        exact .inl ⟨hrest, nofun⟩
      · rw [if_neg hms]
        exact .inr ⟨search, ms, published, hrests, hms, rfl, rfl⟩

/-- A planner at rest stays there, unless a refresh finds a change. -/
theorem AtRest.move (h : p.AtRest s) (hm : p.Fruitless [m]) :
    (p.move m).AtRest s ∧ p.attempt? m = none := by
  cases m with
  | optimize =>
    obtain ⟨search, hp, hrests⟩ := h.search
    obtain ⟨search', hs, hrests'⟩ := hrests.step
    rw [Planner.move, searchStep_of_silent hp hs]
    exact ⟨⟨h.state, h.built, ⟨search', rfl, hrests'⟩, h.current, h.next, h.processing, h.stage,
      h.jobs⟩, rfl⟩
  | refresh records =>
    rcases h.refresh_cases records with ⟨hrest, -⟩ | ⟨search, ms, published, -, hms, hfound, -⟩
    · exact ⟨hrest, rfl⟩
    · obtain ⟨n, hn⟩ := Nat.exists_eq_succ_of_ne_zero (mt List.length_eq_zero_iff.1 hms)
      exact absurd (hfound.trans (congrArg some hn)) (hm [] records [] rfl n)
  | publish =>
    have hsame : p.move .publish = p := by
      simp [Planner.move, publishStep?, Publisher.step?, h.stage, h.jobs]
    rw [hsame]
    exact ⟨h, by simp [attempt?, h.stage]⟩
  | outside f =>
    exact ⟨⟨h.state, h.built, h.search, h.current, h.next, h.processing, h.stage, h.jobs⟩, rfl⟩

/-- At rest, moves that find no change bring no plan to the runtime. -/
theorem AtRest.run (h : p.AtRest s) (hmoves : p.Fruitless moves) :
    (p.run moves).AtRest s ∧ p.attempts moves = [] := by
  induction moves generalizing p with
  | nil => exact ⟨h, rfl⟩
  | cons m moves ih =>
    obtain ⟨hrest, hnone⟩ := h.move hmoves.head
    obtain ⟨hend, hattempts⟩ := ih hrest hmoves.tail
    exact ⟨hend, by rw [attempts, hnone, hattempts]; rfl⟩

/-- A complete report that reaches an idle planner is handed over if every task has a place. -/
theorem forward_of_idle {event : BestSolution} (hstate : p.driver.state = .started)
    (hidle : p.coordination.processing = false) (hstage : p.publisher.stage = .idle)
    (hjobs : p.publisher.jobs = []) (hcomplete : event.allMutationsProcessed = true) :
    (p.forward event).events = p.events ∧
      (p.forward event).coordination.processing = event.initialized ∧
      (event.initialized = true →
        (p.forward event).coordination.current = some event.solution ∧
        ∃ published, (p.forward event).publisher.jobs = [⟨event.solution, published⟩]) := by
  have hforwards : p.driver.forwards = true := by
    simp [Driver.forwards, Driver.isDestroyed, hstate]
  have hopen : p.publisher.isOpen = true := by rw [Publisher.isOpen, hstage]
  rw [forward, if_pos hforwards, Coordination.bestSolution, BestSolution.isPublishable, hcomplete,
    hidle, hopen]
  cases hinitialized : event.initialized with
  | false => exact ⟨rfl, hidle, fun hplaced => by simp at hplaced⟩
  | true =>
    refine ⟨rfl, rfl, fun _ => ⟨rfl, p.coordination.published, ?_⟩⟩
    simp [Coordination.handOver, sendJob, Publisher.send, hopen, hjobs]

/-- A change that a refresh finds is reported on within five steps of the optimizer, and a report in
which every task has a place is handed over. -/
theorem AtRest.retry {n : Nat} (h : p.AtRest s) (hfound : (refresh records p).1 = some (n + 1)) :
    ∃ steps ≤ 5, ∃ event, event.allMutationsProcessed = true ∧
      let after := p.run (.refresh records :: List.replicate steps .optimize)
      after.events = p.events ++ [event] ∧
        after.coordination.processing = event.initialized ∧
        (event.initialized = true → after.coordination.current = some event.solution ∧
          ∃ published, after.publisher.jobs = [⟨event.solution, published⟩]) := by
  rcases h.refresh_cases records with ⟨-, hno⟩ | ⟨search, ms, published, hrests, -, -, hafter⟩
  · exact absurd hfound (hno n)
  · obtain ⟨steps, hsteps, search', hrun⟩ := exists_run_report hrests
      (show (refresh records p).2.optimizer = .greedy [] (some (search.submit ms)) by rw [hafter])
    refine ⟨steps, hsteps, search.answerTo ms, rfl, ?_⟩
    rw [run_cons, Planner.move, hrun, hafter]
    exact forward_of_idle h.state h.processing h.stage h.jobs rfl

/-! ## a refused plan -/

/-- While a planner is idle, the last answer of the runtime was about the plan of the current
solution.  If the runtime refused the plan, it stays refused: as long as the optimizer has nothing
to do and refreshes find no change, whatever else happens, nothing is handed over and the runtime is
not asked again.  The first refresh that finds a change brings the retry, within five steps of the
optimizer: its report is handed over if every task has a place in it. -/
theorem retried_by_changes_only {initial : Solution} (h : p.Fresh initial) (moves : List Move)
    (hidle : (p.run moves).coordination.processing = false)
    (hs : (p.run moves).coordination.current = some s) :
    let q := p.run moves
    (∃ published answer,
        (p.attempts moves).getLast? = some (q.publisher.plan ⟨s, published⟩, answer)) ∧
      ((∃ search, q.search? = some search ∧ search.Rests) →
        (∀ more, q.Fruitless more →
          (q.run more).coordination.processing = false ∧
            (q.run more).coordination.current = some s ∧
            p.attempts (moves ++ more) = p.attempts moves) ∧
        ∀ more records n, q.Fruitless more →
          (refresh records (q.run more)).1 = some (n + 1) →
          ∃ steps ≤ 5, ∃ event, event.allMutationsProcessed = true ∧
            let after := (q.run more).run (.refresh records :: List.replicate steps .optimize)
            after.events = (q.run more).events ++ [event] ∧
              after.coordination.processing = event.initialized ∧
              (event.initialized = true → after.coordination.current = some event.solution ∧
                ∃ published, after.publisher.jobs = [⟨event.solution, published⟩])) := by
  intro q
  have hq : q.Accounted (p.attempts moves) := h.accounted.run moves
  obtain ⟨hstage, hjobs, hlast⟩ := hq.idle hidle
  refine ⟨hlast s hs, ?_⟩
  rintro ⟨search, hsearch, hrests⟩
  obtain ⟨search', hoptimizer⟩ := hq.optimizer
  obtain rfl : search' = search := by simpa [search?, hoptimizer] using hsearch
  have hrest : q.AtRest s := ⟨hq.state, hq.built, ⟨search', hoptimizer, hrests⟩, hs,
    hq.next_eq_none hidle, hidle, hstage, hjobs⟩
  constructor
  · intro more hmore
    obtain ⟨hend, hattempts⟩ := hrest.run hmore
    exact ⟨hend.processing, hend.current, by rw [attempts_append, hattempts, List.append_nil]⟩
  · exact fun more records n hmore hfound => (hrest.run hmore).1.retry hfound

/-- The runtime refuses the first plan, and would store the next one. -/
def refusedOnce : List Move :=
  .outside (fun r => { r with applyFailure := some "down" }) :: firstReport ++
    [.publish, .publish, .outside fun r => { r with applyFailure := none }]

/-- A planner that is about to solve has published nothing yet. -/
theorem fresh_aboutToSolve (initial : Solution) (records : List TaskRecord) :
    (aboutToSolve initial records).takePermit.Fresh initial :=
  ⟨begun_aboutToSolve initial records, rfl, rfl, rfl⟩

/-- A refresh on the same records does not bring the refused plan back, and one on the record of a
new task does. -/
theorem retried_by_changes_only_refused :
    let L := Operation.runAll callsForOne ∅
    let p := (aboutToSolve L [recordOf 1 .ready none]).takePermit
    let q := p.run refusedOnce
    let new := { recordOf 2 .ready none with potentialOwners := [.user ⟨"ann"⟩] }
    p.Fresh L ∧ q.coordination.processing = false ∧ q.coordination.current = some L ∧
      (p.attempts refusedOnce).map (·.2.isOk) = [false] ∧
      (refresh [recordOf 1 .ready none] q).1 = some 0 ∧
      p.attempts (refusedOnce ++ [.refresh [recordOf 1 .ready none]]) = p.attempts refusedOnce ∧
      (refresh [recordOf 1 .ready none, new] q).1 = some 1 ∧
      ∃ steps ≤ 5, ∃ event, event.allMutationsProcessed = true ∧
        let after := q.run (.refresh [recordOf 1 .ready none, new] ::
          List.replicate steps .optimize)
        after.events = q.events ++ [event] ∧
          after.coordination.processing = event.initialized := by
  intro L p q new
  have hfresh : p.Fresh L := fresh_aboutToSolve L _
  have hidle : q.coordination.processing = false := by decide +kernel
  have hcurrent : q.coordination.current = some L := by decide +kernel
  have hsame : (refresh [recordOf 1 .ready none] q).1 = some 0 := by decide +kernel
  have hfound : (refresh [recordOf 1 .ready none, new] q).1 = some 1 := by decide +kernel
  have hrests : ∃ search, q.search? = some search ∧ search.Rests := by
    have hany : q.search?.any (fun search => decide search.Rests) = true := by decide +kernel
    simpa [Option.any_eq_true] using hany
  have hfruitless : q.Fruitless [.refresh [recordOf 1 .ready none]] := by
    rw [fruitless_singleton]
    rintro records ⟨⟩ n
    rw [hsame]
    nofun
  obtain ⟨-, hrest⟩ := retried_by_changes_only hfresh refusedOnce hidle hcurrent
  obtain ⟨hlost, hretried⟩ := hrest hrests
  have hretry := hretried [] [recordOf 1 .ready none, new] 0
    (fun before records after hsplit => by simp at hsplit)
  rw [run_nil] at hretry
  obtain ⟨steps, hsteps, event, hcomplete, hevents, hprocessing, -⟩ := hretry hfound
  exact ⟨hfresh, hidle, hcurrent, by decide +kernel, hsame, (hlost _ hfruitless).2.2, hfound,
    steps, hsteps, event, hcomplete, hevents, hprocessing⟩

/-- A plan is lost.  The runtime refuses it, and is ready again by the time of the next look.  The
records ask for nothing, so the refresh succeeds and submits nothing; the publisher is there and
idle, the solution is still the current one, and its task is neither stored nor on its way. -/
theorem refused_plan_not_retried :
    let L := Operation.runAll callsForOne ∅
    let p := (aboutToSolve L [recordOf 1 .ready none]).takePermit
    let q := p.run refusedOnce
    let records := MemoryRuntime.page q.runtime.tasks fetchPlannable
    let after := (refresh records q).2
    records = [recordOf 1 .ready none] ∧ (refresh records q).1 = some 0 ∧
      after.publisher.isOpen = true ∧ after.coordination.processing = false ∧
      after.coordination.next = none ∧ after.coordination.current = some L ∧
      (p.attempts (refusedOnce ++ [.refresh records])).map
        (fun a => (a.1.results.map (·.taskId), a.2.isOk)) = [([⟨1⟩], false)] ∧
      after.settle.coordination.processing = false ∧ after.settle.publisher.jobs.length = 0 ∧
      after.settle.runtime.appliesStarted = 1 ∧
      after.settle.runtime.tasks = [recordOf 1 .ready none] := by
  decide +kernel

end Planner

end ChainPlanner
