import ChainPlanner.Proofs.Publishing.Handover

/-!
# ChainPlanner.Proofs.Publishing.Follows

A planner works at a desk: whatever it does until it is destroyed is a run of events there.  So
what holds at every desk holds of the shared state of every planner.
-/

namespace ChainPlanner

/-- Events can be taken in two parts. -/
theorem Desk.run_append (d : Desk) (events events' : List DeskEvent) :
    d.run (events ++ events') = (d.run events).run events' := List.foldl_append

/-- A cycle leaves its receiver alone, or calls it once. -/
theorem SyncHandler.handler_cycle {σ : Type} (h : SyncHandler σ) (pageSize : UInt32)
    (w : SyncWorld σ) :
    let handler := (h.cycle pageSize w).2.handler
    handler = w.handler ∨ (∃ records, handler = (h.refresh records w.handler).2) ∨
      ∃ records users, handler = (h.bootstrap records users w.handler).2 := by
  unfold cycle
  cases w.runtime.fetch ⟨TaskStatus.plannable, 0, pageSize⟩ with | mk answer runtime =>
  cases answer with
  | error e => exact .inl rfl
  | ok records =>
    simp only
    split
    · have hrefresh : ∀ answer : Option Nat × σ, h.refresh records w.handler = answer →
          ∃ records, answer.2 = (h.refresh records w.handler).2 :=
        fun _ hanswer => ⟨records, by rw [hanswer]⟩
      split
      all_goals
        rename_i hanswer
        exact .inr (.inl (hrefresh _ hanswer))
    · split
      · exact .inl rfl
      · rename_i users directory _
        have hboot : ∀ answer : Option Bool × σ, h.bootstrap records users w.handler = answer →
            ∃ records users, answer.2 = (h.bootstrap records users w.handler).2 :=
          fun _ hanswer => ⟨records, users, by rw [hanswer]⟩
        split
        all_goals
          rename_i hanswer
          exact .inr (.inr (hboot _ hanswer))

namespace Planner

variable {p p' q : Planner}

/-- What a planner has of a desk. -/
def desk (p : Planner) (log : List Note) : Desk := ⟨p.coordination, p.publisher, log⟩

/-- A planner has come from another one by events at its desk. -/
def Follows (p p' : Planner) : Prop :=
  ∀ log, ∃ events log', (p.desk log).run events = p'.desk log'

/-- What touches neither the shared state nor the publisher is no event at the desk. -/
theorem Follows.of_desk (hc : p'.coordination = p.coordination)
    (hp : p'.publisher = p.publisher) : p.Follows p' :=
  fun log => ⟨[], log, by rw [desk, desk, hc, hp]; rfl⟩

theorem Follows.refl (p : Planner) : p.Follows p := .of_desk rfl rfl

/-- Events followed by events are events. -/
theorem Follows.trans (h : p.Follows p') (h' : p'.Follows q) : p.Follows q := by
  intro log
  obtain ⟨events, log', hrun⟩ := h log
  obtain ⟨events', log'', hrun'⟩ := h' log'
  exact ⟨events ++ events', log'', by rw [Desk.run_append, hrun, hrun']⟩

/-- One event at the desk. -/
theorem Follows.of_step (event : DeskEvent)
    (h : ∀ log, ∃ log', (p.desk log).step event = p'.desk log') : p.Follows p' := by
  intro log
  obtain ⟨log', hstep⟩ := h log
  exact ⟨[event], log', hstep⟩

/-- Sending a job at the desk is sending it in the planner. -/
theorem exists_dispatch (p : Planner) (job : Option PublishJob) (log : List Note) :
    ∃ log', (p.desk log).dispatch job = (p.sendJob job).desk log' := by
  cases job with
  | none => exact ⟨log, rfl⟩
  | some job => exact ⟨log ++ [.handed job], rfl⟩

/-! ## small steps -/

/-- A report of the optimizer is an event at the desk, if the driver passes it on. -/
theorem follows_forward (p : Planner) (event : BestSolution) : p.Follows (p.forward event) := by
  unfold forward
  split
  · apply Follows.of_step (.best event)
    intro log
    exact exists_dispatch { p with coordination := _ } _ _
  · exact .refl p

/-- A step of the publisher is an event at the desk. -/
theorem follows_publishStep? (h : p.publishStep? = some p') : p.Follows p' := by
  unfold publishStep? Publisher.step? at h
  cases hstage : p.publisher.stage with
  | unstarted => simp [hstage] at h
  | stopped => simp [hstage] at h
  | idle =>
    cases hjobs : p.publisher.jobs with
    | nil => simp [hstage, hjobs] at h
    | cons job jobs =>
      simp only [hstage, hjobs] at h
      cases h
      apply Follows.of_step (.receive p.runtime.enterApply.1)
      intro log
      exact ⟨log, by simp [Desk.step, desk, hstage, hjobs]⟩
  | applying plan gate =>
    simp only [hstage] at h
    cases hgate : p.runtime.passGate? gate with
    | none => simp [hgate] at h
    | some r =>
      simp only [hgate] at h
      cases h
      apply Follows.of_step (.report (r.finishApply ⟨plan.results, p.publisher.actingUser⟩).1)
      intro log
      simp only [Desk.step, desk, hstage]
      exact exists_dispatch { p with
        publisher := { p.publisher with stage := .idle }
        coordination := _, runtime := _ } _ _

/-- So are several steps of the publisher. -/
theorem follows_publishSteps (p : Planner) (steps : Nat) : p.Follows (p.publishSteps steps) := by
  induction steps generalizing p with
  | zero => exact .refl p
  | succ steps ih =>
    unfold publishSteps
    cases hstep : p.publishStep? with
    | none => exact .refl p
    | some p' => exact (follows_publishStep? hstep).trans (ih p')

/-- The driver's loop does not come to the desk. -/
theorem follows_takePermit (p : Planner) : p.Follows p.takePermit := by
  unfold takePermit
  split
  · split
    · exact .refl p
    · exact .of_desk rfl rfl
    · unfold beginSolving
      split <;> exact .of_desk rfl rfl
  · exact .refl p

/-- A round of the optimizer comes to the desk with its report. -/
theorem follows_searchRound (p : Planner) : p.Follows p.searchRound := by
  unfold searchRound
  split
  · split
    · exact .of_desk rfl rfl
    · rename_i queue _ _ _ search event _
      have hnoted : p.Follows { p with
          optimizer := .greedy queue (some search), events := p.events ++ [event] } :=
        .of_desk rfl rfl
      exact hnoted.trans (follows_forward _ event)
  · exact .refl p

/-- Whatever settles does so by events at the desk. -/
theorem follows_settle (p : Planner) : p.Follows p.settle :=
  ((follows_takePermit p).trans (follows_searchRound _)).trans (follows_publishSteps _ _)

/-! ## looking at the runtime -/

/-- Changes that have been submitted are noted at the desk. -/
theorem follows_submit (p : Planner) (ms : List Mutation) : p.Follows (p.submit ms).2 := by
  unfold submit
  split
  · exact .of_step (.submitted ms) fun log => ⟨log, rfl⟩
  all_goals exact .refl p

/-- A refresh is a comparison at the desk, and then a note of what has been submitted. -/
theorem follows_refresh (p : Planner) (records : List TaskRecord) :
    p.Follows (refresh records p).2 := by
  have hcompare : p.Follows { p with coordination := (p.coordination.compare records).2 } :=
    .of_step (.compare records) fun log => ⟨log, rfl⟩
  unfold refresh
  split
  · rename_i h
    rw [h] at hcompare
    exact hcompare
  · rename_i h
    rw [h] at hcompare
    exact hcompare
  · rename_i ms c _ h
    rw [h] at hcompare
    have hsubmit := hcompare.trans (follows_submit { p with coordination := c } ms)
    split
    · rename_i hs
      rw [hs] at hsubmit
      exact hsubmit
    · rename_i hs
      rw [hs] at hsubmit
      exact hsubmit

/-- A start from the records enters what they show as published. -/
theorem follows_bootstrap (p : Planner) (records : List TaskRecord) (users : List DirectoryUser) :
    p.Follows (bootstrap records users p).2 := by
  unfold bootstrap
  split
  · exact .refl p
  · split
    · split
      · exact .of_desk rfl rfl
      · exact .of_step (.recover _) fun log => ⟨log, rfl⟩
    · exact .refl p

/-- A look at the runtime is a start or a refresh, or nothing. -/
theorem follows_syncCycle (p : Planner) : p.Follows p.syncCycle := by
  show p.Follows { (syncHandler.cycle p.config.pageSize ⟨p.runtime, p.directory, p⟩).2.handler with
    runtime := _, directory := _ }
  have hhandler := syncHandler.handler_cycle p.config.pageSize ⟨p.runtime, p.directory, p⟩
  have hcycle : p.Follows
      (syncHandler.cycle p.config.pageSize ⟨p.runtime, p.directory, p⟩).2.handler := by
    obtain hkeep | ⟨records, hrefresh⟩ | ⟨records, users, hboot⟩ := hhandler
    · rw [hkeep]
      exact .refl p
    · rw [hrefresh]
      exact follows_refresh p records
    · rw [hboot]
      exact follows_bootstrap p records users
  exact hcycle.trans (.of_desk rfl rfl)

/-! ## calls -/

/-- A call of a planner from outside, without the one that destroys it. -/
inductive Call where
  | init
  | start
  | advance (milliseconds : Nat)
  | emit (event : BestSolution)
  | outside (f : MemoryRuntime → MemoryRuntime) (g : MemoryDirectory → MemoryDirectory)

/-- A planner after a call, whether the call succeeds or not. -/
def call (p : Planner) : Call → Planner
  | .init => p.init.2
  | .start => p.start.2
  | .advance milliseconds => p.advance milliseconds
  | .emit event => (p.emit event).2
  | .outside f g => p.outside f g

/-- Checking the settings and building the optimizer does not come to the desk. -/
theorem follows_init (p : Planner) : p.Follows p.init.2 := by
  unfold init
  split
  · exact .refl p
  · exact .of_desk rfl rfl

/-- Running the loops begins with the publisher's, and settles. -/
theorem follows_start (p : Planner) : p.Follows p.start.2 := by
  unfold start
  split
  · exact .refl p
  · split
    · exact .refl p
    · split
      · rename_i hstage
        have hstart : p.Follows { p with
            driverLoop := .waiting
            publisher := p.publisher.start
            syncDue := some (p.now + p.config.syncPeriod.toNat)
            unjoined := true } :=
          .of_step .start fun log => ⟨log, by simp [Desk.step, desk, hstage]⟩
        exact hstart.trans (follows_settle _)
      · exact .refl p

/-- As time passes a look at the runtime may fall due, and the loops settle. -/
theorem follows_advance (p : Planner) (milliseconds : Nat) :
    p.Follows (p.advance milliseconds) := by
  have hnow : p.Follows { p with now := p.now + milliseconds } := .of_desk rfl rfl
  simp only [advance]
  split
  · split
    · have hcycle := hnow.trans (follows_syncCycle { p with now := p.now + milliseconds })
      have hdue : p.Follows { syncCycle { p with now := p.now + milliseconds } with
          syncDue := some (p.now + milliseconds + p.config.syncPeriod.toNat) } :=
        hcycle.trans (.of_desk rfl rfl)
      exact hdue.trans (follows_settle _)
    · exact hnow.trans (follows_settle _)
  · exact hnow.trans (follows_settle _)

/-- A report of a recording optimizer comes to the desk like any other. -/
theorem follows_emit (p : Planner) (event : BestSolution) : p.Follows (p.emit event).2 := by
  unfold emit
  split
  · split
    · exact (follows_forward p event).trans (follows_settle _)
    · exact .refl p
  · exact .refl p

/-- Every call but the one that destroys the planner is made of events at the desk. -/
theorem follows_call (p : Planner) (c : Call) : p.Follows (p.call c) := by
  cases c with
  | init => exact follows_init p
  | start => exact follows_start p
  | advance milliseconds => exact follows_advance p milliseconds
  | emit event => exact follows_emit p event
  | outside f g =>
    have hset : p.Follows { p with runtime := f p.runtime, directory := g p.directory } :=
      .of_desk rfl rfl
    exact hset.trans (follows_settle _)

/-- After any calls, the shared state and the publisher of a planner are those of a desk
that tallies. -/
theorem exists_tallied_desk (config : Config) (runtime : MemoryRuntime)
    (directory : MemoryDirectory) (optimizer : PlannerOptimizer) (buildFailure : Option String)
    (calls : List Call) :
    ∃ log, ((calls.foldl call (new config runtime directory optimizer buildFailure)).desk
      log).Tallied := by
  have hcalls : ∀ p : Planner, p.Follows (calls.foldl call p) := by
    induction calls with
    | nil => exact Follows.refl
    | cons c calls ih => exact fun p => (follows_call p c).trans (ih (p.call c))
  obtain ⟨events, log, hrun⟩ := hcalls (new config runtime directory optimizer buildFailure) []
  have htallied := (Desk.tallied_initial config).run events
  exact ⟨log, by rw [← hrun]; exact htallied⟩

end Planner

end ChainPlanner
