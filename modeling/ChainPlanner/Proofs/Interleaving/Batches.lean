import ChainPlanner.Proofs.Interleaving.Moves

/-!
# ChainPlanner.Proofs.Interleaving.Batches

What becomes of the batches that are submitted to the built-in optimizer.  The loop takes what is
queued, applies it, looks at the queue again and reports, and others may submit batches between any
two of these steps; a submission or a step is an `Entry`.

A `Ledger` keeps, beside the loop, what was submitted, what the working copy has had and what has
been delivered.  It is read by the theorems only.  `Balanced` is the invariant: nothing submitted is
lost or overtaken on its way into the working copy, and whatever the loop is about to do, the last
report is on the working copy and complete unless there is something left to apply.  Every entry
keeps it (`Balanced.enter`).  That something is left never lasts: without further submissions each
step is one of at most seven that are left (`Search.stepsLeft`), and then the loop waits, has had
every batch and has reported on all of them (`Balanced.exists_steps`).
-/

namespace ChainPlanner

open Solution

/-! ## changes one by one -/

namespace Mutation

/-- The solution after a change if the change is accepted, and otherwise the solution before it. -/
def accept (m : Mutation) (s : Solution) : Solution :=
  match m.apply s with
  | (.ok _, s') => s'
  | (.error _, _) => s

variable {s : Solution} {lists : UserId → List TaskId}

/-- On an arranged solution a rejected change is skipped. -/
theorem run_eq_accept (h : s.Arranged lists) (m : Mutation) : m.run s = m.accept s := by
  cases hm : m.apply s with
  | mk answer s' =>
    cases answer with
    | ok _ => simp only [run, accept, hm]
    | error e =>
      have hsame := apply_of_error h (congrArg Prod.fst hm)
      rw [hm] at hsame
      simp only [run, accept, hm]
      exact hsame

end Mutation

namespace Search

/-- The solution after rounds of an optimizer: each makes the changes of some batches and then
places what is loose. -/
def afterRounds (make : Mutation → Solution → Solution) (rounds : List (List Batch))
    (s : Solution) : Solution :=
  rounds.foldl (fun s batches =>
    (batches.flatten.foldl (fun s m => make m s) s).placeUnassigned.1) s

/-- The last round comes last. -/
theorem afterRounds_concat (make : Mutation → Solution → Solution) (rounds : List (List Batch))
    (batches : List Batch) (s : Solution) : afterRounds make (rounds ++ [batches]) s =
      (batches.flatten.foldl (fun s m => make m s)
        (afterRounds make rounds s)).placeUnassigned.1 := by
  rw [afterRounds, List.foldl_append]
  rfl

/-- Rejected changes have no effect. -/
theorem foldl_run_eq_accept {s : Solution} {lists : UserId → List TaskId} (h : s.Arranged lists)
    (ms : List Mutation) :
    ms.foldl (fun s m => m.run s) s = ms.foldl (fun s m => m.accept s) s ∧
      ∃ lists', (ms.foldl (fun s m => m.run s) s).Arranged lists' := by
  induction ms generalizing s lists with
  | nil => exact ⟨rfl, lists, h⟩
  | cons m ms ih =>
    obtain ⟨lists', harr⟩ := Mutation.exists_arranged_apply h m
    rw [List.foldl_cons, List.foldl_cons, ← Mutation.run_eq_accept h]
    exact ih harr

/-- Rounds of changes can be read as rounds of those that are accepted. -/
theorem afterRounds_run_eq_accept {s : Solution} {lists : UserId → List TaskId}
    (h : s.Arranged lists) (rounds : List (List Batch)) :
    afterRounds Mutation.run rounds s = afterRounds Mutation.accept rounds s := by
  induction rounds generalizing s lists with
  | nil => rfl
  | cons batches rounds ih =>
    obtain ⟨hsame, lists₁, h₁⟩ := foldl_run_eq_accept h batches.flatten
    obtain ⟨lists₂, h₂⟩ := h₁.exists_placeEach (Solution.pending _)
    rw [afterRounds, afterRounds, List.foldl_cons, List.foldl_cons, ← hsame]
    exact ih h₂

/-! ## entries -/

/-- What can happen to a loop that nobody stops. -/
inductive Entry where
  | submit (batch : Batch)
  | step

/-- The batches submitted, in order. -/
def submissions (entries : List Entry) : List Batch :=
  entries.filterMap fun
    | .submit batch => some batch
    | .step => none

/-- The batches that the loop has taken from the queue and has yet to apply. -/
def held (s : Search) : List Batch :=
  match s.stage with
  | .holding batches _ => batches
  | _ => []

/-- The batches that the next step applies, if it applies any or places what is loose. -/
def applies? (s : Search) : Option (List Batch) :=
  match s.stage with
  | .holding batches dirty => if dirty || !batches.isEmpty then some batches else none
  | _ => none

/-- A report is built by the look at the queue. -/
theorem placed_of_step {s : Search} {event : BestSolution}
    (h : s.step.1.stage = .reporting event) : s.stage = .placed ∧ event = s.report := by
  unfold step at h
  split at h
  · split at h <;> cases h
  · split at h <;> cases h
  · next hat =>
    cases h
    exact ⟨hat, rfl⟩
  · cases h
  · next hat =>
    rw [hat] at h
    cases h

/-- How many steps a loop that is given nothing more takes until it waits with an empty queue. -/
def stepsLeft (s : Search) : Nat :=
  let more := if s.queue.isEmpty then 0 else 4
  match s.stage with
  | .polling dirty => if dirty then 4 else more
  | .holding batches dirty => (if dirty || !batches.isEmpty then 3 else 1) + more
  | .placed => 2 + more
  | .reporting _ => 1 + more
  | .stopped => 0

/-- Without further batches a loop is at most seven steps away from rest. -/
theorem stepsLeft_le (s : Search) : s.stepsLeft ≤ 7 := by
  unfold stepsLeft
  cases s.stage <;> grind

/-- Every step is one of those that are left. -/
theorem stepsLeft_step {s : Search} (hrunning : s.terminated = false) (h : s.stepsLeft ≠ 0) :
    s.step.1.stepsLeft + 1 = s.stepsLeft := by
  obtain ⟨working, queue, terminated, stage⟩ := s
  cases hrunning
  cases stage with
  | polling dirty => cases dirty <;> cases queue <;> simp_all [step, stepsLeft]
  | holding batches dirty => cases dirty <;> cases batches <;> simp [step, stepsLeft] <;> omega
  | placed => simp [step, stepsLeft]; omega
  | reporting event => simp [step, stepsLeft]; omega
  | stopped => exact absurd rfl h

/-- When none is left, the loop waits with an empty queue. -/
theorem stepsLeft_eq_zero_iff {s : Search} (h : s.stage ≠ .stopped) :
    s.stepsLeft = 0 ↔ s.stage = .polling false ∧ s.queue = [] := by
  obtain ⟨working, queue, terminated, stage⟩ := s
  cases stage with
  | polling dirty => cases dirty <;> cases queue <;> simp [stepsLeft]
  | holding batches dirty => cases dirty <;> cases batches <;> simp [stepsLeft]
  | placed => simp [stepsLeft]
  | reporting event => simp [stepsLeft]
  | stopped => exact absurd rfl h

/-- A loop, and what has become of the batches. -/
structure Ledger where
  search : Search
  submitted : List Batch
  /-- The batches that the working copy has had, those that were applied together in one list. -/
  rounds : List (List Batch)
  delivered : List BestSolution

namespace Ledger

/-- The ledger of a loop about to begin from a solution. -/
def start (initial : Solution) (queue : List Batch) : Ledger :=
  ⟨.ofSolution initial queue false, queue, [], []⟩

/-- Make an entry, with what it adds to the ledger. -/
def enter (l : Ledger) : Entry → Ledger
  | .submit batch =>
    { l with search := l.search.submit batch, submitted := l.submitted ++ [batch] }
  | .step =>
    { l with
      search := l.search.step.1
      rounds := l.rounds ++ l.search.applies?.toList
      delivered := l.delivered ++ l.search.step.2.toList }

/-- Entries in order. -/
def run (l : Ledger) (entries : List Entry) : Ledger := entries.foldl enter l

/-- The last entry is made last. -/
theorem run_concat (l : Ledger) (entries : List Entry) (e : Entry) :
    l.run (entries ++ [e]) = (l.run entries).enter e := List.foldl_append

/-- The ledger lists the batches of its entries. -/
theorem submitted_run (l : Ledger) (entries : List Entry) :
    (l.run entries).submitted = l.submitted ++ submissions entries := by
  induction entries using List.reverseRecOn with
  | nil => exact (List.append_nil _).symm
  | append_singleton entries e ih =>
    rw [run_concat, submissions, List.filterMap_append, ← List.append_assoc]
    cases e with
    | submit batch => exact congrArg (· ++ [batch]) ih
    | step => exact ih.trans (List.append_nil _).symm

/-! ## the invariant -/

/-- The last report is on the working copy, and complete unless something is left to apply. -/
def UpToDate (l : Ledger) : Prop :=
  ∃ event, l.delivered.getLast? = some event ∧ event.solution = l.search.working ∧
    (event.allMutationsProcessed = true ∨ l.search.held ++ l.search.queue ≠ [])

/-- What holds at each stage of the loop. -/
def AtStage (l : Ledger) : Prop :=
  match l.search.stage with
  | .polling dirty => dirty = false → l.UpToDate
  | .holding _ dirty => dirty = false → l.UpToDate
  | .placed => l.rounds ≠ []
  | .reporting event => l.rounds ≠ [] ∧ event.solution = l.search.working ∧
    (event.allMutationsProcessed = true ∨ l.search.queue ≠ [])
  | .stopped => False

/-- No batch is lost or overtaken, and the reports keep up with the working copy. -/
structure Balanced (initial : Solution) (l : Ledger) : Prop where
  running : l.search.terminated = false
  history : l.submitted = l.rounds.flatten ++ l.search.held ++ l.search.queue
  working : l.search.working = afterRounds Mutation.run l.rounds initial
  stage : l.AtStage

/-- A ledger is balanced when the loop begins. -/
theorem balanced_start (initial : Solution) (queue : List Batch) :
    Balanced initial (start initial queue) where
  running := rfl
  history := rfl
  working := rfl
  stage := fun hdirty => nomatch hdirty

variable {initial : Solution} {l : Ledger}

/-- A batch that waits excuses a report that has not had it. -/
theorem UpToDate.submit (h : l.UpToDate) (batch : Batch) : (l.enter (.submit batch)).UpToDate := by
  obtain ⟨event, hlast, hsolution, -⟩ := h
  exact ⟨event, hlast, hsolution, .inr (by simp [enter, Search.submit])⟩

/-- Taking batches from the queue leaves nothing less to apply. -/
theorem UpToDate.of_eq {l' : Ledger} (h : l.UpToDate) (hdelivered : l'.delivered = l.delivered)
    (hworking : l'.search.working = l.search.working)
    (hleft : l'.search.held ++ l'.search.queue = l.search.held ++ l.search.queue) :
    l'.UpToDate := by
  rwa [UpToDate, hdelivered, hworking, hleft]

/-- Submitting a batch keeps the balance, at whatever stage the loop is. -/
theorem Balanced.submit (h : Balanced initial l) (batch : Batch) :
    Balanced initial (l.enter (.submit batch)) where
  running := h.running
  history := by
    rw [enter, h.history, List.append_assoc]
    rfl
  working := h.working
  stage := by
    have hstage := h.stage
    have hsame : (l.enter (.submit batch)).search.stage = l.search.stage := rfl
    rw [AtStage] at hstage ⊢
    rw [hsame]
    split <;> simp only [*] at hstage
    · exact fun hdirty => (hstage hdirty).submit batch
    · exact fun hdirty => (hstage hdirty).submit batch
    · exact hstage
    · exact ⟨hstage.1, hstage.2.1, .inr (by simp [enter, Search.submit])⟩

/-- The batches that are queued are taken. -/
theorem Balanced.take {dirty : Bool} (h : Balanced initial l)
    (hat : l.search.stage = .polling dirty) : Balanced initial (l.enter .step) := by
  have hstep : l.enter .step = { l with search := { l.search with
      queue := [], stage := .holding l.search.queue dirty } } := by
    simp [enter, Search.step, Search.applies?, hat, h.running]
  have hheld : l.search.held = [] := by rw [held, hat]
  have hstage : dirty = false → l.UpToDate := by simpa only [AtStage, hat] using h.stage
  have hleft : l.search.queue ++ [] = l.search.held ++ l.search.queue := by
    rw [hheld, List.append_nil, List.nil_append]
  rw [hstep]
  refine ⟨h.running, ?_, h.working, fun hdirty => (hstage hdirty).of_eq rfl rfl hleft⟩
  rw [h.history, List.append_assoc, ← hleft, ← List.append_assoc]
  rfl

/-- The batches that were taken are applied and what is loose is placed, unless there is nothing to
do since the last report. -/
theorem Balanced.apply {batches : List Batch} {dirty : Bool} (h : Balanced initial l)
    (hat : l.search.stage = .holding batches dirty) : Balanced initial (l.enter .step) := by
  have hheld : l.search.held = batches := by rw [held, hat]
  by_cases hwork : (dirty || !batches.isEmpty) = true
  · have hstep : l.enter .step = { l with
        search := { l.search with
          working := (Mutation.replay batches.flatten l.search.working).placeUnassigned.1
          stage := .placed }
        rounds := l.rounds ++ [batches] } := by
      simp [enter, Search.step, Search.applies?, hat, hwork]
    rw [hstep]
    refine ⟨h.running, ?_, ?_, List.concat_ne_nil batches l.rounds⟩
    · rw [h.history, hheld, List.flatten_append, List.flatten_singleton]
      exact congrArg (· ++ _) (List.append_nil _).symm
    · rw [afterRounds_concat, ← h.working]
      rfl
  · have hstep :
        l.enter .step = { l with search := { l.search with stage := .polling false } } := by
      simp [enter, Search.step, Search.applies?, hat, hwork]
    obtain ⟨rfl, rfl⟩ : dirty = false ∧ batches = [] := by simpa using hwork
    have hstage : l.UpToDate := by simpa only [AtStage, hat, forall_const] using h.stage
    rw [hstep]
    refine ⟨h.running, ?_, h.working, fun _ => hstage.of_eq rfl rfl (by rw [hheld]; rfl)⟩
    rw [h.history, hheld]
    rfl

/-- The queue is looked at and the report is built. -/
theorem Balanced.check (h : Balanced initial l) (hat : l.search.stage = .placed) :
    Balanced initial (l.enter .step) := by
  have hstep : l.enter .step =
      { l with search := { l.search with stage := .reporting l.search.report } } := by
    simp [enter, Search.step, Search.applies?, hat]
  have hheld : l.search.held = [] := by rw [held, hat]
  have hstage : l.rounds ≠ [] := by simpa only [AtStage, hat] using h.stage
  have hcomplete : l.search.report.allMutationsProcessed = true ∨ l.search.queue ≠ [] := by
    rw [report, List.isEmpty_iff]
    exact Decidable.em _
  rw [hstep]
  refine ⟨h.running, ?_, h.working, hstage, rfl, hcomplete⟩
  rw [h.history, hheld]
  rfl

/-- The report is delivered. -/
theorem Balanced.deliver {event : BestSolution} (h : Balanced initial l)
    (hat : l.search.stage = .reporting event) : Balanced initial (l.enter .step) := by
  have hstep : l.enter .step = { l with
      search := { l.search with stage := .polling false }
      delivered := l.delivered ++ [event] } := by
    simp [enter, Search.step, Search.applies?, hat]
  have hheld : l.search.held = [] := by rw [held, hat]
  have hstage : l.rounds ≠ [] ∧ event.solution = l.search.working ∧
      (event.allMutationsProcessed = true ∨ l.search.queue ≠ []) := by
    simpa only [AtStage, hat] using h.stage
  rw [hstep]
  refine ⟨h.running, ?_, h.working, fun _ => ⟨event, List.getLast?_concat, hstage.2⟩⟩
  rw [h.history, hheld]
  rfl

/-- No loop that nobody stops has stopped. -/
theorem Balanced.stage_ne_stopped (h : Balanced initial l) : l.search.stage ≠ .stopped := by
  intro hat
  have hstage := h.stage
  simp only [AtStage, hat] at hstage

/-- When the loop waits with an empty queue, the last report is on the working copy and complete. -/
theorem Balanced.reported (h : Balanced initial l) (hat : l.search.stage = .polling false)
    (hqueue : l.search.queue = []) :
    ∃ event, l.delivered.getLast? = some event ∧ event.solution = l.search.working ∧
      event.allMutationsProcessed = true := by
  have hstage := h.stage
  simp only [AtStage, hat, forall_const] at hstage
  obtain ⟨event, hlast, hsolution, hcomplete⟩ := hstage
  refine ⟨event, hlast, hsolution, hcomplete.resolve_right ?_⟩
  rw [held, hat, hqueue]
  exact not_not_intro rfl

/-- Every entry keeps the balance. -/
theorem Balanced.enter (h : Balanced initial l) (e : Entry) : Balanced initial (l.enter e) := by
  cases e with
  | submit batch => exact h.submit batch
  | step =>
    cases hat : l.search.stage with
    | polling dirty => exact h.take hat
    | holding batches dirty => exact h.apply hat
    | placed => exact h.check hat
    | reporting event => exact h.deliver hat
    | stopped => exact absurd hat h.stage_ne_stopped

/-- And so does every run of entries. -/
theorem Balanced.run (h : Balanced initial l) (entries : List Entry) :
    Balanced initial (l.run entries) := by
  induction entries generalizing l with
  | nil => exact h
  | cons e entries ih => exact ih (h.enter e)

/-! ## progress -/

/-- Without further submissions the steps that are left are made one after another. -/
theorem Balanced.stepsLeft_run (h : Balanced initial l) {steps : Nat}
    (hsteps : steps ≤ l.search.stepsLeft) :
    (l.run (List.replicate steps .step)).search.stepsLeft + steps = l.search.stepsLeft := by
  induction steps generalizing l with
  | zero => rfl
  | succ steps ih =>
    have hstep : (l.enter .step).search.stepsLeft + 1 = l.search.stepsLeft :=
      stepsLeft_step h.running (by omega)
    have hrest := ih (h.enter .step) (by omega)
    rw [List.replicate_succ, Ledger.run, List.foldl_cons, ← Ledger.run]
    omega

/-- Without further submissions the loop waits within seven steps.  Every batch that was submitted
has then been applied, and the last report is on the working copy and complete. -/
theorem Balanced.exists_steps (h : Balanced initial l) :
    ∃ steps ≤ 7, let l' := l.run (List.replicate steps .step)
      l'.search.stage = .polling false ∧ l'.search.queue = [] ∧
        l'.rounds.flatten = l.submitted ∧
        ∃ event, l'.delivered.getLast? = some event ∧ event.solution = l'.search.working ∧
          event.allMutationsProcessed = true := by
  refine ⟨l.search.stepsLeft, l.search.stepsLeft_le, ?_⟩
  intro l'
  have h' : Balanced initial l' := h.run _
  have hall : l'.search.stepsLeft + l.search.stepsLeft = l.search.stepsLeft :=
    h.stepsLeft_run (Nat.le_refl _)
  -- as many steps as were left have been made, so none is left
  have hleft : l'.search.stepsLeft = 0 := by omega
  obtain ⟨hat, hqueue⟩ := (stepsLeft_eq_zero_iff h'.stage_ne_stopped).mp hleft
  have hheld : l'.search.held = [] := by rw [held, hat]
  have hsubmitted : l'.submitted = l.submitted := by
    rw [submitted_run, submissions, List.filterMap_replicate, List.append_nil]
  refine ⟨hat, hqueue, ?_, h'.reported hat hqueue⟩
  rw [← hsubmitted, h'.history, hheld, hqueue, List.append_nil, List.append_nil]

/-! ## reports -/

variable {queue : List Batch} {entries : List Entry} {event : BestSolution}

/-- A report that is about to be delivered was built at some step, and the working copy has had
nothing since. -/
theorem exists_check (hat : ((start initial queue).run entries).search.stage = .reporting event) :
    ∃ early mid, entries = early ++ .step :: mid ∧
      ((start initial queue).run early).search.stage = .placed ∧
      event = ((start initial queue).run early).search.report ∧
      ((start initial queue).run entries).rounds = ((start initial queue).run early).rounds := by
  induction entries using List.reverseRecOn with
  | nil => cases hat
  | append_singleton entries e ih =>
    rw [run_concat] at hat ⊢
    cases e with
    | submit batch =>
      obtain ⟨early, mid, rfl, hplaced, hevent, hrounds⟩ := ih hat
      exact ⟨early, mid ++ [.submit batch], by simp, hplaced, hevent, hrounds⟩
    | step =>
      obtain ⟨hplaced, hevent⟩ := placed_of_step hat
      refine ⟨entries, [], rfl, hplaced, hevent, ?_⟩
      simp [enter, applies?, hplaced]

/-- A report that has been delivered was delivered at some step. -/
theorem exists_delivery (h : event ∈ ((start initial queue).run entries).delivered) :
    ∃ before late, entries = before ++ .step :: late ∧
      ((start initial queue).run before).search.stage = .reporting event := by
  induction entries using List.reverseRecOn with
  | nil => cases h
  | append_singleton entries e ih =>
    rw [run_concat] at h
    cases e with
    | submit batch =>
      obtain ⟨before, late, rfl, hat⟩ := ih h
      exact ⟨before, late ++ [.submit batch], by simp, hat⟩
    | step =>
      rcases List.mem_append.1 h with hbefore | hnew
      · obtain ⟨before, late, rfl, hat⟩ := ih hbefore
        exact ⟨before, late ++ [.step], by simp, hat⟩
      · have hstep := Option.mem_toList.1 hnew
        exact ⟨entries, [], rfl, (step_delivers (Prod.ext rfl hstep)).1⟩

end Ledger

open Ledger

/-- Batches may be queued before the loop begins and be submitted between any two of its steps.

The batches that the working copy has had, those that have been taken and those in the queue are all
the batches in the order of their submission.  The working copy is the initial solution after these
rounds, each of which places what is loose; from an arranged solution, the rejected changes have had
no effect.

A report is built when the queue is looked at and delivered at a later step.  It is on the working
copy as it then still is, after all batches that have been taken so far; it is complete exactly if
these were all batches submitted before the look at the queue, and initialized exactly if no task in
it is loose.  When the loop waits with an empty queue, the last report was on the working copy and
complete. -/
theorem each_batch_applied_once (initial : Solution) (queue : List Batch) (entries : List Entry) :
    let l := (start initial queue).run entries
    queue ++ submissions entries = l.rounds.flatten ++ l.search.held ++ l.search.queue ∧
      l.search.working = afterRounds Mutation.run l.rounds initial ∧
      (∀ lists, initial.Arranged lists →
        l.search.working = afterRounds Mutation.accept l.rounds initial) ∧
      (∀ event ∈ l.delivered, ∃ early mid late, entries = early ++ .step :: mid ++ .step :: late ∧
        let check := (start initial queue).run early
        let delivery := (start initial queue).run (early ++ .step :: mid)
        check.search.stage = .placed ∧ delivery.search.stage = .reporting event ∧
          delivery.rounds ≠ [] ∧ delivery.search.held = [] ∧ delivery.rounds = check.rounds ∧
          event.solution = delivery.search.working ∧
          event.solution = afterRounds Mutation.run check.rounds initial ∧
          (event.allMutationsProcessed = true ↔
            check.rounds.flatten = queue ++ submissions early) ∧
          (event.initialized = true ↔ event.solution.unassigned = [])) ∧
      (l.search.stage = .polling false → l.search.queue = [] →
        ∃ event, l.delivered.getLast? = some event ∧ event.solution = l.search.working ∧
          event.allMutationsProcessed = true) := by
  intro l
  have hbalanced : ∀ entries, Balanced initial ((start initial queue).run entries) :=
    (balanced_start initial queue).run
  have hsubmitted : ∀ entries, ((start initial queue).run entries).submitted =
      queue ++ submissions entries := submitted_run (start initial queue)
  have h : Balanced initial l := hbalanced entries
  refine ⟨hsubmitted entries ▸ h.history, h.working, fun lists harr => ?_, fun event hevent => ?_,
    h.reported⟩
  · rw [h.working, afterRounds_run_eq_accept harr]
  · obtain ⟨before, late, rfl, hat⟩ := exists_delivery hevent
    obtain ⟨early, mid, rfl, hplaced, hreport, hrounds⟩ := exists_check hat
    have hdelivery := hbalanced (early ++ .step :: mid)
    have hcheck := hbalanced early
    have hstage := hdelivery.stage
    simp only [AtStage, hat] at hstage
    have hall := hcheck.history
    rw [hsubmitted, held, hplaced] at hall
    refine ⟨early, mid, late, rfl, hplaced, hat, hstage.1, ?_, hrounds, hstage.2.1, ?_, ?_, ?_⟩
    · rw [held, hat]
    · rw [hstage.2.1, hdelivery.working, hrounds]
    · rw [hall, hreport, report, List.isEmpty_iff]
      simp
    · rw [hreport, report, List.isEmpty_iff]

/-- A batch that comes between the round and the look at the queue makes the report incomplete, and
one that comes after the look goes into the next round with it.  A task is added again in vain. -/
theorem each_batch_applied_once_late :
    let task (n : Int64) : Task := .ofId ⟨n⟩ "" .lowest
    let initial : Solution := .ofUsers [.ofId ⟨"ann"⟩]
    let queue : List Batch := [[.add (task 1)]]
    let entries : List Entry := [.step, .step, .submit [.add (task 1), .add (task 2)], .step,
      .submit [.remove ⟨1⟩], .step, .step, .step, .step, .step]
    let l := (start initial queue).run entries
    l.delivered.map (·.allMutationsProcessed) = [false, true] ∧
      l.rounds.map (·.length) = [1, 2] ∧ l.search.working.tasks.keys = [⟨2⟩] ∧
      l.search.stage = .polling false ∧ l.search.queue = [] ∧
      l.rounds.flatten = queue ++ submissions entries ∧
      ∃ event, l.delivered.getLast? = some event ∧ event.solution = l.search.working ∧
        event.allMutationsProcessed = true := by
  intro task initial queue entries l
  have hfacts : l.delivered.map (·.allMutationsProcessed) = [false, true] ∧
      l.rounds.map (·.length) = [1, 2] ∧ l.search.working.tasks.keys = [⟨2⟩] := by
    decide +kernel
  have hat : l.search.stage = .polling false := rfl
  have hqueue : l.search.queue = [] := rfl
  obtain ⟨hhistory, -, -, -, hreported⟩ := each_batch_applied_once initial queue entries
  refine ⟨hfacts.1, hfacts.2.1, hfacts.2.2, hat, hqueue, ?_, hreported hat hqueue⟩
  rw [hhistory, hqueue, List.append_nil]
  exact (List.append_nil _).symm

end Search

end ChainPlanner
