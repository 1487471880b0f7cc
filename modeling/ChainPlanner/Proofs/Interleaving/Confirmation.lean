import ChainPlanner.Proofs.Interleaving.Journal
import ChainPlanner.Proofs.Resync.Soundness

/-!
# ChainPlanner.Proofs.Interleaving.Confirmation

When a planner still knows of every change that the latest solution has not had.

A planner notes the changes that it submits and strikes them all out when a publishable report is
delivered.  Whether a report has all changes is looked up when it is built.  A change that is
submitted between the two moments is struck out although neither the report nor the working copy
behind it has had it, and until the next report a refresh on the same records finds it again.

`none_forgotten_iff` says that this is the only way to lose a change: on a run of a planner nothing
is ever forgotten exactly if the run is `Calm`, that is, if no publishable report is delivered while
changes are queued.  On a calm run a refresh compares records with the solution that the optimizer
began from with every submitted change made.  `forgotten_between_report_and_delivery` is a run that
is not calm.
-/

namespace ChainPlanner

namespace Planner

/-- No publishable report is delivered while changes are queued. -/
def Calm (p : Planner) (moves : List Move) : Prop :=
  ∀ before after, moves = before ++ .optimize :: after → ∀ search,
    (p.run before).search? = some search → search.delivers?.isSome = true → search.queue = []

variable {p : Planner} {L : Solution} {moves : List Move}

/-- The first moves of a calm run are calm. -/
theorem Calm.of_append {after : List Move} (h : p.Calm (moves ++ after)) : p.Calm moves := by
  intro before rest hsplit
  exact h before (rest ++ after) (by rw [hsplit, List.append_assoc]; rfl)

end Planner

namespace Journal

open Planner

variable {p : Planner} {L : Solution} {moves : List Move} {j : Journal} {search : Search}

/-- On a calm run the planner has noted what is unconfirmed, and nothing else. -/
theorem unconfirmed_eq_noted (h : p.Begun L) (hcalm : p.Calm moves) :
    ((ofPlanner p).run moves).unconfirmed = ((ofPlanner p).run moves).noted := by
  induction moves using List.reverseRecOn with
  | nil =>
    have hbatches : (ofPlanner p).planner.batches = [] := h.batches
    rw [run, List.foldl_nil, unconfirmed, hbatches]
    exact h.submitted.symm
  | append_singleton moves m ih =>
    have hsame := ih hcalm.of_append
    obtain ⟨search, hkept⟩ := (kept_ofPlanner h).run moves
    obtain ⟨search', -, hadds, hstruck⟩ := hkept.step m
    rw [run_append, run, List.foldl_cons, List.foldl_nil]
    by_cases hstrikes : Strikes search m
    · obtain ⟨hunconfirmed, hnoted⟩ := hstruck hstrikes
      obtain ⟨rfl, hdelivers⟩ := hstrikes
      have hsearch : (p.run moves).search? = some search := by
        rw [← hkept.search?_eq, planner_run]
        rfl
      have hqueue : search.queue = [] := hcalm moves [] rfl search hsearch hdelivers
      rw [hunconfirmed, hnoted, hqueue, List.flatten_nil]
    · obtain ⟨ms, hms⟩ := hadds hstrikes
      rw [hms.unconfirmed, hms.noted, hsame]

/-- A report that is delivered while changes are queued leaves them unconfirmed and not noted. -/
theorem exists_forgotten_of_strikes (h : Kept L j search)
    (hdelivers : search.delivers?.isSome = true) (hqueue : search.queue ≠ []) :
    ¬ (j.step .optimize).unconfirmed ⊆ (j.step .optimize).noted := by
  obtain ⟨-, -, -, hstruck⟩ := h.step .optimize
  obtain ⟨hunconfirmed, hnoted⟩ := hstruck ⟨rfl, hdelivers⟩
  rw [hunconfirmed, hnoted, List.subset_nil, List.flatten_eq_nil_iff]
  intro hempty
  obtain ⟨batch, hbatch⟩ := List.exists_mem_of_ne_nil _ hqueue
  exact h.nonempty batch hbatch (hempty batch hbatch)

end Journal

namespace Planner

open Journal

variable {p : Planner} {L : Solution}

/-- From a planner whose optimizer has just begun from `L`, whatever steps the loops make in
whatever order: the latest solution is `L` with an initial part of the submitted changes made in
order and tasks placed in between.  Of the changes behind that part each one is always noted as
submitted exactly if no publishable report is delivered while changes are queued.  In that case a
refresh always compares with a solution that has had every submitted change. -/
theorem none_forgotten_iff (h : p.Begun L) (moves : List Move) :
    let journal (before : List Move) := (Journal.ofPlanner p).run before
    (∀ before after, moves = before ++ after →
      (journal before).planner = p.run before ∧
      (p.run before).batches.flatten = (journal before).arrived ++ (journal before).unconfirmed ∧
      ∀ s, (p.run before).coordination.latest? = some s →
        ∃ steps, WorkStep.changes steps = (journal before).arrived ∧
          s = WorkStep.runAll steps L) ∧
    ((∀ before after, moves = before ++ after →
      (journal before).unconfirmed ⊆ (p.run before).coordination.submitted) ↔ p.Calm moves) ∧
    (p.Calm moves → ∀ before after, moves = before ++ after →
      ∀ s, (p.run before).coordination.expected? = some s →
        ∃ steps, WorkStep.changes steps = (p.run before).batches.flatten ∧
          s = WorkStep.runAll steps L) := by
  intro journal
  have hplanner : ∀ before, (journal before).planner = p.run before := fun before =>
    planner_run (ofPlanner p) before
  have hkept : ∀ before, ∃ search, Kept L (journal before) search := fun before =>
    (kept_ofPlanner h).run before
  refine ⟨fun before _ _ => ?_, ⟨fun hall before after hsplit search hsearch hdelivers => ?_,
    fun hcalm before after hsplit => ?_⟩, fun hcalm before after hsplit s hs => ?_⟩
  · obtain ⟨search, hbefore⟩ := hkept before
    rw [← hplanner before]
    exact ⟨rfl, hbefore.batches_eq, hbefore.latest⟩
  · obtain ⟨search', hbefore⟩ := hkept before
    have hsame : search' = search := by
      have hsearch' := hbefore.search?_eq
      rw [hplanner, hsearch] at hsearch'
      exact (Option.some.inj hsearch').symm
    subst hsame
    -- a report delivered over a queue clears the note of what is queued
    by_contra hqueue
    have hstep : journal (before ++ [.optimize]) = (journal before).step .optimize := by
      simp only [journal, Journal.run_append]
      rfl
    have hsubset := hall (before ++ [.optimize]) after (by rw [hsplit, List.append_assoc]; rfl)
    rw [← hplanner, hstep] at hsubset
    exact exists_forgotten_of_strikes hbefore hdelivers hqueue hsubset
  · have hsame : (journal before).unconfirmed = (journal before).noted :=
      unconfirmed_eq_noted h (hsplit ▸ hcalm).of_append
    rw [← hplanner before, hsame]
    exact List.Subset.refl _
  · obtain ⟨search, hbefore⟩ := hkept before
    have hsame : (journal before).unconfirmed = (journal before).noted :=
      unconfirmed_eq_noted h (hsplit ▸ hcalm).of_append
    rw [← hplanner before] at hs ⊢
    rw [hbefore.batches_eq, hsame]
    exact hbefore.expected hs

/-! ## a submission that comes late -/

/-- A ready task that only one worker may work on. -/
def readyForAnn (n : Int64) : TaskRecord :=
  { Assembly.recordOf n .ready none with potentialOwners := [.user ⟨"ann"⟩] }

/-- The task of such a record. -/
def taskForAnn (n : Int64) : Task :=
  { Task.ofId ⟨n⟩ "" .lowest with potentialOwners := [.user ⟨"ann"⟩] }

/-- The first report is delivered, a second task is submitted and a report on it is built.  Before
that report is delivered, a third task is submitted. -/
def lateSubmission : List Move :=
  [.optimize, .optimize, .optimize, .optimize, .refresh [readyForAnn 1, readyForAnn 2],
    .optimize, .optimize, .optimize, .refresh [readyForAnn 1, readyForAnn 2, readyForAnn 3],
    .optimize]

/-- Such a run is not calm: the latest solution has had the second task only, nothing is noted. -/
theorem none_forgotten_iff_late :
    let L := Operation.runAll callsForOne ∅
    let p := (aboutToSolve L [readyForAnn 1]).takePermit
    p.Begun L ∧ ((Journal.ofPlanner p).run lateSubmission).arrived = [.add (taskForAnn 2)] ∧
      ¬ p.Calm lateSubmission := by
  intro L p
  have hbegun : p.Begun L := begun_aboutToSolve L _
  have hunconfirmed : ((Journal.ofPlanner p).run lateSubmission).unconfirmed =
      [.add (taskForAnn 3)] := by decide +kernel
  have hnoted : (p.run lateSubmission).coordination.submitted = [] := by decide +kernel
  refine ⟨hbegun, by decide +kernel, fun hcalm => ?_⟩
  have hsubset := (none_forgotten_iff hbegun lateSubmission).2.1.2 hcalm lateSubmission []
    (List.append_nil _).symm
  rw [hunconfirmed, hnoted] at hsubset
  exact List.not_mem_nil (hsubset List.mem_cons_self)

/-- The third task is neither in the latest solution nor noted after such a run, and a refresh on
the same records submits it again. -/
theorem forgotten_between_report_and_delivery :
    let L := Operation.runAll callsForOne ∅
    let p := (aboutToSolve L [readyForAnn 1]).takePermit
    L.Reachable ∧ p.Begun L ∧
      ((Journal.ofPlanner p).run lateSubmission).unconfirmed = [.add (taskForAnn 3)] ∧
      (p.run lateSubmission).coordination.submitted = [] ∧
      (p.run (lateSubmission ++
        [.refresh [readyForAnn 1, readyForAnn 2, readyForAnn 3]])).batches =
          [[.add (taskForAnn 2)], [.add (taskForAnn 3)], [.add (taskForAnn 3)]] := by
  intro L p
  exact ⟨⟨callsForOne, rfl⟩, begun_aboutToSolve L _, by decide +kernel, by decide +kernel,
    by decide +kernel⟩

end Planner

end ChainPlanner
