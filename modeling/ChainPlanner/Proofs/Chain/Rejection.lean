import ChainPlanner.Proofs.Chain.Refinement

/-!
# ChainPlanner.Proofs.Chain.Rejection

What a rejected mutation leaves.  A mutation is held against the solution before anything is
changed, and on an arranged solution no later step of it can fail: what it answers is
`Mutation.rejection?`, and a rejected one leaves the solution as it is.  So a batch leaves what the
mutations before the first rejected one have made (`Mutation.applyAll_cases`).
-/

namespace ChainPlanner

open Solution

namespace Mutation

variable {s : Solution} {lists : UserId → List TaskId} {m : Mutation} {ms : List Mutation}
  {e : MutationError}

/-! ## a batch -/

/-- Each mutation of a batch is accepted by the solution that those before it leave. -/
def AllAccepted (ms : List Mutation) (s : Solution) : Prop :=
  ∀ (k : Nat) (m : Mutation), ms[k]? = some m → (m.apply (replay (ms.take k) s)).1 = .ok ()

/-- There is nothing to reject in an empty batch. -/
theorem allAccepted_nil (s : Solution) : AllAccepted [] s := by simp [AllAccepted]

/-- A batch is accepted if its first mutation is and the others are after it. -/
theorem AllAccepted.cons (hm : (m.apply s).1 = .ok ()) (hms : AllAccepted ms (m.run s)) :
    AllAccepted (m :: ms) s := by
  intro k m' hk
  cases k with
  | zero =>
    obtain rfl : m = m' := by simpa using hk
    exact hm
  | succ k => exact hms k m' (by simpa using hk)

/-- A batch is made up to the first mutation that is rejected. -/
theorem applyAll_cases (h : s.Arranged lists) (ms : List Mutation) :
    (AllAccepted ms s ∧ applyAll ms s = (.ok (), replay ms s)) ∨
      ∃ before m after e, ms = before ++ m :: after ∧ AllAccepted before s ∧
        (m.apply (replay before s)).1 = .error e ∧
        applyAll ms s = (.error e, replay before s) := by
  induction ms generalizing s lists with
  | nil => exact .inl ⟨allAccepted_nil s, rfl⟩
  | cons m ms ih =>
    cases hm : m.rejection? s with
    | some e =>
      have herr := apply_of_rejection h hm
      have hfirst : (m.apply (replay [] s)).1 = .error e := congrArg Prod.fst herr
      exact .inr ⟨[], m, ms, e, rfl, allAccepted_nil s, hfirst, applyAll_cons_of_error herr⟩
    | none =>
      have hok := apply_of_acceptance h hm
      have haccepted : (m.apply s).1 = .ok () := congrArg Prod.fst hok
      obtain ⟨lists', harr⟩ := exists_arranged_apply h m
      obtain ⟨hall, hrest⟩ | ⟨before, m', after, e, rfl, hall, herr, hrest⟩ := ih harr
      · refine .inl ⟨hall.cons haccepted, ?_⟩
        rw [applyAll_cons_of_ok hok]
        exact hrest
      · refine .inr ⟨m :: before, m', after, e, rfl, hall.cons haccepted, herr, ?_⟩
        rw [applyAll_cons_of_ok hok]
        exact hrest

/-! ## what a rejection leaves -/

/-- A mutation is rejected exactly if it adds a task that is there or assigns to a worker that is
not.  Then it leaves the solution as it was, and the answer names that task or that worker and no
fault of a chain; removing and releasing always work.  A batch that is accepted leaves what its
mutations make of the solution in order, and any other leaves what those before its first rejected
mutation make of it. -/
theorem rejected_without_effect (hs : s.Reachable) :
    (∀ m, (∃ e, (m.apply s).1 = .error e) ↔
      (∃ t, m = add t ∧ s.containsTask t.id = true) ∨
        ∃ t u, m = assign t u ∧ s.containsUser u = false) ∧
    (∀ m e, (m.apply s).1 = .error e → (m.apply s).2 = s ∧ (∀ c, e ≠ .chain c) ∧
      ((∃ t, m = add t ∧ e = .duplicateTask t.id) ∨ ∃ t u, m = assign t u ∧ e = .unknownUser u)) ∧
    (∀ id, ((remove id).apply s).1 = .ok () ∧ ((release id).apply s).1 = .ok ()) ∧
    ∀ ms, (AllAccepted ms s ∧ applyAll ms s = (.ok (), replay ms s)) ∨
      ∃ before m after e, ms = before ++ m :: after ∧ AllAccepted before s ∧
        (m.apply (replay before s)).1 = .error e ∧
        applyAll ms s = (.error e, replay before s) := by
  have h := hs.arranged
  refine ⟨fun m => ?_, fun m e he => ?_, fun id => ⟨?_, ?_⟩, applyAll_cases h⟩
  · simp only [fst_apply_eq_error_iff h, rejection?_eq_some_iff]
    grind
  · have hrejected := (fst_apply_eq_error_iff h).1 he
    rw [apply_of_rejection h hrejected]
    rw [rejection?_eq_some_iff] at hrejected
    refine ⟨rfl, ?_, ?_⟩
    · rintro c rfl
      simp at hrejected
    · grind
  · rw [apply_of_acceptance h rfl]
  · rw [apply_of_acceptance h rfl]

/-- The second of three mutations assigns a new task to a worker that is not there: the batch stops
there, the first has been made, and the task has not been added. -/
theorem rejected_without_effect_unknown_worker :
    let s := Operation.runAll callsForThree ∅
    let stranger := assign (.ofId ⟨9⟩ "" .lowest) ⟨"ghost"⟩
    let batch := [release ⟨1⟩, stranger, remove ⟨2⟩]
    s.Reachable ∧ (stranger.apply s).1 = .error (.unknownUser ⟨"ghost"⟩) ∧
      (stranger.apply s).2 = s ∧
      (∃ before m after e, batch = before ++ m :: after ∧ AllAccepted before s ∧
        (m.apply (replay before s)).1 = .error e ∧
        applyAll batch s = (.error e, replay before s)) ∧
      (applyAll batch s).1 = .error (.unknownUser ⟨"ghost"⟩) ∧
      (applyAll batch s).2.chainIds ⟨"ann"⟩ = [⟨2⟩] ∧
      (applyAll batch s).2.containsTask ⟨9⟩ = false := by
  intro s stranger batch
  have hreach : s.Reachable := ⟨callsForThree, rfl⟩
  obtain ⟨-, hleaves, -, hbatch⟩ := rejected_without_effect hreach
  have herr : (stranger.apply s).1 = .error (.unknownUser ⟨"ghost"⟩) := by decide +kernel
  have hstops : (applyAll batch s).1 = .error (.unknownUser ⟨"ghost"⟩) := by decide +kernel
  have hsplit := (hbatch batch).resolve_left fun hall => by simp [hall.2] at hstops
  exact ⟨hreach, herr, (hleaves stranger _ herr).1, hsplit, hstops, by decide +kernel,
    by decide +kernel⟩

end Mutation

end ChainPlanner
