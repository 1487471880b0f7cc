import ChainPlanner.Proofs.Resync.Rounds

/-!
# ChainPlanner.Proofs.Resync.Strangers

Tasks that are held by somebody who is not a worker of the solution.

A comparison hands such a task back to the optimizer, and takes it for handed back as long as it is
in no chain.  The optimizer puts every loose task into a chain, that of the fallback user if need
be.  So the same records ask for the release of the task in every round anew, however many rounds
have passed: `strangers_released_every_round` says so, and that nothing else is asked for from the
third comparison on.
-/

namespace ChainPlanner.Assembly

open Solution

variable {s : Solution} {p : PublishedTasks} {records : List TaskRecord} {ms : List Mutation}

/-- In a solution with the fallback user, after a comparison that succeeds and any number of rounds
on its records, the first one included: no task is loose, and another comparison succeeds and asks
for the release of every task that a stranger holds.  Beside these it asks for nothing, except that
after a single round it also releases the ready tasks that were published and not in the
solution. -/
theorem strangers_released_every_round (hs : s.Reachable)
    (hfallback : s.containsUser .fallback = true)
    (hrecords : ∀ r ∈ records, r.taskId ≠ .placeholder)
    (hok : (resync s records p).1 = .ok ms) (n : Nat) :
    let k := Outlook.rounds ⟨s, p⟩ records (n + 1)
    k.solution.unassigned = [] ∧
      ∃ ms', (resync k.solution records k.published).1 = .ok ms' ∧
        (∃ s', Mutation.applyAll ms' k.solution = (.ok (), s')) ∧
        ∀ m, m ∈ ms' ↔ ∃ id r, m = .release id ∧ firstRecord? records id = some r ∧
          ((∃ u, r.holder? = some u ∧ s.containsUser u = false) ∨
            (n = 0 ∧ r.status = .ready ∧ id ∈ p ∧ s.containsTask id = false)) := by
  have hsound : Outlook.Sound ⟨s, p⟩ := ⟨hs.arranged, hfallback⟩
  obtain ⟨hround, huser⟩ := Outlook.rounded_rounds hsound hrecords hok n
  obtain ⟨ms', hok', hmem⟩ := hround.exists_next hrecords
  obtain ⟨-, -, s', -, hall, -⟩ :=
    exists_applyAll_resync hround.sound.arranged hrecords (Prod.ext hok' rfl)
  refine ⟨hround.placed, ms', hok', ⟨s', hall⟩, fun m => ?_⟩
  rw [hmem]
  refine exists_congr fun id => exists_congr fun r => and_congr_right fun _ =>
    and_congr_right fun hr => ?_
  have hready : r.status = .ready ∧ id ∈ (Outlook.rounds ⟨s, p⟩ records (n + 1)).published ↔
      n = 0 ∧ r.status = .ready ∧ id ∈ p ∧ s.containsTask id = false := by
    rw [and_left_comm, and_congr_right_iff]
    exact fun hready =>
      Outlook.mem_published_rounds_of_ready hsound hrecords hok n hr hready
  rw [hready, or_comm]
  simp only [huser]

/-- A record of a task that a worker may work on but somebody else holds. -/
def heldByStranger : TaskRecord :=
  { recordOf 1 .reserved (some ⟨"bob"⟩) with potentialOwners := [.user ⟨"ann"⟩] }

/-- Calls that leave a worker and the fallback user without a task. -/
def callsForNobody : List Operation :=
  [.addUser (.ofId .fallback), .addUser (.ofId ⟨"ann"⟩)]

/-- After a hundred rounds the task is still released. -/
theorem strangers_released_every_round_hundred :
    let s := Operation.runAll callsForNobody ∅
    let t : Task := { Task.ofId ⟨1⟩ "" .lowest with potentialOwners := [.user ⟨"ann"⟩] }
    s.Reachable ∧ s.containsUser .fallback = true ∧
      (∀ r ∈ [heldByStranger], r.taskId ≠ .placeholder) ∧
      (resync s [heldByStranger] ∅).1 = .ok [.add t] ∧
      let k := Outlook.rounds ⟨s, ∅⟩ [heldByStranger] 100
      ∃ ms, (resync k.solution [heldByStranger] k.published).1 = .ok ms ∧ .release ⟨1⟩ ∈ ms := by
  intro s t
  have hreach : s.Reachable := ⟨callsForNobody, rfl⟩
  have hfallback : s.containsUser .fallback = true := by decide +kernel
  have hrecords : ∀ r ∈ [heldByStranger], r.taskId ≠ .placeholder := by decide +kernel
  have hok : (resync s [heldByStranger] ∅).1 = .ok [.add t] := by decide +kernel
  obtain ⟨-, ms', hok', -, hmem⟩ :=
    strangers_released_every_round hreach hfallback hrecords hok 99
  refine ⟨hreach, hfallback, hrecords, hok, ms', hok', (hmem _).2 ?_⟩
  exact ⟨⟨1⟩, heldByStranger, rfl, by decide +kernel, .inl ⟨⟨"bob"⟩, rfl, by decide +kernel⟩⟩

/-- A task that a stranger holds is added and placed.  The next comparison with the same record
releases it, the optimizer places it where it was, and the comparison after that releases it
again. -/
theorem stranger_released_again :
    let s := Operation.runAll callsForNobody ∅
    let k := Outlook.rounds ⟨s, ∅⟩ [heldByStranger]
    s.Reachable ∧ s.containsUser .fallback = true ∧ s.containsUser ⟨"bob"⟩ = false ∧
      (k 1).solution.unassigned = [] ∧ (k 1).solution.chainIds ⟨"ann"⟩ = [⟨1⟩] ∧
      resync (k 1).solution [heldByStranger] (k 1).published =
        (.ok [.release ⟨1⟩], (k 1).published) ∧
      (k 2).solution = (k 1).solution ∧ (k 2).published = (k 1).published := by
  intro s k
  exact ⟨⟨callsForNobody, rfl⟩, by decide +kernel, by decide +kernel, by decide +kernel,
    by decide +kernel, by decide +kernel, by decide +kernel, by decide +kernel⟩

end ChainPlanner.Assembly
