import ChainPlanner.Solution.Check

/-!
# ChainPlanner.Proofs.Chain.Checking

The check of a solution as a loop.  A `Check` is where the loop stands, between two chains or at a
task of one, and a `turn` takes up one chain or looks at one task: it goes on or has the answer.
Nothing in a turn says that there is an end to it.

A turn that goes on has met a new task or has taken up a new chain (`Check.left_turn`), and leaves
what the loop comes to as it is (`Check.answer_turn`).  So the loop ends on any links whatever,
cyclic, shared or dangling, within one turn more than there are tasks and workers, and its answer is
that of `Solution.validate` (`within_eq_validate`).
-/

namespace ChainPlanner.Solution

/-- Where a check stands. -/
inductive Check where
  /-- Between two chains, with the tasks met so far and the workers that are still to come. -/
  | atUser (met : List TaskId) (waiting : List User)
  /-- At a task of a chain, which should be linked after `previous` and start at `start`. -/
  | atTask (met : List TaskId) (waiting : List User) (user : UserId) (previous : Anchor)
    (start : Minutes) (id : TaskId)

/-- Look at the next task of a chain. -/
def look (s : Solution) (user : UserId) (met : List TaskId) (previous : Anchor) (start : Minutes)
    (id : TaskId) : Except ChainError Task :=
  if id ∈ met then .error (.cycle user id)
  else match s.task? id with
    | none => .error (.unknownTask id)
    | some t =>
      if t.previous ≠ some previous then .error (.brokenBackLink id t.previous previous)
      else if t.startTime ≠ some start ∨ t.endTime ≠ some (start + t.duration) then
        .error (.staleTimes id start t.startTime)
      else .ok t

/-- The verdict when all chains have been followed: no task that was not met has links. -/
def settle (s : Solution) (met : List TaskId) : Except ChainError Unit :=
  match s.tasks.values.find? fun t => t.id ∉ met && (t.previous.isSome || t.next.isSome) with
  | some t => .error (.orphaned t.id)
  | none => .ok ()

/-- Follow the chains of some workers in turn. -/
def checkUsers (s : Solution) (us : List User) (met : List TaskId) :
    Except ChainError (List TaskId) :=
  us.foldlM (fun met u => s.checkFrom u.id met (.user u.id) 0 u.next) met

namespace Check

/-- On to the next task of a chain, or to the next chain. -/
def on (met : List TaskId) (waiting : List User) (user : UserId) (previous : Anchor)
    (start : Minutes) : Option TaskId → Check
  | none => atUser met waiting
  | some id => atTask met waiting user previous start id

/-- One turn of the loop: where it stands afterwards, or the answer. -/
def turn (s : Solution) : Check → Check ⊕ Except ChainError Unit
  | atUser met [] => .inr (s.settle met)
  | atUser met (u :: us) => .inl (on met us u.id (.user u.id) 0 u.next)
  | atTask met waiting user previous start id => match s.look user met previous start id with
    | .ok t => .inl (on (id :: met) waiting user (.task id) (start + t.duration) t.next)
    | .error e => .inr (.error e)

/-- The answer of the loop, if it has one within so many turns. -/
def within (s : Solution) : Nat → Check → Option (Except ChainError Unit)
  | 0, _ => none
  | n + 1, c => match c.turn s with
    | .inl c' => c'.within s n
    | .inr answer => some answer

/-- What the loop comes to. -/
def answer (s : Solution) : Check → Except ChainError Unit
  | atUser met waiting => s.checkUsers waiting met >>= s.settle
  | atTask met waiting user previous start id =>
    s.checkFrom user met previous start (some id) >>= s.checkUsers waiting >>= s.settle

/-- A bound for the turns before the one that answers: the tasks not met and the chains to come. -/
def left (s : Solution) : Check → Nat
  | atUser met waiting | atTask met waiting _ _ _ _ =>
    (s.tasks.keys.filter fun x => x ∉ met).length + waiting.length

variable {s : Solution} {c c' : Check} {met : List TaskId} {waiting : List User} {user : UserId}
  {previous : Anchor} {start : Minutes} {id : TaskId}

/-! ## one turn -/

/-- Following a chain is looking at its next task and following the rest. -/
theorem checkFrom_some : s.checkFrom user met previous start (some id) =
    s.look user met previous start id >>= fun t =>
      s.checkFrom user (id :: met) (.task id) (start + t.duration) t.next := by
  rw [checkFrom, look]
  split
  · rfl
  · split
    · next hnone => simp only [hnone]; rfl
    · next t ht =>
      simp only [ht]
      split
      · rfl
      · split <;> rfl

/-- A task that is as it should be is there and has not been met. -/
theorem met_of_look {t : Task} (h : s.look user met previous start id = .ok t) :
    id ∉ met ∧ s.task? id = some t := by
  rw [look] at h
  split at h
  · cases h
  · next hmet =>
    split at h
    · cases h
    · next ht =>
      split at h
      · cases h
      · split at h
        · cases h
        · cases h
          exact ⟨hmet, ht⟩

/-- Going on to the next task of a chain, or to the next chain, is following what is left. -/
theorem answer_on (cursor : Option TaskId) : (on met waiting user previous start cursor).answer s =
    s.checkFrom user met previous start cursor >>= s.checkUsers waiting >>= s.settle := by
  cases cursor with
  | none =>
    rw [checkFrom]
    rfl
  | some id => rfl

/-- What is left after going on: the tasks not met and the chains to come. -/
theorem left_on (cursor : Option TaskId) : (on met waiting user previous start cursor).left s =
    (s.tasks.keys.filter fun x => x ∉ met).length + waiting.length := by
  cases cursor <;> rfl

/-- A turn that goes on leaves what the loop comes to as it is, and one that answers gives it. -/
theorem answer_turn (s : Solution) (c : Check) :
    c.answer s = match c.turn s with
      | .inl c' => c'.answer s
      | .inr answer => answer := by
  cases c with
  | atUser met waiting =>
    cases waiting with
    | nil => rfl
    | cons u us =>
      show _ = (on met us u.id (.user u.id) 0 u.next).answer s
      rw [answer_on, answer, checkUsers, List.foldlM_cons]
      rfl
  | atTask met waiting user previous start id =>
    rw [answer, turn, checkFrom_some]
    cases s.look user met previous start id with
    | error e => rfl
    | ok t => exact (answer_on t.next).symm

/-- A turn that goes on has met a task or taken up a chain. -/
theorem left_turn (h : c.turn s = .inl c') : c'.left s < c.left s := by
  cases c with
  | atUser met waiting =>
    cases waiting with
    | nil => cases h
    | cons u us =>
      cases h
      rw [left_on, left, List.length_cons]
      omega
  | atTask met waiting user previous start id =>
    rw [turn] at h
    cases hlook : s.look user met previous start id with
    | error e => simp [hlook] at h
    | ok t =>
      obtain ⟨hmet, ht⟩ := met_of_look hlook
      have hfewer := length_filter_unseen_lt (KeyedList.mem_keys_of_get? ht) hmet
      simp only [hlook, Sum.inl.injEq] at h
      rw [← h, left_on, left]
      omega

/-! ## the whole loop -/

/-- With more turns than are left the loop has its answer. -/
theorem within_of_left_lt {n : Nat} (h : c.left s < n) : c.within s n = some (c.answer s) := by
  induction n generalizing c with
  | zero => omega
  | succ n ih =>
    rw [within, answer_turn]
    cases hturn : c.turn s with
    | inl c' =>
      have hless := left_turn hturn
      exact ih (by omega)
    | inr answer => rfl

end Check

/-- The check ends on any links within one turn more than there are tasks and workers, with the
answer of `validate`. -/
theorem within_eq_validate (s : Solution) :
    (Check.atUser [] s.users.values).within s (s.tasks.size + s.users.size + 1) =
      some s.validate := by
  have hleft : (Check.atUser [] s.users.values).left s < s.tasks.size + s.users.size + 1 := by
    have htasks := s.tasks.keys.length_filter_le fun x => x ∉ []
    rw [KeyedList.length_keys] at htasks
    have husers : s.users.values.length = s.users.size := List.length_map _
    rw [Check.left]
    omega
  rw [Check.within_of_left_lt hleft]
  rfl

end ChainPlanner.Solution
