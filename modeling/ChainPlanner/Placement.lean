import ChainPlanner.Solution.Links

/-!
# ChainPlanner.Placement

List scheduling: the tasks in no chain, the most urgent first and among those by number, each go
to the end of a chain.  A task goes to an eligible worker other than the fallback user — to one
named as its owner if there is one, then to the one that is free first, then to the one stored
first — or else to the fallback user.
-/

namespace ChainPlanner

/-- The first item that no other one comes before. -/
def firstLeast? {α : Type} (before : α → α → Bool) : List α → Option α
  | [] => none
  | a :: as => match firstLeast? before as with
    | none => some a
    | some b => if before b a then some b else some a

namespace Solution

/-- Whether task `a` is placed no later than task `b`. -/
def placedBefore (a b : Task) : Bool :=
  a.priority.value < b.priority.value ||
    (a.priority.value == b.priority.value && (compare a.id b.id).isLE)

/-- Whether worker `a` suits a task better than worker `b`. -/
def suitsBetter (s : Solution) (t : Task) (a b : User) : Bool :=
  match t.hasDirectOwner a.id, t.hasDirectOwner b.id with
  | true, false => true
  | false, true => false
  | _, _ => (s.chainEndTime a.id).toNat < (s.chainEndTime b.id).toNat

/-- The worker that a task in no chain goes to. -/
def pickUser? (s : Solution) (id : TaskId) : Option UserId := do
  let t ← s.task? id
  let best := firstLeast? (s.suitsBetter t) ((s.eligibleUsers t).filter fun u => !u.isFallback)
  let user ← best <|> s.fallbackUser?
  some user.id

/-- Put a task in no chain at the end of the chain it goes to, if it can go anywhere. -/
def place? (s : Solution) (id : TaskId) : Option Solution := do
  let user ← s.pickUser? id
  (s.linkAfter (s.chainTail user) id).toOption

/-- The tasks in no chain in the order in which they are placed. -/
def pending (s : Solution) : List TaskId :=
  (s.unassigned.mergeSort placedBefore).map (·.id)

/-- Place tasks one after another, and count those that found a place. -/
def placeEach (s : Solution) : List TaskId → Solution × Nat
  | [] => (s, 0)
  | id :: ids => match s.place? id with
    | none => s.placeEach ids
    | some s' =>
      let (s'', placed) := s'.placeEach ids
      (s'', placed + 1)

/-- Place every task in no chain, and count those that found a place. -/
def placeUnassigned (s : Solution) : Solution × Nat := s.placeEach s.pending

end Solution

end ChainPlanner
