import ChainPlanner.Minutes

/-!
# ChainPlanner.Priority

How urgent a task is: 0 is the most urgent and 10 the least.  `Priority.ofInt?` refuses every
other number.
-/

namespace ChainPlanner

/-- A number from 0, the most urgent, to 10. -/
structure Priority where
  value : Nat
  le_ten : value ≤ 10 := by omega
  deriving DecidableEq

/-- A number that is no priority. -/
structure PriorityError where
  value : Int
  deriving DecidableEq

/-- What is wrong, in words. -/
def PriorityError.message (e : PriorityError) : String :=
  s!"task priority {e.value} is out of range, a value between 0 and 10 was expected"

namespace Priority

/-- The least urgent, for filler work. -/
def lowest : Priority := { value := 10 }

instance : Inhabited Priority := ⟨lowest⟩

/-- The priority of a number, if it is one. -/
def ofInt? (n : Int) : Except PriorityError Priority :=
  if h : 0 ≤ n ∧ n ≤ 10 then .ok { value := n.toNat } else .error ⟨n⟩

/-- Up to 2. -/
def isHigh (p : Priority) : Bool := p.value ≤ 2

/-- From 3 to 6. -/
def isMedium (p : Priority) : Bool := 3 ≤ p.value && p.value ≤ 6

/-- From 7. -/
def isLow (p : Priority) : Bool := 7 ≤ p.value

/-- The number in decimal. -/
def text (p : Priority) : String := toString p.value

/-- What it costs to finish at a given time: an urgent task weighs more. -/
def penalty (p : Priority) (finish : Minutes) : Int := -((11 - p.value) * finish.toNat)

/-- The number of a priority is within the limits and gives it back. -/
theorem ofInt?_value (p : Priority) : ofInt? p.value = .ok p := by
  have := p.le_ten
  rw [ofInt?, dif_pos (by omega)]
  rfl

/-- A priority comes from its own number only. -/
theorem ofInt?_eq_ok_iff {n : Int} {p : Priority} : ofInt? n = .ok p ↔ n = p.value := by
  constructor
  · intro h
    unfold ofInt? at h
    split at h
    · cases h; simp only; omega
    · cases h
  · rintro rfl; exact ofInt?_value p

end Priority

end ChainPlanner
