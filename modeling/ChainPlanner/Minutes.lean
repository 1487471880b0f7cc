/-!
# ChainPlanner.Minutes

Durations and points in time, in whole minutes up to `2 ^ 32 - 1`.  Addition stops at that limit
instead of wrapping round: `toNat_add` is its law in natural numbers.
-/

namespace ChainPlanner

/-- A number of minutes, below `2 ^ 32`. -/
structure Minutes where
  val : UInt32
  deriving DecidableEq, Inhabited

namespace Minutes

/-- The number itself. -/
def toNat (m : Minutes) : Nat := m.val.toNat

/-- The longest time there is. -/
def max : Nat := 4294967295

/-- The nearest time to a natural number. -/
def ofNat (n : Nat) : Minutes := ⟨.ofNat (min n max)⟩

/-- No time at all. -/
def zero : Minutes := ⟨0⟩

instance : Zero Minutes := ⟨zero⟩

/-- The sum, or the longest time where the sum is longer. -/
def add (a b : Minutes) : Minutes := ofNat (a.toNat + b.toNat)

instance : Add Minutes := ⟨add⟩

/-- Minutes never exceed the largest value. -/
theorem toNat_le_max (m : Minutes) : m.toNat ≤ max := by
  have := m.val.toNat_lt
  simp only [toNat, max]
  omega

/-- Minutes saturate at the largest value. -/
theorem toNat_ofNat (n : Nat) : (ofNat n).toNat = min n max := by
  have h : min n max < 2 ^ 32 := by simp only [max]; omega
  have : (ofNat n).toNat = min n max % 2 ^ 32 := UInt32.toNat_ofNat'
  rw [this, Nat.mod_eq_of_lt h]

/-- Addition in natural numbers, cut off at the limit. -/
theorem toNat_add (a b : Minutes) : (a + b).toNat = min (a.toNat + b.toNat) max :=
  toNat_ofNat _

/-- Minutes are known from their number. -/
theorem ext_toNat {a b : Minutes} (h : a.toNat = b.toNat) : a = b := by
  cases a; cases b
  exact congrArg mk (UInt32.toNat_inj.1 h)

/-- The number of some minutes gives them back. -/
theorem ofNat_toNat (m : Minutes) : ofNat m.toNat = m := by
  apply ext_toNat
  rw [toNat_ofNat, Nat.min_eq_left m.toNat_le_max]

/-- Cutting off a sum part way makes no difference to where the whole is cut off. -/
theorem ofNat_toNat_ofNat_add (a b : Nat) : ofNat ((ofNat a).toNat + b) = ofNat (a + b) := by
  apply ext_toNat
  simp only [toNat_ofNat]
  omega

end Minutes

end ChainPlanner
