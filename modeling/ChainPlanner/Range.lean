/-!
# ChainPlanner.Range

Whole numbers as machine words.  A number outside the range of a word is refused, never wrapped.
-/

namespace ChainPlanner

/-- A number as a signed word of 64 bits. -/
def int64? (n : Int) : Option Int64 :=
  if -9223372036854775808 ≤ n ∧ n ≤ 9223372036854775807 then some (.ofInt n) else none

/-- A number as a signed word of 32 bits. -/
def int32? (n : Int) : Option Int32 :=
  if -2147483648 ≤ n ∧ n ≤ 2147483647 then some (.ofInt n) else none

/-- A number as an unsigned word of 32 bits. -/
def uint32? (n : Int) : Option UInt32 :=
  if 0 ≤ n ∧ n ≤ 4294967295 then some (.ofNat n.toNat) else none

/-- A number as an unsigned word of 64 bits. -/
def uint64? (n : Int) : Option UInt64 :=
  if 0 ≤ n ∧ n ≤ 18446744073709551615 then some (.ofNat n.toNat) else none

/-- The value of a number of 64 bits is within its range. -/
theorem int64?_toInt (x : Int64) : int64? x.toInt = some x := by
  have := x.le_toInt
  have := x.toInt_lt
  rw [int64?, if_pos (by omega), Int64.ofInt_toInt]

/-- The value of a number of 32 bits is within its range. -/
theorem int32?_toInt (x : Int32) : int32? x.toInt = some x := by
  have := x.le_toInt
  have := x.toInt_lt
  rw [int32?, if_pos (by omega), Int32.ofInt_toInt]

/-- The value of an unsigned number of 32 bits is within its range. -/
theorem uint32?_toNat (x : UInt32) : uint32? x.toNat = some x := by
  have := x.toNat_lt
  rw [uint32?, if_pos (by omega)]
  simp

end ChainPlanner
