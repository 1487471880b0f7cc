/-!
# ChainPlanner.Text.Decimal

Whole numbers in decimal.  `digits` writes a natural number without leading zeros; `read?` reads
any run of digits, leading zeros included, and gives back what was written (`read?_digits`).  A
sign in front is read by `readSigned?` and `readUnsigned?`, which differ in whether a minus is
allowed.
-/

namespace ChainPlanner.Text.Decimal

/-- The value of one of the digits 0 to 9. -/
def digitValue? (c : Char) : Option Nat :=
  if c.isDigit then some (c.toNat - '0'.toNat) else none

/-- The digits of a natural number, most significant first. -/
def digits (n : Nat) : List Char := Nat.toDigits 10 n

/-- The number that a run of digits adds to those before it. -/
def readFrom? (acc : Nat) : List Char → Option Nat
  | [] => some acc
  | c :: cs => (digitValue? c).bind fun d => readFrom? (10 * acc + d) cs

/-- The number that a run of one or more digits stands for. -/
def read? : List Char → Option Nat
  | [] => none
  | c :: cs => readFrom? 0 (c :: cs)

/-- A number with at most one sign in front. -/
def readSigned? : List Char → Option Int
  | '-' :: cs => (read? cs).map fun n => -n
  | '+' :: cs => (read? cs).map fun n => n
  | cs => (read? cs).map fun n => n

/-- A number with at most one plus in front. -/
def readUnsigned? : List Char → Option Nat
  | '+' :: cs => read? cs
  | cs => read? cs

/-! ## reading what was written -/

/-- The value of a digit is read back. -/
theorem digitValue?_digitChar {d : Nat} (h : d < 10) : digitValue? (Nat.digitChar d) = some d := by
  have : ∀ d < 10, digitValue? (Nat.digitChar d) = some d := by decide
  exact this d h

/-- Digits are read from left to right, so the parts of a text can be read in turn. -/
theorem readFrom?_append (acc : Nat) (cs ds : List Char) :
    readFrom? acc (cs ++ ds) = (readFrom? acc cs).bind fun n => readFrom? n ds := by
  induction cs generalizing acc with
  | nil => rfl
  | cons c cs ih =>
    cases h : digitValue? c with
    | none => simp [readFrom?, h]
    | some d => simp [readFrom?, h, ih]

/-- A number below ten is one digit. -/
theorem digits_of_lt {n : Nat} (h : n < 10) : digits n = [Nat.digitChar n] :=
  Nat.toDigits_of_lt_base h

/-- The last digit of a longer number stands behind the others. -/
theorem digits_of_ten_le {n : Nat} (h : 10 ≤ n) :
    digits n = digits (n / 10) ++ [Nat.digitChar (n % 10)] := by
  have hlt : n % 10 < 10 := Nat.mod_lt n (by decide)
  have := Nat.toDigits_append_toDigits (b := 10) (n := n / 10) (d := n % 10) (by decide)
    (by omega) hlt
  rw [Nat.div_add_mod, Nat.toDigits_of_lt_base hlt] at this
  exact this.symm

/-- A number is read back from its digits. -/
theorem readFrom?_digits (n : Nat) : readFrom? 0 (digits n) = some n := by
  induction n using Nat.strongRecOn with
  | _ n ih =>
    by_cases h : n < 10
    · simp [digits_of_lt h, readFrom?, digitValue?_digitChar h]
    · have hlt : n % 10 < 10 := Nat.mod_lt n (by decide)
      rw [digits_of_ten_le (by omega), readFrom?_append, ih (n / 10) (by omega)]
      simp only [Option.bind_some, readFrom?, digitValue?_digitChar hlt]
      congr 1
      omega

/-- Every number has a digit. -/
theorem digits_ne_nil (n : Nat) : digits n ≠ [] := by
  intro h
  have := readFrom?_digits n
  rw [h] at this
  simp only [readFrom?, Option.some.injEq] at this
  subst this
  exact absurd h (by decide)

/-- Reading gives back the number that was written. -/
theorem read?_digits (n : Nat) : read? (digits n) = some n := by
  cases h : digits n with
  | nil => exact absurd h (digits_ne_nil n)
  | cons c cs => rw [read?, ← h, readFrom?_digits]

end ChainPlanner.Text.Decimal
