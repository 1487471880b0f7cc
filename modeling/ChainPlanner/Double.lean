/-!
# ChainPlanner.Double

Finite doubles: a sign, and a significand of at most 53 binary digits times a power of two.  Every
double is a multiple of `2⁻¹⁰⁷⁴`, its *unit*, so arithmetic is exact on natural numbers and is
rounded once at the end (`round?`), to the nearest double and half way to the even one.  The only
way for it to fail is a result too large to be finite.
-/

namespace ChainPlanner

/-! ## rounding -/

/-- A quotient rounded to the nearest natural number, half way to the even one. -/
def roundHalfEven (num den : Nat) : Nat :=
  if den < 2 * (num % den) || (2 * (num % den) = den && num / den % 2 = 1) then num / den + 1
  else num / den

/-- Rounding does not go below the whole part. -/
theorem div_le_roundHalfEven (num den : Nat) : num / den ≤ roundHalfEven num den := by
  unfold roundHalfEven
  split <;> omega

/-- Rounding goes at most one above the whole part. -/
theorem roundHalfEven_le (num den : Nat) : roundHalfEven num den ≤ num / den + 1 := by
  unfold roundHalfEven
  split <;> omega

/-- Cut off all but the leading 53 binary digits, and 53 are left at most. -/
theorem shiftRight_log2_lt (n : Nat) : n >>> (n.log2 - 52) < 9007199254740992 := by
  rw [Nat.shiftRight_eq_div_pow, Nat.div_lt_iff_lt_mul (Nat.two_pow_pos _)]
  calc n < 2 ^ (n.log2 + 1) := Nat.lt_log2_self
    _ ≤ 2 ^ (53 + (n.log2 - 52)) := Nat.pow_le_pow_right (by decide) (by omega)
    _ = 9007199254740992 * 2 ^ (n.log2 - 52) := by rw [Nat.pow_add]

/-- Cut off all but the leading 53 binary digits, and 53 are left if any was cut off. -/
theorem le_shiftRight_log2 {n : Nat} (h : n.log2 - 52 ≠ 0) :
    4503599627370496 ≤ n >>> (n.log2 - 52) := by
  have hn : n ≠ 0 := by
    rintro rfl
    exact h rfl
  rw [Nat.shiftRight_eq_div_pow, Nat.le_div_iff_mul_le (Nat.two_pow_pos _)]
  calc 4503599627370496 * 2 ^ (n.log2 - 52) = 2 ^ (52 + (n.log2 - 52)) := by rw [Nat.pow_add]
    _ = 2 ^ n.log2 := by rw [show 52 + (n.log2 - 52) = n.log2 by omega]
    _ ≤ n := Nat.log2_self_le hn

/-- Dividing by a shifted number drops the low bits of the quotient. -/
theorem div_shiftLeft (num den k : Nat) : num / den <<< k = (num / den) >>> k := by
  rw [Nat.shiftLeft_eq, Nat.shiftRight_eq_div_pow, Nat.div_div_eq_div_mul]

/-! ## doubles -/

/-- A finite double of `significand <<< exponent` units.  The exponent is the least that leaves
room for the significand, so each value has one form (zero has one for each sign). -/
structure Double where
  negative : Bool
  significand : Nat
  exponent : Nat
  significand_lt : significand < 9007199254740992
  exponent_le : exponent ≤ 2045
  normal : exponent = 0 ∨ 4503599627370496 ≤ significand
  deriving DecidableEq

namespace Double

/-- The magnitude in units. -/
def units (d : Double) : Nat := d.significand <<< d.exponent

/-- The power of two that a magnitude is rounded to. -/
def step (num den : Nat) : Nat := (num / den).log2 - 52

/-- The double nearest to a magnitude of `num / den` units; none if that is too large. -/
def round? (negative : Bool) (num den : Nat) : Option Double :=
  let e := step num den
  let s := roundHalfEven num (den <<< e)
  if hs : s < 9007199254740992 then
    if he : e ≤ 2045 then
      some ⟨negative, s, e, hs, he, by
        by_cases h0 : e = 0
        · exact .inl h0
        · refine .inr (Nat.le_trans (le_shiftRight_log2 h0) ?_)
          rw [← div_shiftLeft]
          exact div_le_roundHalfEven num _⟩
    else none
  else if he : e + 1 ≤ 2045 then
    some ⟨negative, 4503599627370496, e + 1, by decide, he, .inr (by decide)⟩
  else none

/-- A rounded significand has 53 binary digits, or is the least number with one more. -/
theorem roundHalfEven_step_le (num den : Nat) :
    roundHalfEven num (den <<< step num den) ≤ 9007199254740992 := by
  have h := roundHalfEven_le num (den <<< step num den)
  have hlt := shiftRight_log2_lt (num / den)
  rw [div_shiftLeft] at h
  simp only [step] at h ⊢
  omega

/-- The double nearest to a natural number. -/
def ofNat? (negative : Bool) (n : Nat) : Option Double := round? negative (n <<< 1074) 1

/-- The double nearest to a power of ten. -/
def powerOfTen? (k : Nat) : Option Double := ofNat? false (Nat.pow 10 k)

/-- A rounded product. -/
def mul? (a b : Double) : Option Double :=
  round? (a.negative != b.negative) (a.units * b.units) (1 <<< 1074)

/-- A rounded quotient. -/
def div? (a b : Double) : Option Double :=
  round? (a.negative != b.negative) (a.units <<< 1074) b.units

/-- Multiply by a power of ten.  No double but zero can be multiplied by one beyond 308. -/
def scaleUp? (d : Double) (k : Nat) : Option Double :=
  if k ≤ 308 then (powerOfTen? k).bind d.mul?
  else if d.significand = 0 then some d
  else none

/-- Divide by a power of ten, in steps of 308 and a rest, each of them rounded. -/
def scaleDown? (d : Double) (k : Nat) : Option Double :=
  if k ≤ 308 then (powerOfTen? k).bind d.div?
  else if d.significand = 0 then some d
  else do
    let p ← powerOfTen? 308
    let q ← d.div? p
    scaleDown? q (k - 308)
termination_by k

/-- Multiply by a power of ten, positive or negative. -/
def scale? (d : Double) (k : Int) : Option Double :=
  if 0 ≤ k then d.scaleUp? k.toNat else d.scaleDown? (-k).toNat

end Double

end ChainPlanner
