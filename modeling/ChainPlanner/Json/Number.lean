import ChainPlanner.Text.Decimal

/-!
# ChainPlanner.Json.Number

Number literals as JSON spells them.  A literal names a whole number only if it has neither a
fraction nor an exponent; minus zero counts as a real number because the whole numbers have no
such value.  `isFinite` tells which literals round to a finite double.
-/

namespace ChainPlanner.Json

open ChainPlanner.Text

/-- The parts of a number literal. -/
structure NumberLit where
  negative : Bool
  whole : Nat
  /-- The digits after the point; none if there is no point. -/
  fraction : List Char
  exponent : Option Int
  deriving DecidableEq, Inhabited

namespace NumberLit

/-- The literal of a whole number. -/
def ofInt (n : Int) : NumberLit := ⟨n < 0, n.natAbs, [], none⟩

/-- The whole number that the literal names, if it names one. -/
def int? (l : NumberLit) : Option Int :=
  if l.fraction.isEmpty && l.exponent.isNone && !(l.negative && l.whole == 0) then
    some (if l.negative then -l.whole else l.whole)
  else none

/-- The smallest number that rounds past every finite double: the 1024th power of two less the
970th. -/
def overflow : Nat := (1 <<< 1024) - (1 <<< 970)

/-- All digits as one natural number; the value is this times ten to the power `scale`. -/
def mantissa (l : NumberLit) : Nat := (Decimal.readFrom? l.whole l.fraction).getD l.whole

/-- The power of ten of the last digit. -/
def scale (l : NumberLit) : Int := l.exponent.getD 0 - l.fraction.length

/-- Whether the value rounds to a finite double.  Values far from the limit are settled by their
number of digits. -/
def isFinite (l : NumberLit) : Bool :=
  let m := l.mantissa
  let width : Int := (Decimal.digits m).length
  if m = 0 then true
  else if width + l.scale ≤ 308 then true
  else if width + l.scale > 310 then false
  else if 0 ≤ l.scale then m * Nat.pow 10 l.scale.toNat < overflow
  else m < overflow * Nat.pow 10 (-l.scale).toNat

/-- The characters of an exponent. -/
def renderExponent : Option Int → List Char
  | none => []
  | some e => 'e' :: (if e < 0 then '-' :: Decimal.digits e.natAbs else Decimal.digits e.natAbs)

/-- The characters of a fraction. -/
def renderFraction : List Char → List Char
  | [] => []
  | ds => '.' :: ds

/-- The characters of a literal. -/
def render (l : NumberLit) : List Char :=
  (if l.negative then ['-'] else []) ++ Decimal.digits l.whole ++ renderFraction l.fraction ++
    renderExponent l.exponent

/-- A whole number is read back from its literal. -/
theorem int?_ofInt (n : Int) : (ofInt n).int? = some n := by
  cases n with
  | ofNat k => rfl
  | negSucc k =>
    have hn : decide (Int.negSucc k < 0) = true := decide_eq_true (Int.negSucc_lt_zero k)
    have hk : (k + 1 == 0) = false := rfl
    simp only [int?, ofInt, hn, Int.natAbs_negSucc, Nat.succ_eq_add_one, hk]
    rfl

end NumberLit

end ChainPlanner.Json
