import ChainPlanner.Double
import ChainPlanner.Json.Number
import ChainPlanner.Text.Shortest

/-!
# ChainPlanner.Json.Real

Number literals and doubles.  `NumberLit.double?` reads a literal in the usual two steps: the
leading digits that fit into 64 bits make a whole number, and a power of ten moves the point.
Both steps round, so the result may miss the nearest double by a little, and a number that was
written and read again may have changed.  `NumberLit.ofDouble` writes the fewest digits that name
a double.
-/

namespace ChainPlanner.Json.NumberLit

open ChainPlanner.Text

/-- Add digits to a number as long as it fits into 64 bits; with it, how many are left over. -/
def takeDigits (n : Nat) : List Char → Nat × Nat
  | [] => (n, 0)
  | c :: cs =>
    let next := 10 * n + (Decimal.digitValue? c).getD 0
    if next ≤ 18446744073709551615 then takeDigits next cs else (n, cs.length + 1)

/-- The whole number that the leading digits make, and the power of ten that goes with it.  A
digit left over before the point still counts as a place, one after the point does not. -/
def leading (l : NumberLit) : Nat × Int :=
  let (n, places) := takeDigits 0 (Decimal.digits l.whole)
  let (n, unused) := takeDigits n l.fraction
  (n, places - (l.fraction.length - unused : Nat))

/-- The double at a literal; none if it is too large. -/
def double? (l : NumberLit) : Option Double := do
  let (n, scale) := l.leading
  let d ← Double.ofNat? l.negative n
  d.scale? (scale + l.exponent.getD 0)

/-- The number that the first digits make. -/
def wholeOf (ds : List Char) : Nat := (Decimal.read? ds).getD 0

/-- Digits as a literal that shows a real number: with an exponent where the point would stand
more than 16 places after or 4 places before the first digit, and otherwise with at least one
digit after the point. -/
def ofPointed (negative : Bool) (p : PointedDigits) : NumberLit :=
  if 0 < p.point && p.point ≤ 16 then
    let place := p.point.toNat
    let padded := p.digits ++ List.replicate (place + 1 - p.digits.length) '0'
    ⟨negative, wholeOf (padded.take place), padded.drop place, none⟩
  else if -5 < p.point && p.point ≤ 0 then
    ⟨negative, 0, List.replicate (-p.point).toNat '0' ++ p.digits, none⟩
  else ⟨negative, wholeOf (p.digits.take 1), p.digits.drop 1, some (p.point - 1)⟩

/-- The literal of a double. -/
def ofDouble (d : Double) : NumberLit :=
  if d.significand = 0 then ⟨d.negative, 0, ['0'], none⟩ else ofPointed d.negative (shortest d)

end ChainPlanner.Json.NumberLit
