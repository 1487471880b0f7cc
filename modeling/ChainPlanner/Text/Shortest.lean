import ChainPlanner.Double
import ChainPlanner.Text.Decimal

/-!
# ChainPlanner.Text.Shortest

The fewest decimal digits that name a double: of all numbers that round to it, those with the
fewest digits, and of them the nearest, half way the one with an even last digit.  The search
goes through the grids of 1, 2, … 17 digits and compares exactly, in multiples of a step so small
that every grid and every bound is a natural number.
-/

namespace ChainPlanner.Text

/-- Digits and the place of the point: the value is `0.d₁d₂… * 10 ^ point`. -/
structure PointedDigits where
  digits : List Char
  point : Int
  deriving DecidableEq

namespace Shortest

/-- Steps in a quarter of a unit: the finest grid is that of `10⁻³⁴¹`. -/
def fine : Nat := Nat.pow 10 341

/-- The numbers that round to a double, in steps. -/
structure Span where
  lower : Nat
  value : Nat
  upper : Nat
  /-- Whether the bounds belong to it. -/
  closed : Bool

/-- The numbers that round to the magnitude of a double.  They reach half way to the neighbours,
and the neighbour below a power of two is half as far away. -/
def span (d : Double) : Span :=
  let value := d.significand <<< (d.exponent + 2)
  let above := 2 <<< d.exponent
  let below :=
    if d.significand = 4503599627370496 && d.exponent != 0 then 1 <<< d.exponent else above
  ⟨(value - below) * fine, value * fine, (value + above) * fine, d.significand % 2 = 0⟩

/-- Whether a number of steps rounds to the double. -/
def Span.contains (s : Span) (n : Nat) : Bool :=
  if s.closed then s.lower ≤ n && n ≤ s.upper else s.lower < n && n < s.upper

/-- The place of the point in the decimal form. -/
def Span.point (s : Span) : Int := (Decimal.digits (s.value >>> 1076)).length - 341

/-- The number of `count` digits that is nearest among those that round to the double. -/
def Span.nearest? (s : Span) (count : Nat) : Option Nat :=
  let grid := Nat.pow 10 (s.point - count + 341).toNat <<< 1076
  let n := s.value / grid
  match s.contains (n * grid), s.contains ((n + 1) * grid) with
  | true, true => some (roundHalfEven s.value grid)
  | true, false => some n
  | false, true => some (n + 1)
  | false, false => none

/-- A number of `count` digits, or one more after a carry, without zeros at its end. -/
def pointed (point : Int) (count n : Nat) : PointedDigits :=
  let ds := Decimal.digits n
  ⟨(ds.reverse.dropWhile (· = '0')).reverse, point + (ds.length - count)⟩

end Shortest

open Shortest

/-- The fewest digits that name the magnitude of a double; no digits for zero. -/
def shortest (d : Double) : PointedDigits :=
  let s := span d
  let found := (List.range 17).findSome? fun i =>
    (s.nearest? (i + 1)).map fun n => pointed s.point (i + 1) n
  found.getD ⟨[], 0⟩

end ChainPlanner.Text
