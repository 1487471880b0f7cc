/-!
# ChainPlanner.Text.Duration

Lengths of time for people: in the largest unit that gives at least one, with as many decimal
places as the value needs.  Lengths here are whole milliseconds; nothing at all is `0ns`.
-/

namespace ChainPlanner.Text

/-- The places of a thousandth part, without zeros at the end. -/
def thousandths (n : Nat) : List Char :=
  let places := [n / 100 % 10, n / 10 % 10, n % 10]
  (places.reverse.dropWhile (· = 0)).reverse.map Nat.digitChar

/-- A number of milliseconds in words. -/
def durationText (milliseconds : Nat) : String :=
  if milliseconds = 0 then "0ns"
  else if milliseconds < 1000 then s!"{milliseconds}ms"
  else match thousandths (milliseconds % 1000) with
    | [] => s!"{milliseconds / 1000}s"
    | places => s!"{milliseconds / 1000}.{String.ofList places}s"

end ChainPlanner.Text
