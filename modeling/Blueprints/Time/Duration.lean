/-! # Durations

    The text of a span of time: in the largest unit of which it holds at
    least one, with as many fraction digits as it takes. -/

namespace Blueprints.Time

/-- The digits of a fraction of a number of places, without zeros at the
    end. -/
def fractionDigits (places value : Nat) : List Char :=
  let digits := (Nat.repr value).toList
  let padded := List.replicate (places - digits.length) '0' ++ digits
  (padded.reverse.dropWhile (· == '0')).reverse

/-- A count of a unit of `10 ^ places` nanoseconds. -/
def inUnit (nanos places : Nat) (unit : String) : String :=
  let digits := fractionDigits places (nanos % Nat.pow 10 places)
  let fraction := if digits.isEmpty then "" else "." ++ String.ofList digits
  Nat.repr (nanos / Nat.pow 10 places) ++ fraction ++ unit

/-- The text of a number of nanoseconds. -/
def durationText (nanos : Nat) : String :=
  if Nat.pow 10 9 ≤ nanos then inUnit nanos 9 "s"
  else if Nat.pow 10 6 ≤ nanos then inUnit nanos 6 "ms"
  else if Nat.pow 10 3 ≤ nanos then inUnit nanos 3 "µs"
  else inUnit nanos 0 "ns"

end Blueprints.Time
