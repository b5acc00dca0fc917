import Blueprints.Decimal.Double

/-! # Shortest decimals — the fewest digits that determine a value

    Every finite value is the nearest one to all numbers of an interval
    around it.  Its shortest decimal is the one with the fewest digits in
    that interval, and the nearest to the value among those.  Digit counts
    are tried from one upwards; on the grid of decimals with a given count
    only the two neighbours of the value have to be tested. -/

namespace Blueprints

/-- A decimal `digits · 10 ^ exponent`. -/
structure Decimal where
  digits : Nat
  exponent : Int
  deriving DecidableEq, Repr

namespace Double

/-- The interval of numbers nearest to a magnitude, over a common
    denominator. -/
structure Neighbourhood where
  low : Nat
  value : Nat
  high : Nat
  denominator : Nat
  /-- Whether the two ends still round to the value. -/
  closed : Bool

/-- The interval around a magnitude.  A power of two has its lower
    neighbour at half the distance. -/
def neighbourhood (d : Double) : Neighbourhood :=
  let m := d.significand
  let unit : Nat × Nat :=
    if 0 ≤ d.exponent - 2 then (Nat.pow 2 (d.exponent - 2).toNat, 1)
    else (1, Nat.pow 2 (2 - d.exponent).toNat)
  let below := if m = Nat.pow 2 52 ∧ 1 < d.code / Nat.pow 2 52 then 1 else 2
  { low := (4 * m - below) * unit.1
    value := 4 * m * unit.1
    high := (4 * m + 2) * unit.1
    denominator := unit.2
    closed := m % 2 = 0 }

/-- The number of decimal digits of a number; none for zero. -/
def digitCount (n : Nat) : Nat :=
  if n = 0 then 0 else (Nat.toDigits 10 n).length

/-- The largest `k` with `10 ^ k ≤ num / den`. -/
def decimalOrder (num den : Nat) : Int :=
  if den ≤ num then (digitCount (num / den) : Int) - 1
  else -(digitCount ((den - 1) / num) : Int)

/-- The decimal with `count` digits nearest to the value, if one lies in
    the neighbourhood; a tie goes to the even digit. -/
def nearestDecimal? (b : Neighbourhood) (count : Nat) : Option Decimal :=
  let grid : Int := decimalOrder b.value b.denominator - count + 1
  let times := if 0 ≤ grid then 1 else Nat.pow 10 (-grid).toNat
  let step := if 0 ≤ grid then b.denominator * Nat.pow 10 grid.toNat else b.denominator
  let low := b.low * times
  let value := b.value * times
  let high := b.high * times
  let inside (c : Nat) : Bool :=
    if b.closed then low ≤ c * step && c * step ≤ high
    else low < c * step && c * step < high
  let down := value / step
  let up := down + 1
  match inside down, inside up with
  | false, false => none
  | true, false => some ⟨down, grid⟩
  | false, true => some ⟨up, grid⟩
  | true, true =>
    let toDown := value - down * step
    let toUp := up * step - value
    if toDown < toUp ∨ (toDown = toUp ∧ down % 2 = 0) then some ⟨down, grid⟩
    else some ⟨up, grid⟩

/-- The same decimal without zeros at the end of its digits. -/
def stripZeros (digits : Nat) (exponent : Int) : Decimal :=
  if h : 0 < digits ∧ digits % 10 = 0 then stripZeros (digits / 10) (exponent + 1)
  else ⟨digits, exponent⟩
termination_by digits
decreasing_by omega

/-- The shortest decimal that determines a magnitude. -/
def shortest (d : Double) : Decimal :=
  if d.isZero then ⟨0, 0⟩
  else
    let b := d.neighbourhood
    match (List.range 17).findSome? fun n => nearestDecimal? b (n + 1) with
    | none => ⟨0, 0⟩
    | some x => stripZeros x.digits x.exponent

end Double

end Blueprints
