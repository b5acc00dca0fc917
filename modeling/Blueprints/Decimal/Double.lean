/-! # Binary floating point — finite values with 53 significant bits

    A value is held by sign and *code*: the codes of the non-negative finite
    values, counted up from zero, are exactly the numbers below
    `2047 · 2 ^ 52`.  All arithmetic is exact arithmetic on natural numbers
    followed by one rounding, to the nearest value and on a tie to the one
    with an even significand (`ofRatio`). -/

namespace Blueprints

/-- A finite binary floating point number of 64 bits. -/
structure Double where
  /-- The sign; zero has one too. -/
  negative : Bool
  /-- Position of the magnitude among all magnitudes, zero first. -/
  code : Nat
  finite : code < 2047 * Nat.pow 2 52
  deriving DecidableEq, Repr

namespace Double

/-- Zero with a sign. -/
def signedZero (negative : Bool) : Double := ⟨negative, 0, by decide⟩

/-- Zero with a positive sign. -/
def zero : Double := signedZero false

instance : Inhabited Double := ⟨zero⟩

/-- Whether the magnitude is zero. -/
def isZero (d : Double) : Bool := d.code == 0

/-- The same magnitude with the other sign. -/
def neg (d : Double) : Double := { d with negative := !d.negative }

/-- The integer `m` of the magnitude `m · 2 ^ exponent`. -/
def significand (d : Double) : Nat :=
  if d.code / Nat.pow 2 52 = 0 then d.code else Nat.pow 2 52 + d.code % Nat.pow 2 52

/-- The exponent of two in the magnitude. -/
def exponent (d : Double) : Int :=
  (max (d.code / Nat.pow 2 52) 1 : Nat) - 1075

/-- `n / d` to the nearest natural number, a half to the even one. -/
def roundDiv (n d : Nat) : Nat :=
  let q := n / d
  let r := n % d
  if d < 2 * r ∨ (2 * r = d ∧ q % 2 = 1) then q + 1 else q

/-- The ratio `num / den` counted in units of `2 ^ e`, as a new ratio. -/
def inUnits (num den : Nat) (e : Int) : Nat × Nat :=
  if 0 ≤ e then (num, den * Nat.pow 2 e.toNat) else (num * Nat.pow 2 (-e).toNat, den)

/-- The exponent of the last place of the value nearest to `num / den`: 53
    bits remain, fewer only at the lower end of the range. -/
def lastPlace (num den : Nat) : Int :=
  let e : Int := max (-1074) ((num.log2 : Int) - den.log2 - 53)
  let (n, d) := inUnits num den e
  if n / d < Nat.pow 2 53 then e else e + 1

/-- The value nearest to `num / den` with the given sign; none if it lies
    beyond the finite range. -/
def ofRatio (negative : Bool) (num den : Nat) : Option Double :=
  if num = 0 then some (signedZero negative)
  else
    let e := lastPlace num den
    let (n, d) := inUnits num den e
    let code := (e + 1074).toNat * Nat.pow 2 52 + roundDiv n d
    if h : code < 2047 * Nat.pow 2 52 then some ⟨negative, code, h⟩ else none

/-- The magnitude as a ratio of natural numbers. -/
def ratio (d : Double) : Nat × Nat :=
  if 0 ≤ d.exponent then (d.significand * Nat.pow 2 d.exponent.toNat, 1)
  else (d.significand, Nat.pow 2 (-d.exponent).toNat)

/-- The nearest value to a natural number in range, else zero. -/
def ofNat (n : Nat) : Double := (ofRatio false n 1).getD zero

/-- The nearest value to an integer in range, else zero. -/
def ofInt (i : Int) : Double :=
  (ofRatio (decide (i < 0)) i.natAbs 1).getD zero

/-- Rounded product; none beyond the finite range. -/
def mul? (a b : Double) : Option Double :=
  ofRatio (a.negative != b.negative)
    (a.ratio.1 * b.ratio.1) (a.ratio.2 * b.ratio.2)

/-- Rounded quotient; none beyond the finite range. -/
def div? (a b : Double) : Option Double :=
  ofRatio (a.negative != b.negative)
    (a.ratio.1 * b.ratio.2) (a.ratio.2 * b.ratio.1)

/-- The value nearest to a power of ten. -/
def tenPow (k : Nat) : Double := ofNat (Nat.pow 10 k)

/-- The largest power of ten in range. -/
def maxTenPow : Nat := 308

/-- Rounded quotient by the largest power of ten in range, `steps` times. -/
def lowerSteps : Nat → Double → Option Double
  | 0, d => some d
  | k + 1, d =>
    if d.isZero then some d
    else (d.div? (tenPow maxTenPow)).bind (lowerSteps k)

/-- `d · 10 ^ e` by factors within reach, each step rounded; none beyond the
    finite range. -/
def scaleTen (d : Double) (e : Int) : Option Double :=
  let n := e.natAbs
  if 0 ≤ e then
    if n ≤ maxTenPow then d.mul? (tenPow n)
    else if d.isZero then some d else none
  else
    let steps := (n - 1) / maxTenPow
    (lowerSteps steps d).bind (·.div? (tenPow (n - maxTenPow * steps)))

end Double

end Blueprints
