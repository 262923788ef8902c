import ObjectGraph.Number.Binary64
import ObjectGraph.Number.Digits

/-!
# The shortest decimal of a binary number

A positive finite binary number is the nearest one to every real number of an interval around it,
the ends included exactly when its significand is even. Of the decimals in that interval, the
shortest ones have the fewest digits, and of those the nearest to the number is taken. Two may be
equally near; then the format that writes the digits decides (`Tie`).

The search tries one digit, two digits, and so on to seventeen. With a fixed number of digits the
decimals of the right size form a grid, and if a point of the grid lies in the interval then so does
one of the two grid points beside the number; so only those two are tried.
-/

set_option autoImplicit false

namespace ObjectGraph

/-- A decimal `digits · 10 ^ exponent`. -/
structure Decimal where
  digits : Nat
  exponent : Int
deriving DecidableEq, Repr

/-- Which of two equally near decimals is taken. -/
inductive Tie where
  /-- The one further from zero. -/
  | away
  /-- The one with an even last digit. -/
  | toEven
deriving DecidableEq, Repr

namespace Decimal

/-- Ten to an integer power, as numerator and denominator. -/
def tenPower (e : Int) : Nat × Nat := (Nat.pow 10 e.toNat, Nat.pow 10 (-e).toNat)

/-- The same decimal without zeros at the end of its digits; `fuel` bounds how many are dropped. -/
def dropZeros (fuel : Nat) (d : Decimal) : Decimal :=
  match fuel with
  | 0 => d
  | fuel + 1 =>
    if d.digits ≠ 0 ∧ d.digits % 10 = 0 then dropZeros fuel ⟨d.digits / 10, d.exponent + 1⟩ else d

/-- The interval of reals that round to a positive number, in quarters of 2^-1074: its lower end, the
number itself, its upper end, and whether the ends belong to it. The gap below a power of two is half
the gap above it. -/
structure Interval where
  low : Nat
  value : Nat
  high : Nat
  closed : Bool

/-- The reals that round to `x`. -/
def interval (x : Binary64) : Interval where
  low := 4 * x.units - (if x.significand = 1 <<< 52 ∧ x.shift ≠ 0 then 1 else 2) <<< x.shift
  value := 4 * x.units
  high := 4 * x.units + 2 <<< x.shift
  closed := x.significand % 2 == 0

/-- Whether the ratio `num / den`, in quarters of 2^-1074, lies in the interval. -/
def Interval.admits (i : Interval) (num den : Nat) : Bool :=
  if i.closed then i.low * den ≤ num && num ≤ i.high * den
  else i.low * den < num && num < i.high * den

/-- The grid point of step `10 ^ e` that is in the interval and nearest to its number, if any. -/
def gridPoint? (tie : Tie) (i : Interval) (e : Int) : Option Decimal :=
  let (num, den) := tenPower e
  -- a step of the grid is `num · 2 ^ 1076 / den` quarters
  let step := num <<< 1076
  let below := i.value * den / step
  let above := below + 1
  let distBelow := i.value * den - below * step
  let distAbove := above * step - i.value * den
  let belowIn := below ≠ 0 && i.admits (below * step) den
  let aboveIn := i.admits (above * step) den
  let takeBelow := Decimal.mk below e
  let takeAbove := Decimal.mk above e
  match belowIn, aboveIn with
  | false, false => none
  | true, false => some takeBelow
  | false, true => some takeAbove
  | true, true =>
    if distBelow < distAbove then some takeBelow
    else if distAbove < distBelow then some takeAbove
    else match tie with
      | .away => some takeAbove
      | .toEven => if below % 2 = 0 then some takeBelow else some takeAbove

/-- The first grid with a point in the interval, from `10 ^ top` downwards. -/
def firstPoint? (tie : Tie) (i : Interval) (top : Int) : Nat → Option Decimal
  | 0 => none
  | count + 1 => (gridPoint? tie i top).or (firstPoint? tie i (top - 1) count)

/-- How many digits a positive finite number has before the point; zero or less below one. -/
def pointPosition (x : Binary64) : Int :=
  (Digit.digitsOf ((x.units * Nat.pow 10 400) >>> 1074)).length - 400

/-- The shortest decimal that reads back as the magnitude of a finite number, and of those the nearest
to it. Zero is `0`. -/
def shortest (tie : Tie) (x : Binary64) : Decimal :=
  if x.isZero then ⟨0, 0⟩
  else match firstPoint? tie (interval x) (pointPosition x - 1) 17 with
    | some d => d.dropZeros 20
    | none => ⟨0, 0⟩

end Decimal

end ObjectGraph
