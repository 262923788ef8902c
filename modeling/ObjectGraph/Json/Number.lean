import ObjectGraph.Number.Binary64
import ObjectGraph.Number.Numeral

/-!
# Numerals as numbers

Which number a JSON numeral denotes depends on the type it is read as. A whole number must be written
as one, without point or power, and must be in range; a negative zero is no whole number. A binary
number takes any numeral.

Reading a binary number collects the digits in 64 bits: a digit of the whole part that does not fit
any more is a power of ten, and a digit of the fraction that does not fit ends the collecting. The
collected digits are then multiplied or divided by a power of ten, each step rounded, so a long
numeral need not give the nearest number. Too large a number is refused, too small a one is zero.
-/

set_option autoImplicit false

namespace ObjectGraph.Numeral

def toInt64? (n : Numeral) : Option Int64 :=
  let magnitude := Digit.value n.whole
  if !n.isWhole then none
  else if n.negative then
    if 0 < magnitude ∧ magnitude ≤ 1 <<< 63 then some (Int64.ofInt (-magnitude)) else none
  else if magnitude < 1 <<< 63 then some (Int64.ofInt magnitude)
  else none

def toUInt64? (n : Numeral) : Option UInt64 :=
  let magnitude := Digit.value n.whole
  if n.isWhole ∧ !n.negative ∧ magnitude < UInt64.size then some (UInt64.ofNat magnitude) else none

/-- Digits collected in 64 bits on top of what stands before them, and the digits that did not fit. -/
def collect (start : Nat) : List Digit → Nat × List Digit
  | [] => (start, [])
  | d :: rest =>
    let next := start * 10 + d.val
    if next < UInt64.size then collect next rest else (start, d :: rest)

def tenTo (power : Nat) : Binary64 := .ofRatio false (Nat.pow 10 power) 1

/-- The largest power of ten that is taken in one step. -/
def largestPower : Nat := 308

/-- A number scaled down by a power of ten, in as many steps as that takes. -/
def scaleDown (x : Binary64) (power : Nat) : Binary64 :=
  if power ≤ largestPower then x.div (tenTo power)
  else if x.isZero then x
  else scaleDown (x.div (tenTo largestPower)) (power - largestPower)
termination_by power
decreasing_by simp only [largestPower] at *; omega

/-- A number scaled up by a power of ten, if that stays finite. -/
def scaleUp? (x : Binary64) (power : Nat) : Option Binary64 :=
  if power ≤ largestPower then
    let y := x.mul (tenTo power)
    if y.isInfinite then none else some y
  else if x.isZero then some x
  else none

/-- Collected digits times a power of ten, without sign. -/
def scale? (collected : Nat) (power : Int) : Option Binary64 :=
  if 0 ≤ power then scaleUp? (.ofNat collected) power.toNat
  else some (scaleDown (.ofNat collected) (-power).toNat)

def magnitude? (n : Numeral) : Option Binary64 :=
  let whole := collect 0 n.whole
  if n.isWhole ∧ whole.2.isEmpty then some (.ofNat whole.1)
  else
    let all := collect whole.1 n.fraction
    let shift : Int := whole.2.length - (n.fraction.length - all.2.length)
    let power := match n.exponent with
      | some e => e.value
      | none => 0
    scale? all.1 (shift + power)

def toBinary64? (n : Numeral) : Option Binary64 :=
  n.magnitude?.map fun x => if n.negative then x.neg else x

end ObjectGraph.Numeral
