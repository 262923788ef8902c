/-!
# Binary floating point of double width

A number of the 64-bit binary floating-point format is its bits: a sign, eleven bits of exponent and
fifty-two of fraction. Two such numbers are the same when their bits are, so a not-a-number is the
same as itself and the two zeros differ; the arithmetic comparison, under which it is the other way
round, is `numericallyEqual`.

A finite number is counted in the smallest positive one: its magnitude is `units` times 2^-1074, and
`units` is `significand` shifted left by `shift`. Rounding (`ofRatio`) goes the other way: it takes
any ratio to the nearest number, a tie to the even significand, and past the largest finite number
to infinity. Multiplication and division of finite numbers are the exact operation followed by that
rounding, which is what the standard asks for.
-/

set_option autoImplicit false

namespace ObjectGraph

/-- A number of the 64-bit binary floating-point format, as its bits. -/
structure Binary64 where
  bits : UInt64
deriving DecidableEq, Repr, Inhabited

namespace Binary64

/-- The sign bit is set. Zeros and not-a-numbers have a sign too. -/
def isNegative (x : Binary64) : Bool := x.bits >>> 63 == 1

/-- The bits below the sign, as a natural number. Over the finite numbers it grows with the magnitude. -/
def magnitudeBits (x : Binary64) : Nat := x.bits.toNat % (1 <<< 63)

/-- The magnitude bits of infinity: the exponent bits all set and no fraction. -/
def infinityBits : Nat := 0x7ff <<< 52

def isNaN (x : Binary64) : Bool := x.magnitudeBits > infinityBits

def isInfinite (x : Binary64) : Bool := x.magnitudeBits == infinityBits

def isFinite (x : Binary64) : Bool := x.magnitudeBits < infinityBits

def isZero (x : Binary64) : Bool := x.magnitudeBits == 0

/-- How far the significand is shifted left in `units`; the numbers below the normal range share the
shift of the smallest normal ones. -/
def shift (x : Binary64) : Nat := x.magnitudeBits >>> 52 - 1

/-- The fraction with its leading bit, which the format leaves out of normal numbers. -/
def significand (x : Binary64) : Nat :=
  if x.magnitudeBits >>> 52 = 0 then x.magnitudeBits
  else x.magnitudeBits % (1 <<< 52) + 1 <<< 52

/-- The magnitude of a finite number, counted in 2^-1074. -/
def units (x : Binary64) : Nat := x.significand <<< x.shift

/-- Arithmetic equality: a not-a-number equals nothing, and the two zeros are equal. -/
def numericallyEqual (x y : Binary64) : Bool :=
  !x.isNaN && !y.isNaN && (x.bits == y.bits || (x.isZero && y.isZero))

/-- The number with the given sign and magnitude bits. -/
def ofMagnitude (negative : Bool) (magnitude : Nat) : Binary64 :=
  ⟨UInt64.ofNat ((if negative then 1 <<< 63 else 0) + magnitude)⟩

/-- The natural number nearest to a ratio; a tie goes to the even one. -/
def roundHalfEven (num den : Nat) : Nat :=
  let floor := num / den
  let rest := num % den
  if 2 * rest < den then floor
  else if 2 * rest > den then floor + 1
  else floor + floor % 2

/-- The magnitude bits of the number nearest to a ratio. Counted in 2^-1074 the ratio is shifted right
until 53 bits are left of its whole part, and rounded there; a carry out of the rounding runs into the
exponent, where it is right again. -/
def roundedMagnitude (num den : Nat) : Nat :=
  let scaled := num <<< 1074
  let shift := (scaled / den).log2 - 52
  min (shift <<< 52 + roundHalfEven scaled (den <<< shift)) infinityBits

/-- The number nearest to the ratio of two natural numbers, with a sign. -/
def ofRatio (negative : Bool) (num den : Nat) : Binary64 :=
  ofMagnitude negative (roundedMagnitude num den)

def ofNat (n : Nat) : Binary64 := ofRatio false n 1

/-- The product of two finite numbers. -/
def mul (x y : Binary64) : Binary64 :=
  ofRatio (x.isNegative != y.isNegative) (x.units * y.units) (1 <<< 2148)

/-- The quotient of two finite numbers, the second not zero. -/
def div (x y : Binary64) : Binary64 :=
  ofRatio (x.isNegative != y.isNegative) x.units y.units

def neg (x : Binary64) : Binary64 := ofMagnitude (!x.isNegative) x.magnitudeBits

end Binary64

end ObjectGraph
