import ObjectGraph.Number.Digits

/-!
# Numerals

A numeral is a number as it is written: a sign, digits before the point, digits after it, and perhaps
a power of ten. Which number it denotes depends on who reads it, so a numeral keeps all its digits.
-/

set_option autoImplicit false

namespace ObjectGraph

/-- The power of ten at the end of a numeral. -/
structure Exponent where
  negative : Bool
  digits : List Digit
deriving DecidableEq, Repr

/-- A written number. Without digits after the point there is no point either. -/
structure Numeral where
  negative : Bool
  whole : List Digit
  fraction : List Digit
  exponent : Option Exponent
deriving DecidableEq, Repr

namespace Exponent

def value (e : Exponent) : Int := if e.negative then -(Digit.value e.digits) else Digit.value e.digits

/-- A whole number as a power of ten. -/
def ofInt (n : Int) : Exponent := ⟨decide (n < 0), Digit.digitsOf n.natAbs⟩

/-- The mark, a minus sign if there is one, the digits. -/
def text (e : Exponent) : List Char :=
  'e' :: ((if e.negative then ['-'] else []) ++ e.digits.map Digit.char)

end Exponent

namespace Numeral

def ofNat (n : Nat) : Numeral := ⟨false, Digit.digitsOf n, [], none⟩

def ofInt (n : Int) : Numeral := ⟨decide (n < 0), Digit.digitsOf n.natAbs, [], none⟩

/-- Neither a point nor a power of ten is written. -/
def isWhole (n : Numeral) : Bool := n.fraction.isEmpty && n.exponent.isNone

def text (n : Numeral) : List Char :=
  (if n.negative then ['-'] else []) ++ n.whole.map Digit.char ++
    (if n.fraction.isEmpty then [] else '.' :: n.fraction.map Digit.char) ++
    (match n.exponent with
      | some e => e.text
      | none => [])

end Numeral

end ObjectGraph
