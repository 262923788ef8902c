import ObjectGraph.Number.Numeral
import ObjectGraph.Number.Shortest

/-!
# Decimals as numerals

Two ways to write the shortest decimal of a binary number. Positional notation never uses a power of
ten and shows no fraction where there is none. Compact notation always shows a fraction or a power,
so that it is not taken for a whole number, and goes over to a power outside of 10^-5 and 10^16.
-/

set_option autoImplicit false

namespace ObjectGraph

namespace Decimal

def zeros (n : Nat) : List Digit := List.replicate n .zero

/-- Where the point stands, counted from the left of the digits. -/
def point (d : Decimal) : Int := (Digit.digitsOf d.digits).length + d.exponent

/-- The digits with every place written out. -/
def positional (negative : Bool) (d : Decimal) : Numeral :=
  let ds := Digit.digitsOf d.digits
  if 0 ≤ d.exponent then ⟨negative, ds ++ zeros d.exponent.toNat, [], none⟩
  else if 0 < d.point then ⟨negative, ds.take d.point.toNat, ds.drop d.point.toNat, none⟩
  else ⟨negative, [.zero], zeros (-d.point).toNat ++ ds, none⟩

/-- One digit before the point, and the power of ten that this takes. -/
def scientific (negative : Bool) (d : Decimal) : Numeral :=
  let ds := Digit.digitsOf d.digits
  ⟨negative, ds.take 1, ds.drop 1, some (.ofInt (d.point - 1))⟩

/-- Positional notation with at least one digit after the point from 10^-5 up to 10^16, and scientific
notation outside. -/
def compact (negative : Bool) (d : Decimal) : Numeral :=
  if 0 ≤ d.exponent ∧ d.point ≤ 16 then { d.positional negative with fraction := [.zero] }
  else if -5 < d.point ∧ d.point ≤ 16 then d.positional negative
  else d.scientific negative

end Decimal

namespace Binary64

/-- The plain text of a number: positional, of two equally near decimals the one away from zero. A
not-a-number has no sign to show. -/
def text (x : Binary64) : String :=
  if x.isNaN then "NaN"
  else if x.isInfinite then if x.isNegative then "-inf" else "inf"
  else String.ofList ((Decimal.shortest .away x).positional x.isNegative).text

/-- The compact numeral of a finite number, of two equally near decimals the one with an even last
digit. -/
def compactNumeral (x : Binary64) : Numeral := (Decimal.shortest .toEven x).compact x.isNegative

end Binary64

end ObjectGraph
