/-!
# Decimal numbers

A decimal is an integer coefficient below 2^96 in magnitude, together with the
number of its digits that stand after the point. `1.5` and `1.50` are different
decimals of the same value.
-/

namespace QueryClause

/-- Magnitudes of coefficients stay below this bound. -/
def Decimal.magnitudeBound : Nat := Nat.pow 2 96

def Decimal.maxScale : Nat := 28

/-- The number `coefficient / 10 ^ scale`, written with `scale` digits after the point. -/
structure Decimal where
  coefficient : Int
  scale : Nat
  magnitude_lt : coefficient.natAbs < Decimal.magnitudeBound
  scale_le : scale ≤ Decimal.maxScale
  deriving DecidableEq

namespace Decimal

def ofParts? (coefficient : Int) (scale : Nat) : Option Decimal :=
  if inRange : coefficient.natAbs < magnitudeBound ∧ scale ≤ maxScale then
    some ⟨coefficient, scale, inRange.1, inRange.2⟩
  else none

def sameValue (first second : Decimal) : Bool :=
  first.coefficient * Int.pow 10 second.scale == second.coefficient * Int.pow 10 first.scale

def paddedDigits (width number : Nat) : List Char :=
  let digits := Nat.toDigits 10 number
  List.replicate (width - digits.length) '0' ++ digits

/-- The decimal as text: every digit of its scale is written, and no exponent. -/
def text (decimal : Decimal) : String :=
  let sign := if decimal.coefficient < 0 then ['-'] else []
  let digits := paddedDigits (decimal.scale + 1) decimal.coefficient.natAbs
  let whole := digits.take (digits.length - decimal.scale)
  let fraction := digits.drop (digits.length - decimal.scale)
  let point := if decimal.scale = 0 then [] else ['.']
  String.ofList (sign ++ whole ++ point ++ fraction)

end Decimal

end QueryClause
