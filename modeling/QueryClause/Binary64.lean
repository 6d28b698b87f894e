/-!
# Double precision numbers

Finite numbers of the IEEE format binary64, without a sign: an integer
significand of at most 53 bits times a power of two. Arithmetic is exact up to
one rounding of the result to the nearest such number, where a tie goes to the
even significand. Results beyond the greatest number do not exist.
-/

namespace QueryClause

def Binary64.minExponent : Int := -1074

def Binary64.maxExponent : Int := 971

/-- The number `significand * 2 ^ exponent`. The significand has all its 53 bits,
or the exponent is the least one, so that equal numbers have equal parts. -/
structure Binary64 where
  significand : Nat
  exponent : Int
  significand_lt : significand < Nat.pow 2 53
  exponent_le : exponent ≤ Binary64.maxExponent
  normal : Nat.pow 2 52 ≤ significand ∧ Binary64.minExponent ≤ exponent ∨
    exponent = Binary64.minExponent
  deriving DecidableEq

namespace Binary64

def ofParts? (significand : Nat) (exponent : Int) : Option Binary64 :=
  if inRange : significand < Nat.pow 2 53 ∧ exponent ≤ maxExponent ∧
      (Nat.pow 2 52 ≤ significand ∧ minExponent ≤ exponent ∨ exponent = minExponent) then
    some ⟨significand, exponent, inRange.1, inRange.2.1, inRange.2.2⟩
  else none

def isZero (number : Binary64) : Bool :=
  number.significand == 0

/-- A quotient rounded to the nearest whole number, a tie to the even one. -/
def roundedQuotient (numerator denominator : Nat) : Nat :=
  let quotient := numerator / denominator
  let excess := 2 * (numerator % denominator)
  if denominator < excess || (denominator == excess && quotient % 2 == 1) then quotient + 1
  else quotient

/-- The fraction `numerator / denominator` divided by a power of a base, as a
fraction of whole numbers. -/
def scaleRatio (base : Nat) (exponent : Int) (ratio : Nat × Nat) : Nat × Nat :=
  if 0 ≤ exponent then (ratio.1, ratio.2 * Nat.pow base exponent.toNat)
  else (ratio.1 * Nat.pow base (-exponent).toNat, ratio.2)

/-- The number nearest to the fraction `numerator / denominator`, if there is one.
The first guess at the exponent leaves a quotient of 53 or 54 bits. -/
def ofRatio? (numerator denominator : Nat) : Option Binary64 :=
  if numerator = 0 then ofParts? 0 minExponent
  else
    let guess := max ((numerator.log2 : Int) - denominator.log2 - 53) minExponent
    let (dividend, divisor) := scaleRatio 2 guess (numerator, denominator)
    let exponent := if Nat.pow 2 53 ≤ dividend / divisor then guess + 1 else guess
    let (dividend, divisor) := scaleRatio 2 exponent (numerator, denominator)
    let significand := roundedQuotient dividend divisor
    if significand = Nat.pow 2 53 then ofParts? (Nat.pow 2 52) (exponent + 1)
    else ofParts? significand exponent

def ratio (number : Binary64) : Nat × Nat :=
  scaleRatio 2 (-number.exponent) (number.significand, 1)

def ofNat? (number : Nat) : Option Binary64 :=
  ofRatio? number 1

def mul? (first second : Binary64) : Option Binary64 :=
  ofRatio? (first.ratio.1 * second.ratio.1) (first.ratio.2 * second.ratio.2)

def div? (first second : Binary64) : Option Binary64 :=
  ofRatio? (first.ratio.1 * second.ratio.2) (first.ratio.2 * second.ratio.1)

end Binary64

end QueryClause
