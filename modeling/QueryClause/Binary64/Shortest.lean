import QueryClause.Binary64

/-!
# Shortest decimal digits

The fewest decimal digits that read back as a given double precision number. Of
several such decimals with the fewest digits it is the one nearest to the number,
and of two that are equally near the even one.
-/

namespace QueryClause.Binary64

def leadingExponent (numerator denominator : Nat) : Int :=
  if denominator ≤ numerator then ((Nat.toDigits 10 (numerator / denominator)).length : Int) - 1
  else
    let length := (Nat.toDigits 10 (denominator / numerator)).length
    if denominator ≤ numerator * Nat.pow 10 (length - 1) then -((length : Int) - 1) else -(length : Int)

/-- The whole numbers next to a fraction, the nearer one first. -/
def neighbours (numerator denominator : Nat) : List Nat :=
  let below := numerator / denominator
  if roundedQuotient numerator denominator = below then [below, below + 1] else [below + 1, below]

def readsBack (number : Binary64) (digits : Nat) (exponent : Int) : Bool :=
  let (numerator, denominator) := scaleRatio 10 (-exponent) (digits, 1)
  ofRatio? numerator denominator == some number

def decimalOf? (number : Binary64) (count : Nat) : Option (Nat × Int) :=
  let (numerator, denominator) := number.ratio
  let exponent := leadingExponent numerator denominator - count + 1
  let (dividend, divisor) := scaleRatio 10 exponent (numerator, denominator)
  ((neighbours dividend divisor).find? fun digits => number.readsBack digits exponent).map
    fun digits => (digits, exponent)

/-- The shortest decimal that reads back, as its digits and the exponent of ten of
its first digit. Seventeen digits always read back. -/
def shortest (number : Binary64) : List Char × Int :=
  match (List.range' 1 17).findSome? number.decimalOf? with
  | none => (['0'], 0)
  | some (value, exponent) =>
      let digits := Nat.toDigits 10 value
      ((digits.reverse.dropWhile fun digit => digit == '0').reverse, digits.length - 1 + exponent)

end QueryClause.Binary64
