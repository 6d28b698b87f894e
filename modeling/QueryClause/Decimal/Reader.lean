import QueryClause.Decimal

/-!
# Reading decimals

A number is written as digits with an optional sign in front, an optional point,
and underscores anywhere after the first digit. A fraction that is too long for
a decimal is rounded at the first digit that has no room. In scientific notation
an exponent follows, which moves the point without rounding.
-/

namespace QueryClause.Decimal

def digitValue (digit : Char) : Nat :=
  digit.toNat - '0'.toNat

def isDigitOrFiller (char : Char) : Bool :=
  char.isDigit || char == '_'

/-- Adds one unit in the last place. A magnitude that leaves its range gives up
one place. -/
def roundUp (magnitude scale : Nat) : Option (Nat × Nat) :=
  if magnitude + 1 < magnitudeBound then some (magnitude + 1, scale)
  else
    match scale with
    | 0 => none
    | scale + 1 => some ((magnitude + 5) / 10, scale)

/-- Ends a fraction at the first digit that has no room. A five or more rounds
up; the characters after it have no influence, and only have to be digits. -/
def settle (magnitude scale decider : Nat) (rest : List Char) : Option (Nat × Nat) :=
  if rest.all isDigitOrFiller then
    if 5 ≤ decider then roundUp magnitude scale else some (magnitude, scale)
  else none

/-- Magnitudes from this bound on, less their last digit, look past underscores
for the digit that decides the rounding. -/
def fillerBound : Nat := (Nat.pow 2 64 - 1) / 10 - 255

def readExcess (magnitude scale : Nat) : List Char → Option (Nat × Nat)
  | [] => some (magnitude, scale)
  | char :: rest =>
      if char.isDigit then settle magnitude scale (digitValue char) rest
      else if char == '_' then
        if fillerBound ≤ magnitude / 10 then readExcess magnitude scale rest
        else settle magnitude scale 0 rest
      else none

def readFraction (magnitude scale : Nat) : List Char → Option (Nat × Nat)
  | [] => some (magnitude, scale)
  | char :: rest =>
      if scale = maxScale then readExcess magnitude scale (char :: rest)
      else if char.isDigit then
        let grown := magnitude * 10 + digitValue char
        if grown < magnitudeBound then readFraction grown (scale + 1) rest
        else settle magnitude scale (digitValue char) rest
      else if char == '_' then readFraction magnitude scale rest
      else none

/-- The digits before the point and what follows them; `started` tells whether a
digit has been read. -/
def readWhole (magnitude : Nat) (started : Bool) : List Char → Option (Nat × Nat)
  | [] => if started then some (magnitude, 0) else none
  | char :: rest =>
      if char.isDigit then
        let grown := magnitude * 10 + digitValue char
        if grown < magnitudeBound then readWhole grown true rest else none
      else if char == '_' && started then readWhole magnitude started rest
      else if char == '.' && started then readFraction magnitude 0 rest
      else none

def readPlain? : List Char → Option Decimal
  | '-' :: chars => do
      let (magnitude, scale) ← readWhole 0 false chars
      ofParts? (-(magnitude : Int)) scale
  | chars => do
      let (magnitude, scale) ← readWhole 0 false chars
      ofParts? magnitude scale

def readExponentDigits? (chars : List Char) : Option Nat :=
  let digits := match chars with
    | '+' :: digits => digits
    | digits => digits
  if digits.isEmpty || !digits.all Char.isDigit then none
  else some (digits.foldl (fun value digit => value * 10 + digitValue digit) 0)

def moveLeft? (decimal : Decimal) (places : Nat) : Option Decimal :=
  ofParts? decimal.coefficient (decimal.scale + places)

/-- Moves the point to the right. Where the scale has too few digits the result
is a whole number; at most `maxScale` places are accepted. -/
def moveRight? (decimal : Decimal) (places : Nat) : Option Decimal :=
  if places ≤ decimal.scale then ofParts? decimal.coefficient (decimal.scale - places)
  else if places ≤ maxScale then
    ofParts? (decimal.coefficient * Int.pow 10 (places - decimal.scale)) 0
  else none

def isExponentMark (char : Char) : Bool :=
  char == 'e' || char == 'E'

def readScientific? (chars : List Char) : Option Decimal :=
  match chars.dropWhile fun char => !isExponentMark char with
  | [] => none
  | _ :: exponent => do
      let base ← readPlain? (chars.takeWhile fun char => !isExponentMark char)
      match exponent with
      | '-' :: digits => base.moveLeft? (← readExponentDigits? digits)
      | digits => base.moveRight? (← readExponentDigits? digits)

/-- Reads a number; one that cannot be read as it stands is tried as a number
with an exponent. -/
def read? (chars : List Char) : Option Decimal :=
  readPlain? chars <|> readScientific? chars

end QueryClause.Decimal
