import QueryClause.Binary64.Shortest

/-!
# Numbers of JSON texts

A whole number that fits 64 bits is kept as it is; every other number is a double.
Digits are collected into a significand of 64 bits as far as they fit, and the
power of ten is applied to the significand as one multiplication or division of
doubles. A number beyond the greatest double is refused.
-/

namespace QueryClause

inductive JsonNumber where
  | integer (value : Int)
  | double (negative : Bool) (magnitude : Binary64)
  deriving DecidableEq

namespace JsonNumber

def maxSignificand : Nat := Nat.pow 2 64 - 1

structure Collected where
  significand : Nat
  exponent : Int
  deriving DecidableEq

def push? (significand : Nat) (digit : Char) : Option Nat :=
  let grown := significand * 10 + (digit.toNat - '0'.toNat)
  if grown ≤ maxSignificand then some grown else none

/-- Collects the digits before the point. From the first that does not fit on,
each digit only raises the exponent. -/
def collectWhole (significand : Nat) : List Char → Collected
  | [] => ⟨significand, 0⟩
  | digit :: rest =>
      match push? significand digit with
      | some grown => collectWhole grown rest
      | none => ⟨significand, rest.length + 1⟩

/-- Collects the digits after the point. From the first that does not fit on they
are dropped. -/
def collectFraction (collected : Collected) : List Char → Collected
  | [] => collected
  | digit :: rest =>
      match push? collected.significand digit with
      | some grown => collectFraction ⟨grown, collected.exponent - 1⟩ rest
      | none => collected

def maxPower : Nat := 308

def power? (exponent : Nat) : Option Binary64 :=
  Binary64.ofNat? (Nat.pow 10 exponent)

/-- Divides by a power of ten that is no double, in several steps. -/
def divideFar? (value : Binary64) (places : Nat) : Option Binary64 :=
  if value.isZero then some value
  else if places ≤ maxPower then do value.div? (← power? places)
  else do divideFar? (← value.div? (← power? maxPower)) (places - maxPower)
termination_by places
decreasing_by
  rename_i far
  have positive : 0 < maxPower := by decide
  omega

def Collected.double? (collected : Collected) : Option Binary64 := do
  let value ← Binary64.ofNat? collected.significand
  if 0 ≤ collected.exponent then
    let places := collected.exponent.toNat
    if places ≤ maxPower then value.mul? (← power? places)
    else if value.isZero then some value
    else none
  else
    let places := (-collected.exponent).toNat
    if places ≤ maxPower then value.div? (← power? places) else divideFar? value places

/-- A number from its sign and digits. The fraction is empty where there is no
point, and the exponent is missing where there is none. -/
def ofDigits? (negative : Bool) (whole fraction : List Char) (exponent : Option Int) :
    Option JsonNumber :=
  let collected := collectWhole 0 whole
  if fraction.isEmpty && exponent.isNone && collected.exponent == 0 then
    if !negative then some (.integer collected.significand)
    else if 0 < collected.significand && collected.significand ≤ Nat.pow 2 63 then
      some (.integer (-(collected.significand : Int)))
    else collected.double?.map (.double true)
  else
    let collected := collectFraction collected fraction
    let total : Collected := ⟨collected.significand, collected.exponent + exponent.getD 0⟩
    total.double?.map (.double negative)

/-- The exponents of ten of the first digit for which a double is written without
an exponent. -/
def isPositional (exponent : Int) : Bool :=
  -5 ≤ exponent && exponent ≤ 15

/-- Digits with a point among them or beside them; `exponent` is that of the first. -/
def positional (digits : List Char) (exponent : Int) : List Char :=
  if exponent < 0 then
    ['0', '.'] ++ List.replicate ((-exponent).toNat - 1) '0' ++ digits
  else
    let places := exponent.toNat + 1
    let whole := digits.take places ++ List.replicate (places - digits.length) '0'
    let fraction := digits.drop places
    whole ++ ['.'] ++ (if fraction.isEmpty then ['0'] else fraction)

def scientific (digits : List Char) (exponent : Int) : List Char :=
  let fraction := digits.drop 1
  let sign := if exponent < 0 then '-' else '+'
  digits.take 1 ++ (if fraction.isEmpty then [] else '.' :: fraction) ++
    ['e', sign] ++ Nat.toDigits 10 exponent.natAbs

def doubleText (magnitude : Binary64) : List Char :=
  if magnitude.isZero then ['0', '.', '0']
  else
    let (digits, exponent) := magnitude.shortest
    if isPositional exponent then positional digits exponent else scientific digits exponent

def text : JsonNumber → String
  | .integer value => String.ofList ((if value < 0 then ['-'] else []) ++ Nat.toDigits 10 value.natAbs)
  | .double negative magnitude =>
      String.ofList ((if negative then ['-'] else []) ++ doubleText magnitude)

end JsonNumber

end QueryClause
