import QueryClause.Decimal.Reader
import QueryClause.Token.Word

/-!
# Numerals

The written form of a number: an optional minus sign, digits, a point with
digits after it, and an exponent. A numeral that runs straight into a word takes
the whole word with it, so that `12abc` is one bad number and not two tokens.
-/

namespace QueryClause

/-- The characters of a number, and what follows them. -/
structure Numeral where
  chars : List Char
  scientific : Bool
  rest : List Char

namespace Numeral

def beginsWithDigit : List Char → Bool
  | [] => false
  | char :: _ => char.isDigit

def readDigits (chars : List Char) : List Char × List Char :=
  (chars.takeWhile Char.isDigit, chars.dropWhile Char.isDigit)

def readSign : List Char → List Char × List Char
  | '-' :: rest => (['-'], rest)
  | chars => ([], chars)

def readFraction : List Char → List Char × List Char
  | '.' :: rest =>
      if beginsWithDigit rest then
        let (digits, after) := readDigits rest
        ('.' :: digits, after)
      else ([], '.' :: rest)
  | chars => ([], chars)

def readExponentSign : List Char → List Char × List Char
  | '+' :: rest => (['+'], rest)
  | '-' :: rest => (['-'], rest)
  | chars => ([], chars)

/-- Reads the mark of an exponent with its sign and its digits, any of which may
be missing after the mark. -/
def readExponent : List Char → List Char × List Char
  | [] => ([], [])
  | mark :: rest =>
      if Decimal.isExponentMark mark then
        let (sign, afterSign) := readExponentSign rest
        let (digits, after) := readDigits afterSign
        (mark :: sign ++ digits, after)
      else ([], mark :: rest)

/-- Reads the word that a numeral runs into, if there is one. -/
def readTail (chars : List Char) : List Char × List Char :=
  if Word.begins chars then (chars.takeWhile Word.isPart, chars.dropWhile Word.isPart)
  else ([], chars)

def read (chars : List Char) : Numeral :=
  let (sign, rest) := readSign chars
  let (whole, rest) := readDigits rest
  let (fraction, rest) := readFraction rest
  let (exponent, rest) := readExponent rest
  let (tail, rest) := readTail rest
  ⟨sign ++ whole ++ fraction ++ exponent ++ tail, !exponent.isEmpty, rest⟩

theorem readDigits_append (chars : List Char) :
    (readDigits chars).1 ++ (readDigits chars).2 = chars :=
  List.takeWhile_append_dropWhile

theorem readSign_append (chars : List Char) : (readSign chars).1 ++ (readSign chars).2 = chars := by
  unfold readSign
  split <;> rfl

theorem readFraction_append (chars : List Char) :
    (readFraction chars).1 ++ (readFraction chars).2 = chars := by
  unfold readFraction
  split
  · split
    · exact congrArg ('.' :: ·) (readDigits_append _)
    · rfl
  · rfl

theorem readExponentSign_append (chars : List Char) :
    (readExponentSign chars).1 ++ (readExponentSign chars).2 = chars := by
  unfold readExponentSign
  split <;> rfl

theorem readExponent_append (chars : List Char) :
    (readExponent chars).1 ++ (readExponent chars).2 = chars := by
  cases chars with
  | nil => rfl
  | cons mark rest =>
      by_cases isMark : Decimal.isExponentMark mark = true
      · simp only [readExponent, isMark, if_true, List.cons_append, List.append_assoc]
        rw [readDigits_append, readExponentSign_append]
      · simp [readExponent, isMark]

theorem readTail_append (chars : List Char) : (readTail chars).1 ++ (readTail chars).2 = chars := by
  unfold readTail
  split
  · exact List.takeWhile_append_dropWhile
  · rfl

theorem read_append (chars : List Char) : (read chars).chars ++ (read chars).rest = chars := by
  simp only [read, List.append_assoc]
  rw [readTail_append, readExponent_append, readFraction_append, readDigits_append,
    readSign_append]

def value? (numeral : Numeral) : Option Decimal :=
  if numeral.scientific then Decimal.readScientific? numeral.chars
  else Decimal.read? numeral.chars

end Numeral

end QueryClause
