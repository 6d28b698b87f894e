import QueryClause.Json

/-!
# Reading JSON

A strict reader of JSON texts. Blanks are the space, the tab, the line feed and
the carriage return; strings hold no raw controls; escapes of surrogates come in
pairs; numbers have no leading zeros and fit a double; arrays and objects nest at
most 127 deep; and nothing but blanks follows the value.
-/

namespace QueryClause.Json

/-- Reads something from the front of a text and tells what follows it. -/
abbrev Reader (α : Type) := List Char → Option (α × List Char)

def isBlank (char : Char) : Bool :=
  char == ' ' || char == '\t' || char == '\n' || char == '\r'

def skipBlanks (chars : List Char) : List Char :=
  chars.dropWhile isBlank

def readMark (mark : Char) (chars : List Char) : Option (List Char) :=
  match skipBlanks chars with
  | [] => none
  | char :: rest => if char = mark then some rest else none

def hexValue? (char : Char) : Option Nat :=
  if '0' ≤ char ∧ char ≤ '9' then some (char.toNat - '0'.toNat)
  else if 'a' ≤ char ∧ char ≤ 'f' then some (char.toNat - 'a'.toNat + 10)
  else if 'A' ≤ char ∧ char ≤ 'F' then some (char.toNat - 'A'.toNat + 10)
  else none

def readUnit : Reader Nat
  | first :: second :: third :: fourth :: rest => do
      let value := ((← hexValue? first) * 16 + (← hexValue? second)) * 16 + (← hexValue? third)
      return (value * 16 + (← hexValue? fourth), rest)
  | _ => none

def isHighSurrogate (unit : Nat) : Bool :=
  0xd800 ≤ unit && unit ≤ 0xdbff

def isLowSurrogate (unit : Nat) : Bool :=
  0xdc00 ≤ unit && unit ≤ 0xdfff

/-- Reads a character given by one escaped code unit or by two; the first `\u` has
been read. -/
def readUnicode (chars : List Char) : Option (Char × List Char) := do
  let (unit, rest) ← readUnit chars
  if isHighSurrogate unit then
    match rest with
    | '\\' :: 'u' :: rest =>
        let (low, rest) ← readUnit rest
        if isLowSurrogate low then
          return (Char.ofNat (0x10000 + (unit - 0xd800) * 0x400 + (low - 0xdc00)), rest)
        else none
    | _ => none
  else if isLowSurrogate unit then none
  else return (Char.ofNat unit, rest)

/-- Reads an escaped character; the backslash has been read. -/
def readEscape : Reader Char
  | [] => none
  | char :: rest =>
      if char = '"' || char = '\\' || char = '/' then some (char, rest)
      else if char = 'b' then some (Char.ofNat 0x08, rest)
      else if char = 'f' then some (Char.ofNat 0x0c, rest)
      else if char = 'n' then some ('\n', rest)
      else if char = 'r' then some ('\r', rest)
      else if char = 't' then some ('\t', rest)
      else if char = 'u' then readUnicode rest
      else none

/-- Reads the characters of a string up to its closing quote. Each of at most
`count` steps takes one character of the string. -/
def readCharsFrom : Nat → Reader (List Char)
  | 0, _ => none
  | _ + 1, [] => none
  | count + 1, char :: rest =>
      if char = '"' then some ([], rest)
      else if char = '\\' then do
        let (escaped, rest) ← readEscape rest
        let (chars, rest) ← readCharsFrom count rest
        return (escaped :: chars, rest)
      else if char.toNat < 0x20 then none
      else do
        let (chars, rest) ← readCharsFrom count rest
        return (char :: chars, rest)

def readString (chars : List Char) : Option (String × List Char) :=
  (readCharsFrom (chars.length + 1) chars).map fun (content, rest) => (String.ofList content, rest)

def readDigits (chars : List Char) : Option (List Char × List Char) :=
  match chars.takeWhile Char.isDigit with
  | [] => none
  | digits => some (digits, chars.dropWhile Char.isDigit)

/-- Reads the digits before the point; a zero in front stands alone. -/
def readWhole : Reader (List Char)
  | [] => none
  | char :: rest =>
      if char = '0' then
        match rest with
        | [] => some (['0'], [])
        | next :: after => if next.isDigit then none else some (['0'], next :: after)
      else readDigits (char :: rest)

def readFraction : Reader (List Char)
  | '.' :: rest => readDigits rest
  | chars => some ([], chars)

def readExponent (chars : List Char) : Option (Option Int × List Char) :=
  match chars with
  | [] => some (none, [])
  | mark :: rest =>
      if mark = 'e' || mark = 'E' then do
        let (negative, rest) := match rest with
          | '+' :: rest => (false, rest)
          | '-' :: rest => (true, rest)
          | rest => (false, rest)
        let (digits, rest) ← readDigits rest
        let magnitude := digits.foldl (fun value digit => value * 10 + (digit.toNat - '0'.toNat)) 0
        return (some (if negative then -(magnitude : Int) else magnitude), rest)
      else some (none, mark :: rest)

def readNumber (chars : List Char) : Option (JsonNumber × List Char) := do
  let (negative, rest) := match chars with
    | '-' :: rest => (true, rest)
    | rest => (false, rest)
  let (whole, rest) ← readWhole rest
  let (fraction, rest) ← readFraction rest
  let (exponent, rest) ← readExponent rest
  return (← JsonNumber.ofDigits? negative whole fraction exponent, rest)

def readWord (word : List Char) (value : Json) (chars : List Char) : Option (Json × List Char) :=
  if word.isPrefixOf chars then some (value, chars.drop word.length) else none

/-- Reads items divided by commas up to a closing mark. There are no more than
`count` of them. -/
def readItemsFrom {α : Type} (item : Reader α) (close : Char) : Nat → Reader (List α)
  | 0, _ => none
  | count + 1, chars => do
      let (first, rest) ← item chars
      match skipBlanks rest with
      | [] => none
      | mark :: rest =>
          if mark = close then return ([first], rest)
          else if mark = ',' then
            let (others, rest) ← readItemsFrom item close count rest
            return (first :: others, rest)
          else none

def readItems {α : Type} (item : Reader α) (close : Char) (chars : List Char) :
    Option (List α × List Char) :=
  match readMark close chars with
  | some rest => some ([], rest)
  | none => readItemsFrom item close chars.length chars

def readMember (value : Reader Json) (chars : List Char) : Option ((String × Json) × List Char) := do
  let rest ← readMark '"' chars
  let (name, rest) ← readString rest
  let rest ← readMark ':' rest
  let (content, rest) ← value rest
  return ((name, content), rest)

/-- Reads a value in which arrays and objects nest at most `depth` deep. -/
def readValue : Nat → Reader Json
  | depth, chars =>
      match skipBlanks chars with
      | [] => none
      | char :: rest =>
          if char = '"' then (readString rest).map fun (content, rest) => (.text content, rest)
          else if char = '[' then
            match depth with
            | 0 => none
            | depth + 1 =>
                (readItems (readValue depth) ']' rest).map fun (items, rest) => (.array items, rest)
          else if char = '\x7b' then
            match depth with
            | 0 => none
            | depth + 1 =>
                (readItems (readMember (readValue depth)) '\x7d' rest).map
                  fun (members, rest) => (.object members, rest)
          else if char = 'n' then readWord ['u', 'l', 'l'] .null rest
          else if char = 't' then readWord ['r', 'u', 'e'] (.boolean true) rest
          else if char = 'f' then readWord ['a', 'l', 's', 'e'] (.boolean false) rest
          else (readNumber (char :: rest)).map fun (value, rest) => (.number value, rest)

def maxNesting : Nat := 127

def parse? (text : String) : Option Json :=
  match readValue maxNesting text.toList with
  | some (value, rest) => if (skipBlanks rest).isEmpty then some value else none
  | none => none

end QueryClause.Json
