import QueryClause.Token
import QueryClause.Token.DateTime
import QueryClause.Token.Numeral
import QueryClause.Token.Quoted

/-!
# Scanning one token

The first character of a text decides which kind of token it begins with. A scan
tells the characters it took, the token or what is wrong with them, and what is
left. An unexpected character is left in place, except for a lone dollar sign,
which is taken.
-/

namespace QueryClause

inductive Fault where
  | unexpectedCharacter (char : Char)
  | unterminatedString
  | invalidNumber (text : String)
  deriving DecidableEq

structure Scan where
  taken : List Char
  outcome : Except Fault Token
  rest : List Char

namespace Scan

def quoted (body : List Char) : Scan :=
  match Quoted.read? body with
  | some (content, rest) =>
      ⟨Quoted.written content, .ok (.literal (.text (String.ofList content))), rest⟩
  | none => ⟨Quoted.quote :: body, .error .unterminatedString, []⟩

def number (chars : List Char) : Scan :=
  let numeral := Numeral.read chars
  match numeral.value? with
  | some decimal => ⟨numeral.chars, .ok (.literal (.number decimal)), numeral.rest⟩
  | none => ⟨numeral.chars, .error (.invalidNumber (String.ofList numeral.chars)), numeral.rest⟩

/-- Scans a date-time or a number, where the former is tried first. -/
def digits (chars : List Char) : Scan :=
  match DateTime.read? chars with
  | some (literal, rest) => ⟨literal, .ok (.literal (.timestamp (String.ofList literal))), rest⟩
  | none => number chars

def path (chars : List Char) : Scan :=
  let (name, rest) := Word.readPath chars
  ⟨name, .ok (.identifier (String.ofList name)), rest⟩

/-- Scans a path that begins with a dollar sign, which `chars` follows. -/
def dollarPath (chars : List Char) : Scan :=
  match chars with
  | [] => ⟨['$'], .error (.unexpectedCharacter '$'), []⟩
  | char :: rest =>
      if Word.isPart char then
        let (name, after) := Word.readPath (char :: rest)
        ⟨'$' :: name, .ok (.identifier (String.ofList ('$' :: name))), after⟩
      else ⟨['$'], .error (.unexpectedCharacter '$'), char :: rest⟩

/-- Scans a reserved word or a path. A reserved word before a slash is the first
word of a path. -/
def word (chars : List Char) : Scan :=
  let taken := chars.takeWhile Word.isPart
  let rest := chars.dropWhile Word.isPart
  match Token.keyword? (String.ofList taken) with
  | some token => if rest.head? = some '/' then path chars else ⟨taken, .ok token, rest⟩
  | none => path chars

end Scan

/-- Scans the token that a text begins with; the empty text is its own end. -/
def scan : List Char → Scan
  | [] => ⟨[], .ok .endOfInput, []⟩
  | char :: rest =>
      if char = '(' then ⟨['('], .ok .openParen, rest⟩
      else if char = ')' then ⟨[')'], .ok .closeParen, rest⟩
      else if char = ',' then ⟨[','], .ok .comma, rest⟩
      else if char = Quoted.quote then Scan.quoted rest
      else if char = '-' then
        if Numeral.beginsWithDigit rest then Scan.number ('-' :: rest)
        else ⟨['-'], .ok .minus, rest⟩
      else if char = '$' then Scan.dollarPath rest
      else if char.isDigit then Scan.digits (char :: rest)
      else if Word.isStart char then Scan.word (char :: rest)
      else ⟨[], .error (.unexpectedCharacter char), char :: rest⟩

namespace Scan

theorem quoted_append (body : List Char) :
    (quoted body).taken ++ (quoted body).rest = Quoted.quote :: body := by
  unfold quoted
  split
  · rename_i content rest found
    rw [(Quoted.eq_of_read?_eq_some found).1]
    simp [Quoted.written]
  · simp

theorem number_append (chars : List Char) :
    (number chars).taken ++ (number chars).rest = chars := by
  unfold number
  dsimp only
  split <;> exact Numeral.read_append chars

theorem digits_append (chars : List Char) :
    (digits chars).taken ++ (digits chars).rest = chars := by
  unfold digits
  split
  · rename_i found
    exact DateTime.read?_append found
  · exact number_append chars

theorem path_append (chars : List Char) : (path chars).taken ++ (path chars).rest = chars :=
  Word.readPath_append chars

theorem dollarPath_append (chars : List Char) :
    (dollarPath chars).taken ++ (dollarPath chars).rest = '$' :: chars := by
  cases chars with
  | nil => rfl
  | cons char rest =>
      by_cases part : Word.isPart char = true
      · simpa [dollarPath, part] using Word.readPath_append (char :: rest)
      · simp [dollarPath, part]

theorem word_append (chars : List Char) : (word chars).taken ++ (word chars).rest = chars := by
  unfold word
  dsimp only
  split
  · split
    · exact path_append chars
    · exact List.takeWhile_append_dropWhile
  · exact path_append chars

end Scan

theorem scan_append (chars : List Char) : (scan chars).taken ++ (scan chars).rest = chars := by
  cases chars with
  | nil => rfl
  | cons char rest =>
      unfold scan
      repeat' split
      all_goals simp_all [Scan.quoted_append, Scan.number_append, Scan.dollarPath_append,
        Scan.digits_append, Scan.word_append]

end QueryClause
