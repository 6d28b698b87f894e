/-!
# Date-time literals

A date `YYYY-MM-DD`, or a date with a time `Thh:mm`, which may go on with seconds
`:ss`, a fraction of a second, and a zone `Z` or `+hh:mm`. Each optional part is
taken whenever it is there in full. Only a window of the text is looked at.
-/

namespace QueryClause.DateTime

/-- The number of characters that are looked at. -/
def window : Nat := 48

def isDateTimeChar (char : Char) : Bool :=
  char.isDigit || char == '-' || char == '+' || char == ':' || char == '.' || char == 'T' ||
    char == 'Z'

def afterDigits : Nat → List Char → Option (List Char)
  | 0, chars => some chars
  | _ + 1, [] => none
  | count + 1, char :: rest => if char.isDigit then afterDigits count rest else none

def afterMark (mark : Char) : List Char → Option (List Char)
  | [] => none
  | char :: rest => if char = mark then some rest else none

/-- What follows two pairs of digits divided by a colon. -/
def afterClock (chars : List Char) : Option (List Char) := do
  let rest ← afterDigits 2 chars
  let rest ← afterMark ':' rest
  afterDigits 2 rest

def afterDate (chars : List Char) : Option (List Char) := do
  let rest ← afterDigits 4 chars
  let rest ← afterMark '-' rest
  let rest ← afterDigits 2 rest
  let rest ← afterMark '-' rest
  afterDigits 2 rest

def afterFraction (chars : List Char) : List Char :=
  match afterMark '.' chars >>= afterDigits 1 with
  | some rest => rest.dropWhile Char.isDigit
  | none => chars

def afterSeconds (chars : List Char) : List Char :=
  match afterMark ':' chars >>= afterDigits 2 with
  | some rest => afterFraction rest
  | none => chars

def afterZone (chars : List Char) : List Char :=
  (afterMark 'Z' chars
    <|> (afterMark '+' chars >>= afterClock)
    <|> (afterMark '-' chars >>= afterClock)).getD chars

def afterTime (chars : List Char) : List Char :=
  match afterMark 'T' chars >>= afterClock with
  | some rest => afterZone (afterSeconds rest)
  | none => chars

def afterLiteral (chars : List Char) : Option (List Char) :=
  (afterDate chars).map afterTime

/-- Reads a date-time literal inside the window: its characters and what follows
them. -/
def read? (chars : List Char) : Option (List Char × List Char) :=
  let seen := (chars.take window).takeWhile isDateTimeChar
  (afterLiteral seen).map fun unread => chars.splitAt (seen.length - unread.length)

theorem read?_append {chars literal rest : List Char}
    (found : read? chars = some (literal, rest)) : literal ++ rest = chars := by
  simp only [read?, Option.map_eq_some_iff, List.splitAt_eq, Prod.mk.injEq] at found
  obtain ⟨unread, _, rfl, rfl⟩ := found
  exact List.take_append_drop _ _

end QueryClause.DateTime
