import QueryClause.Text.Alphabetic
import QueryClause.Text.Numeric

/-!
# Words and paths

A word begins with an alphabetic character or an underscore and goes on with
alphabetic and numeric characters and underscores. A path is a word followed by
more words, each after a slash.
-/

namespace QueryClause.Word

open QueryClause.Text

def isStart (char : Char) : Bool :=
  isAlphabetic char || char == '_'

def isPart (char : Char) : Bool :=
  isAlphabetic char || isNumeric char || char == '_'

def begins : List Char → Bool
  | [] => false
  | char :: _ => isStart char

/-- Reads the rest of a path, from inside one of its words: the characters of
words, and each slash that a word follows. -/
def readPath : List Char → List Char × List Char
  | [] => ([], [])
  | char :: rest =>
      if isPart char || (char == '/' && begins rest) then
        let (path, after) := readPath rest
        (char :: path, after)
      else ([], char :: rest)

theorem isPart_of_isStart {char : Char} (starts : isStart char = true) : isPart char = true := by
  simp only [isStart, isPart, Bool.or_eq_true] at starts ⊢
  exact starts.imp Or.inl id

theorem readPath_append (chars : List Char) :
    (readPath chars).1 ++ (readPath chars).2 = chars := by
  induction chars with
  | nil => rfl
  | cons char rest ih =>
      unfold readPath
      split
      · exact congrArg (char :: ·) ih
      · rfl

end QueryClause.Word
