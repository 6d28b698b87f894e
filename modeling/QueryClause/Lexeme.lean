import QueryClause.Span
import QueryClause.Text.Blank
import QueryClause.Token.Scan

/-!
# Lexemes

A lexeme is a token with its place in the text and its written form. A cursor
walks a text from lexeme to lexeme, skipping blanks. It goes on after a fault
from where the faulty characters ended, and stays at the end once it is there.
-/

namespace QueryClause

structure Lexeme where
  token : Token
  span : Span
  source : String
  deriving DecidableEq

structure LexError where
  fault : Fault
  position : Nat
  deriving DecidableEq

def LexError.message (error : LexError) : String :=
  let position := error.position
  match error.fault with
  | .unexpectedCharacter char => s!"unexpected character '{char}' at position {position}"
  | .unterminatedString => s!"unterminated string starting at position {position}"
  | .invalidNumber text => s!"invalid number '{text}' at position {position}"

/-- A place in a text: the number of characters before it, and those after it. -/
structure Cursor where
  position : Nat
  rest : List Char
  deriving DecidableEq

namespace Cursor

def start (text : String) : Cursor :=
  ⟨0, text.toList⟩

def skipBlanks (cursor : Cursor) : Cursor :=
  ⟨cursor.position + (cursor.rest.takeWhile Text.isBlank).length,
    cursor.rest.dropWhile Text.isBlank⟩

def next (cursor : Cursor) : Except LexError Lexeme × Cursor :=
  let origin := cursor.skipBlanks
  let scanned := scan origin.rest
  let after : Cursor := ⟨origin.position + scanned.taken.length, scanned.rest⟩
  match scanned.outcome with
  | .ok token =>
      (.ok ⟨token, ⟨origin.position, after.position⟩, String.ofList scanned.taken⟩, after)
  | .error fault => (.error ⟨fault, origin.position⟩, after)

theorem skipBlanks_total (cursor : Cursor) :
    cursor.skipBlanks.position + cursor.skipBlanks.rest.length =
      cursor.position + cursor.rest.length := by
  have parts : cursor.rest.takeWhile Text.isBlank ++ cursor.rest.dropWhile Text.isBlank =
      cursor.rest := List.takeWhile_append_dropWhile
  have lengths := congrArg List.length parts
  simp only [List.length_append] at lengths
  simp only [skipBlanks]
  omega

theorem next_cursor (cursor : Cursor) :
    cursor.next.2 = ⟨cursor.skipBlanks.position + (scan cursor.skipBlanks.rest).taken.length,
      (scan cursor.skipBlanks.rest).rest⟩ := by
  unfold next
  dsimp only
  split <;> rfl

/-- A cursor goes from the start of the text to its end, and no further. -/
theorem next_total (cursor : Cursor) :
    cursor.next.2.position + cursor.next.2.rest.length =
      cursor.position + cursor.rest.length := by
  have skipped := skipBlanks_total cursor
  have lengths := congrArg List.length (scan_append cursor.skipBlanks.rest)
  simp only [List.length_append] at lengths
  rw [next_cursor]
  dsimp only
  omega

theorem position_le_next (cursor : Cursor) : cursor.position ≤ cursor.next.2.position := by
  rw [next_cursor]
  dsimp only [skipBlanks]
  omega

/-- The results of a number of calls of `next`, each from where the one before it
ended. -/
def take : Nat → Cursor → List (Except LexError Lexeme)
  | 0, _ => []
  | count + 1, cursor => cursor.next.1 :: take count cursor.next.2

def isLast : Except LexError Lexeme → Bool
  | .error _ => true
  | .ok lexeme => lexeme.token = .endOfInput

/-- The results of `next` up to the first that ends the walk. At most `count` of
them are made. -/
def takeUntilLast : Nat → Cursor → List (Except LexError Lexeme)
  | 0, _ => []
  | count + 1, cursor =>
      if isLast cursor.next.1 then [cursor.next.1]
      else cursor.next.1 :: takeUntilLast count cursor.next.2

end Cursor

/-- The lexemes of a text up to its end or its first fault, either included. A
text has at most one lexeme for each character, and one for its end. -/
def lexemes (text : String) : List (Except LexError Lexeme) :=
  (Cursor.start text).takeUntilLast (text.toList.length + 1)

end QueryClause
