import QueryClause.Token.Quoted
import QueryClause.Token.DateTime
import QueryClause.Token.Word
import QueryClause.Text.Blank

/-!
# Classes of characters

How the classes of characters that scanning looks at lie to each other. A stop is a
character that no token goes on with, strings apart.
-/

namespace QueryClause

open QueryClause.Text

/-- The characters that end every token but a string: blanks, parentheses, commas
and quotes. -/
def isStop (char : Char) : Bool :=
  isBlank char || char == '(' || char == ')' || char == ',' || char == Quoted.quote

/-- A text that is empty or begins with a stop. -/
def Stops (chars : List Char) : Prop :=
  ∀ char ∈ chars.head?, isStop char = true

@[simp]
theorem stops_cons {char : Char} {rest : List Char} :
    Stops (char :: rest) ↔ isStop char = true := by
  simp [Stops]

/-- The blanks are few, so that each of them can be looked up in the other classes. -/
theorem blankTable_apart :
    ∀ range ∈ blankTable, ∀ offset < range.2 + 1 - range.1,
      Word.isPart (Char.ofNat (range.1 + offset)) = false ∧
        DateTime.isDateTimeChar (Char.ofNat (range.1 + offset)) = false ∧
        Char.ofNat (range.1 + offset) ∉ ['(', ')', ',', '/', Quoted.quote, '$'] := by
  decide +kernel

theorem apart_of_isBlank {char : Char} (blank : isBlank char = true) :
    Word.isPart char = false ∧ DateTime.isDateTimeChar char = false ∧
      char ∉ ['(', ')', ',', '/', Quoted.quote, '$'] := by
  obtain ⟨range, mem, least, greatest⟩ := (covers_eq_true_iff _ _).mp blank
  have apart := blankTable_apart range mem (char.toNat - range.1) (by omega)
  rwa [Nat.add_sub_cancel' least, Char.ofNat_toNat] at apart

/-- A stop is no part of a word, of a number, of a date-time or of a path. -/
theorem apart_of_isStop {char : Char} (stop : isStop char = true) :
    Word.isPart char = false ∧ DateTime.isDateTimeChar char = false ∧ char ≠ '/' := by
  simp only [isStop, Bool.or_eq_true, beq_iff_eq] at stop
  rcases stop with (((blank | rfl) | rfl) | rfl) | rfl
  · obtain ⟨noPart, noDate, noMark⟩ := apart_of_isBlank blank
    exact ⟨noPart, noDate, by simp_all⟩
  · decide
  · decide
  · decide
  · decide

/-- The ASCII digits in the other classes. -/
theorem digits_apart :
    ∀ offset < 10,
      Word.isPart (Char.ofNat (48 + offset)) = true ∧
        Word.isStart (Char.ofNat (48 + offset)) = false ∧
        DateTime.isDateTimeChar (Char.ofNat (48 + offset)) = true ∧
        isBlank (Char.ofNat (48 + offset)) = false ∧
        Char.ofNat (48 + offset) ∉ ['(', ')', ',', '/', Quoted.quote, '$', '-', '.'] := by
  decide +kernel

theorem apart_of_isDigit {char : Char} (digit : char.isDigit = true) :
    Word.isPart char = true ∧ Word.isStart char = false ∧
      DateTime.isDateTimeChar char = true ∧ isBlank char = false ∧
      char ∉ ['(', ')', ',', '/', Quoted.quote, '$', '-', '.'] := by
  have bounds : 48 ≤ char.toNat ∧ char.toNat ≤ 57 := by
    simpa [Char.isDigit, UInt32.le_iff_toNat_le] using digit
  have apart := digits_apart (char.toNat - 48) (by omega)
  rwa [Nat.add_sub_cancel' bounds.1, Char.ofNat_toNat] at apart

/-- What can begin a word begins no other token. -/
theorem apart_of_isStart {char : Char} (starts : Word.isStart char = true) :
    char.isDigit = false ∧ isBlank char = false ∧
      char ∉ ['(', ')', ',', '/', Quoted.quote, '$', '-'] := by
  refine ⟨?_, ?_, ?_⟩
  · cases digit : char.isDigit with
    | false => rfl
    | true => simp [(apart_of_isDigit digit).2.1] at starts
  · cases blank : isBlank char with
    | false => rfl
    | true =>
        have part := Word.isPart_of_isStart starts
        simp [(apart_of_isBlank blank).1] at part
  · intro mark
    simp only [List.mem_cons, List.not_mem_nil, or_false] at mark
    rcases mark with rfl | rfl | rfl | rfl | rfl | rfl | rfl <;> exact absurd starts (by decide)

end QueryClause
