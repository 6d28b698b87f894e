import QueryClause.Text.Blank

/-!
# Cutting a text into pieces

A text is cut at every separator, so that it has one piece more than it has
separators. Words are the nonempty pieces between blanks.
-/

namespace QueryClause.Text

def pieces (isSeparator : Char → Bool) : List Char → List (List Char)
  | [] => [[]]
  | char :: rest =>
      if isSeparator char then [] :: pieces isSeparator rest
      else
        match pieces isSeparator rest with
        | [] => [[char]]
        | piece :: others => (char :: piece) :: others

theorem pieces_ne_nil (isSeparator : Char → Bool) (chars : List Char) :
    pieces isSeparator chars ≠ [] := by
  cases chars with
  | nil => simp [pieces]
  | cons char rest =>
      unfold pieces
      split
      · exact List.cons_ne_nil _ _
      · split <;> exact List.cons_ne_nil _ _

theorem separator_free_of_mem_pieces (isSeparator : Char → Bool) (chars : List Char) :
    ∀ piece ∈ pieces isSeparator chars, ∀ char ∈ piece, isSeparator char = false := by
  induction chars with
  | nil => simp [pieces]
  | cons first rest ih =>
      unfold pieces
      split
      · intro piece mem
        rcases List.mem_cons.mp mem with rfl | mem
        · simp
        · exact ih piece mem
      · rename_i free
        split
        · rename_i none_left
          exact absurd none_left (pieces_ne_nil isSeparator rest)
        · rename_i head others cut
          intro piece mem char inside
          rcases List.mem_cons.mp mem with rfl | mem
          · rcases List.mem_cons.mp inside with rfl | inside
            · simpa using free
            · exact ih head (by simp [cut]) char inside
          · exact ih piece (by simp [cut, mem]) char inside

theorem intercalate_cons {separator : List Char} (first : List Char) {others : List (List Char)}
    (more : others ≠ []) :
    separator.intercalate (first :: others) = first ++ separator ++ separator.intercalate others := by
  cases others with
  | nil => exact absurd rfl more
  | cons second rest => simp [List.intercalate]

/-- The pieces with the separator between them make up the text. -/
theorem intercalate_pieces (separator : Char) (chars : List Char) :
    [separator].intercalate (pieces (fun char => char == separator) chars) = chars := by
  induction chars with
  | nil => rfl
  | cons first rest ih =>
      have nonempty := pieces_ne_nil (fun char => char == separator) rest
      by_cases same : first = separator
      · simp only [pieces, same, beq_self_eq_true, if_true]
        rw [intercalate_cons [] nonempty, ih]
        rfl
      · cases cut : pieces (fun char => char == separator) rest with
        | nil => exact absurd cut nonempty
        | cons piece others =>
            have other : (first == separator) = false := by simpa using same
            simp only [pieces, other, cut, Bool.false_eq_true, if_false]
            rw [cut] at ih
            cases others with
            | nil => simpa [List.intercalate] using ih
            | cons second last =>
                rw [intercalate_cons _ (List.cons_ne_nil _ _)] at ih ⊢
                simpa using ih

/-- The words of a text: its nonempty pieces between blanks. -/
def words (chars : List Char) : List (List Char) :=
  (pieces isBlank chars).filter fun piece => !piece.isEmpty

end QueryClause.Text
