import QueryClause.Text.Pieces

/-!
# The pieces of a text

Cutting a text into pieces is what the library calls splitting. A piece is empty where the text
is, where a separator stands at either end of it, and between two separators.
-/

namespace QueryClause.Text

/-- Pieces are the parts of a list that is split. -/
theorem pieces_eq_splitOnP (isSeparator : Char → Bool) (chars : List Char) :
    pieces isSeparator chars = chars.splitOnP isSeparator := by
  induction chars with
  | nil => rw [pieces, List.splitOnP_nil]
  | cons char rest ih =>
      rw [pieces, List.splitOnP_cons_eq_if_modifyHead, ← ih]
      split
      · rfl
      · split
        · rename_i nothing
          exact absurd nothing (pieces_ne_nil isSeparator rest)
        · rename_i cut
          rw [cut, List.modifyHead_cons]

variable (separator : Char)

/-- The first piece is empty where the text is, or begins with a separator. -/
theorem head?_pieces_ne_nil_iff (chars : List Char) :
    (pieces (fun char => char == separator) chars).head? ≠ some [] ↔
      chars ≠ [] ∧ chars.head? ≠ some separator := by
  cases chars with
  | nil => simp [pieces]
  | cons char rest =>
      obtain ⟨piece, others, cut⟩ := List.exists_cons_of_ne_nil
        (pieces_ne_nil (fun char => char == separator) rest)
      by_cases same : char = separator <;> simp [pieces, cut, same]

/-- A later piece is empty where a separator ends the text or stands before another one. -/
theorem forall_mem_tail_pieces_iff (chars : List Char) :
    (∀ piece ∈ (pieces (fun char => char == separator) chars).tail, piece ≠ []) ↔
      chars.getLast? ≠ some separator ∧ ¬[separator, separator] <:+: chars := by
  induction chars with
  | nil => simp [pieces]
  | cons char rest ih =>
      obtain ⟨piece, others, cut⟩ := List.exists_cons_of_ne_nil
        (pieces_ne_nil (fun char => char == separator) rest)
      have first := head?_pieces_ne_nil_iff separator rest
      simp only [cut, List.tail_cons, List.head?_cons, ne_eq, Option.some.injEq] at ih first
      by_cases same : char = separator
      · -- The piece that was the first is now a later one.
        subst same
        simp only [pieces, beq_self_eq_true, if_true, cut, List.tail_cons, List.forall_mem_cons,
          ne_eq, first, ih]
        cases rest with
        | nil => simp
        | cons next more =>
            have pair : [char, char] <:+: char :: next :: more ↔
                next = char ∨ [char, char] <:+: next :: more := by
              rw [List.infix_cons_iff]
              simp [eq_comm]
            rw [List.getLast?_cons_cons, pair]
            simp only [reduceCtorEq, not_false_eq_true, true_and, List.head?_cons,
              Option.some.injEq, not_or]
            exact and_left_comm
      · have kept : pieces (fun char => char == separator) (char :: rest) =
            (char :: piece) :: others := by
          simp [pieces, same, cut]
        simp only [kept, List.tail_cons, ne_eq, ih]
        cases rest with
        | nil => simp [same, List.infix_cons_iff, Ne.symm same]
        | cons next more => simp [List.infix_cons_iff, Ne.symm same]

/-- No piece is empty exactly if the text is not empty, neither begins nor ends with a separator,
and has no two separators next to each other. -/
theorem forall_mem_pieces_iff (chars : List Char) :
    (∀ piece ∈ pieces (fun char => char == separator) chars, piece ≠ []) ↔
      chars ≠ [] ∧ chars.head? ≠ some separator ∧ chars.getLast? ≠ some separator ∧
        ¬[separator, separator] <:+: chars := by
  obtain ⟨piece, others, cut⟩ := List.exists_cons_of_ne_nil
    (pieces_ne_nil (fun char => char == separator) chars)
  have first := head?_pieces_ne_nil_iff separator chars
  have later := forall_mem_tail_pieces_iff separator chars
  rw [cut, List.head?_cons, ne_eq, Option.some.injEq] at first
  rw [cut, List.tail_cons] at later
  rw [cut, List.forall_mem_cons, ne_eq, first, later, and_assoc]

end QueryClause.Text
