/-!
# Ranges of code points

Properties of characters are given as tables of closed ranges of code points.
-/

namespace QueryClause.Text

/-- Whether one of the closed ranges of the table holds the code point. -/
def covers (table : List (Nat × Nat)) (code : Nat) : Bool :=
  table.any fun range => range.1 ≤ code && code ≤ range.2

theorem covers_eq_true_iff (table : List (Nat × Nat)) (code : Nat) :
    covers table code = true ↔ ∃ range ∈ table, range.1 ≤ code ∧ code ≤ range.2 := by
  simp [covers, List.any_eq_true]

end QueryClause.Text
