import QueryClause.Proofs.ClosedSql
import QueryClause.Proofs.Pieces
import QueryClause.Proofs.QuotedNames

/-!
# The texts of columns

A dotted name is a column unless one of its parts is empty: unless it is empty, begins or ends
with a point, or has two points next to each other. The column keeps the text, and the SQL of
the column gives back its parts wherever it stands in a larger text.
-/

namespace QueryClause

namespace Column

open QueryClause.Text

/-- A text is a column exactly if no part of it is empty. -/
theorem exists_parse_iff {text : String} :
    (∃ column, parse text = .ok column) ↔ ∀ part ∈ split text, part ≠ "" := by
  unfold parse
  split
  · rename_i filled
    exact ⟨fun _ => filled, fun _ => ⟨_, rfl⟩⟩
  · rename_i missing
    simp [missing]

theorem forall_mem_split_iff {text : String} :
    (∀ part ∈ split text, part ≠ "") ↔
      text ≠ "" ∧ text.toList.head? ≠ some '.' ∧ text.toList.getLast? ≠ some '.' ∧
        ¬['.', '.'] <:+: text.toList := by
  have empty (chars : List Char) : String.ofList chars = "" ↔ chars = [] := by
    rw [← String.toList_inj, String.toList_ofList]
    rfl
  have pieces := forall_mem_pieces_iff '.' text.toList
  rw [ne_eq, ← empty, String.ofList_toList] at pieces
  rw [ne_eq text, ← pieces, split, List.forall_mem_map]
  simp only [ne_eq, empty]

theorem split_display (column : Column) : split column.display = column.parts := by
  have parts : (['.'].intercalate (column.parts.map String.toList)).splitOnP
      (fun char => char == '.') = column.parts.map String.toList :=
    List.splitOn_intercalate '.' (List.forall_mem_map.mpr column.part_no_point)
      (by simpa using column.parts_ne_nil)
  have point : ".".toList = ['.'] := rfl
  rw [split, pieces_eq_splitOnP, display, String.toList_intercalate, point, parts, List.map_map]
  simp [Function.comp_def]

/-- Every column is what its text is read as. -/
theorem parse_display (column : Column) : parse column.display = .ok column := by
  have filled : ∀ part ∈ split column.display, part ≠ "" := by
    rw [split_display]
    exact column.part_ne_empty
  rw [parse, dif_pos filled]
  exact congrArg Except.ok (eq_of_parts (split_display column))

/-- The SQL of a column tells the column. -/
theorem sql_inj {first second : Column} (same : first.sql = second.sql) : first = second := by
  have nothing : Sql.EndsName [] := by simp [Sql.EndsName]
  exact (sql_append_inj nothing nothing (by rw [same])).1

/-- A text is read as the column that displays as it. -/
theorem parse_eq_ok_iff {text : String} {column : Column} :
    parse text = .ok column ↔ column.display = text := by
  refine ⟨display_of_parse, ?_⟩
  rintro rfl
  exact column.parse_display

end Column

/-- A text is a column exactly if it is not empty, neither begins nor ends with a point, and has
no two points next to each other; then the column displays as the text. The SQL of a column is
read back as its parts, and only the points between these stand outside of quotes, whatever
follows that does not go on with the name. Columns of different texts have different SQL. -/
theorem columns_survive_quoting :
    (∀ text : String, (∃ column, Column.parse text = .ok column) ↔
      text ≠ "" ∧ text.toList.head? ≠ some '.' ∧ text.toList.getLast? ≠ some '.' ∧
        ¬['.', '.'] <:+: text.toList) ∧
    (∀ (text : String) (column : Column),
      Column.parse text = .ok column ↔ column.display = text) ∧
    (∀ (column : Column) (rest : List Char), Sql.EndsName rest →
      Sql.readName? (column.sql.toList ++ rest) = some (column.parts, rest) ∧
        Sql.unquoted false (column.sql.toList ++ rest) =
          (Sql.unquoted false rest).map (List.replicate (column.parts.length - 1) '.' ++ ·)) ∧
    ∀ first second : Column, first.display ≠ second.display → first.sql ≠ second.sql := by
  refine ⟨fun text => ?_, fun text column => Column.parse_eq_ok_iff, fun column rest ends => ?_,
    fun first second different same => different (congrArg Column.display (Column.sql_inj same))⟩
  · rw [Column.exists_parse_iff, Column.forall_mem_split_iff]
  · have apart : rest.head? ≠ some Column.quote := fun same => (ends _ same).1 rfl
    exact ⟨Sql.readName?_column column ends, Sql.Reads.column_parts column.parts rest apart⟩

/-- The parts of `a"."` are `a"` and `"`, whose quotes are told from those around them. -/
theorem columns_survive_quoting_quotes :
    ∃ column other : Column, Column.parse "a\".\"" = .ok column ∧
      column.parts = ["a\"", "\""] ∧ column.sql = "\"a\"\"\".\"\"\"\"" ∧
      Sql.readName? (column.sql.toList ++ " ASC".toList) = some (["a\"", "\""], " ASC".toList) ∧
      column.sql ≠ other.sql := by
  let column : Column := ⟨["a\"", "\""], by simp, by simp, by decide⟩
  let other : Column := ⟨["a", "\"\""], by simp, by simp, by decide⟩
  have text : column.display = "a\".\"" := by decide
  have ends : Sql.EndsName " ASC".toList := by simp [Sql.EndsName, Column.quote]
  have different : column.display ≠ other.display := by decide
  exact ⟨column, other, (columns_survive_quoting.2.1 _ _).mpr text, rfl, by decide,
    (columns_survive_quoting.2.2.1 column _ ends).1,
    columns_survive_quoting.2.2.2 column other different⟩

end QueryClause
