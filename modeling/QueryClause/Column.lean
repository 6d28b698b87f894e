import QueryClause.ConfigError
import QueryClause.Text.Pieces

/-!
# Columns

A column reference is a dotted name such as `entities.deletedAt`. In SQL each of
its parts is quoted on its own, so that a column is never more than an identifier.
-/

namespace QueryClause

/-- A column reference: at least one part, each not empty and without points. -/
structure Column where
  parts : List String
  parts_ne_nil : parts ≠ []
  part_ne_empty : ∀ part ∈ parts, part ≠ ""
  part_no_point : ∀ part ∈ parts, '.' ∉ part.toList
  deriving DecidableEq

namespace Column

def split (text : String) : List String :=
  (Text.pieces (fun char => char == '.') text.toList).map String.ofList

theorem split_ne_nil (text : String) : split text ≠ [] := by
  simp [split, Text.pieces_ne_nil]

theorem no_point_of_mem_split (text : String) :
    ∀ part ∈ split text, '.' ∉ part.toList := by
  intro part mem inside
  obtain ⟨piece, pieceMem, rfl⟩ := List.mem_map.mp mem
  have free := Text.separator_free_of_mem_pieces (fun char => char == '.') text.toList
    piece pieceMem '.' (by simpa using inside)
  simp at free

def parse (text : String) : Except ConfigError Column :=
  if filled : ∀ part ∈ split text, part ≠ "" then
    .ok ⟨split text, split_ne_nil text, filled, no_point_of_mem_split text⟩
  else .error (.invalidColumn text)

def display (column : Column) : String :=
  ".".intercalate column.parts

theorem intercalate_split (text : String) : ".".intercalate (split text) = text := by
  apply String.toList_inj.mp
  rw [String.toList_intercalate]
  simpa [split, Function.comp_def] using Text.intercalate_pieces '.' text.toList

/-- A column displays as the text it was read from. -/
theorem display_of_parse {text : String} {column : Column} (read : parse text = .ok column) :
    column.display = text := by
  unfold parse at read
  split at read
  · cases read
    exact intercalate_split text
  · cases read

def quote : Char := '"'

/-- A part as an SQL identifier, in which each quote is doubled. -/
def quotePart (part : String) : String :=
  String.ofList (quote ::
    part.toList.flatMap (fun char => if char = quote then [quote, quote] else [char]) ++ [quote])

def sql (column : Column) : String :=
  ".".intercalate (column.parts.map quotePart)

end Column

end QueryClause
