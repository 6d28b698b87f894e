import QueryClause.Column

/-!
# Reading quoted names

The SQL of a column is a dotted name whose parts are quoted. Where neither a quote nor a
point follows it, reading the text gives back the parts and stops behind the name. So the
text tells the column, and where its name ends.
-/

namespace QueryClause

namespace Sql

/-- Reads what follows the opening quote of an identifier: its content, in which a doubled
quote stands for one, and the text after the closing quote. -/
def readQuoted? : List Char → Option (List Char × List Char)
  | [] => none
  | [char] => if char = Column.quote then some ([], []) else none
  | char :: next :: rest =>
      if char = Column.quote then
        if next = Column.quote then
          (readQuoted? rest).map fun (content, after) => (Column.quote :: content, after)
        else some ([], next :: rest)
      else (readQuoted? (next :: rest)).map fun (content, after) => (char :: content, after)

theorem length_lt_of_readQuoted? {chars content rest : List Char}
    (found : readQuoted? chars = some (content, rest)) : rest.length < chars.length := by
  fun_induction readQuoted? chars generalizing content rest with
  | case1 => simp at found
  | case2 =>
      simp only [Option.some.injEq, Prod.mk.injEq] at found
      obtain ⟨rfl, rfl⟩ := found
      simp
  | case3 => simp at found
  | case4 _ ih =>
      obtain ⟨⟨inner, after⟩, read, same⟩ := Option.map_eq_some_iff.mp found
      cases same
      have shorter := ih read
      simp only [List.length_cons]
      omega
  | case5 =>
      simp only [Option.some.injEq, Prod.mk.injEq] at found
      obtain ⟨rfl, rfl⟩ := found
      simp
  | case6 _ _ _ _ ih =>
      obtain ⟨⟨inner, after⟩, read, same⟩ := Option.map_eq_some_iff.mp found
      cases same
      have shorter := ih read
      simp only [List.length_cons] at shorter ⊢
      omega

/-- Reads a dotted name: quoted parts with points between them. -/
def readName? : List Char → Option (List String × List Char)
  | [] => none
  | char :: chars =>
      if char = Column.quote then
        match _found : readQuoted? chars with
        | none => none
        | some (content, rest) =>
            if rest.head? = some '.' then
              (readName? rest.tail).map fun (parts, after) => (String.ofList content :: parts, after)
            else some ([String.ofList content], rest)
      else none
termination_by chars => chars.length
decreasing_by
  have shorter := length_lt_of_readQuoted? _found
  simp only [List.length_tail, List.length_cons]
  omega

/-- The text does not go on with a name: it begins with neither a quote nor a point. -/
def EndsName (rest : List Char) : Prop :=
  ∀ char ∈ rest.head?, char ≠ Column.quote ∧ char ≠ '.'

/-- A content with its quotes doubled is read back, where no further quote follows. -/
theorem readQuoted?_doubled (content : List Char) {rest : List Char}
    (apart : rest.head? ≠ some Column.quote) :
    readQuoted? (content.flatMap (fun char =>
        if char = Column.quote then [Column.quote, Column.quote] else [char]) ++
      Column.quote :: rest) = some (content, rest) := by
  induction content with
  | nil =>
      cases rest with
      | nil => simp [readQuoted?]
      | cons next others =>
          have different : next ≠ Column.quote := fun same => apart (by simp [same])
          simp [readQuoted?, different]
  | cons char others ih =>
      rw [List.flatMap_cons, List.append_assoc]
      by_cases same : char = Column.quote
      · rw [if_pos same]
        simp [readQuoted?, ih, same]
      · rw [if_neg same]
        generalize behind : others.flatMap (fun char =>
          if char = Column.quote then [Column.quote, Column.quote] else [char]) ++
            Column.quote :: rest = more at ih ⊢
        cases more with
        | nil => simp at behind
        | cons next later => simp [readQuoted?, same, ih]

/-- Behind a quoted part the name goes on at a point, and ends at anything else. -/
theorem readName?_quotePart {part : String} {chars : List Char}
    (apart : chars.head? ≠ some Column.quote) :
    readName? ((Column.quotePart part).toList ++ chars) =
      if chars.head? = some '.' then
        (readName? chars.tail).map fun (parts, after) => (part :: parts, after)
      else some ([part], chars) := by
  have inside := readQuoted?_doubled part.toList apart
  rw [Column.quotePart, String.toList_ofList, List.cons_append, List.cons_append,
    List.append_assoc, List.singleton_append, readName?, if_pos rfl]
  split
  · rename_i missing
    rw [inside] at missing
    cases missing
  · rename_i found
    rw [inside] at found
    cases found
    rw [String.ofList_toList]

theorem readName?_parts {rest : List Char} (ends : EndsName rest) : (parts : List String) →
    parts ≠ [] →
      readName? ((".".intercalate (parts.map Column.quotePart)).toList ++ rest) =
        some (parts, rest)
  | [], nonempty => absurd rfl nonempty
  | [part], _ => by
      have apart : rest.head? ≠ some Column.quote := fun same => (ends _ same).1 rfl
      have noPoint : rest.head? ≠ some '.' := fun same => (ends _ same).2 rfl
      rw [List.map_singleton, String.intercalate_singleton, readName?_quotePart apart,
        if_neg noPoint]
  | first :: second :: others, _ => by
      have behind := readName?_parts ends (second :: others) (List.cons_ne_nil _ _)
      rw [List.map_cons] at behind
      have point : ".".toList = ['.'] := rfl
      rw [List.map_cons, List.map_cons, String.intercalate_cons_cons, String.toList_append,
        String.toList_append, List.append_assoc, List.append_assoc, point, List.singleton_append,
        readName?_quotePart (by simp [Column.quote]), List.head?_cons, if_pos rfl, List.tail_cons,
        behind, Option.map_some]

/-- The SQL of a column is read back where nothing goes on with its name. -/
theorem readName?_column (column : Column) {rest : List Char} (ends : EndsName rest) :
    readName? (column.sql.toList ++ rest) = some (column.parts, rest) :=
  readName?_parts ends column.parts column.parts_ne_nil

end Sql

theorem Column.eq_of_parts {first second : Column} (same : first.parts = second.parts) :
    first = second := by
  cases first
  cases second
  cases same
  rfl

/-- The SQL of a column tells the column, and where its name ends. -/
theorem Column.sql_append_inj {first second : Column} {rest other : List Char}
    (ends : Sql.EndsName rest) (endsOther : Sql.EndsName other)
    (same : first.sql.toList ++ rest = second.sql.toList ++ other) :
    first = second ∧ rest = other := by
  have read := Sql.readName?_column first ends
  rw [same, Sql.readName?_column second endsOther] at read
  obtain ⟨parts, behind⟩ := Prod.mk.inj (Option.some.inj read)
  exact ⟨Column.eq_of_parts parts.symm, behind.symm⟩

end QueryClause
