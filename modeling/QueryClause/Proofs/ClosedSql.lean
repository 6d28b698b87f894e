import Mathlib
import QueryClause.OrderBy
import QueryClause.Proofs.Compiles

/-!
# SQL that can stand inside a larger statement

The SQL of filters and sort orders ends outside quoted identifiers. Outside of them its
parentheses are balanced, and no character occurs that begins a string, a comment or
another statement.
-/

namespace QueryClause

namespace Sql

/-- Scans SQL from outside or from inside a quoted identifier, and tells the characters
outside quoted identifiers. A doubled quote inside an identifier belongs to it. There is
no result if the text ends inside an identifier. -/
def unquoted : (inside : Bool) → List Char → Option (List Char)
  | false, [] => some []
  | false, char :: rest =>
      if char = Column.quote then unquoted true rest
      else (unquoted false rest).map (char :: ·)
  | true, [] => none
  | true, [char] => if char = Column.quote then some [] else none
  | true, char :: next :: rest =>
      if char = Column.quote then
        if next = Column.quote then unquoted true rest else unquoted false (next :: rest)
      else unquoted true (next :: rest)

/-- The characters that begin a string or a comment, end a statement or escape. -/
def hazards : List Char :=
  ['\'', ';', '-', '/', '*', '\\']

/-- Characters whose parentheses are balanced, where no prefix closes more than it
opened, and without hazards. -/
structure Tame (chars : List Char) : Prop where
  settled : chars.count '(' = chars.count ')'
  opened : ∀ length, (chars.take length).count ')' ≤ (chars.take length).count '('
  harmless : ∀ char ∈ chars, char ∉ hazards

/-- A text that ends outside quoted identifiers and is tame outside of them. -/
def Closed (sql : String) : Prop :=
  ∃ bare, unquoted false sql.toList = some bare ∧ Tame bare

/-- Characters without quotes, parentheses and hazards. -/
def quiet (chars : List Char) : Bool :=
  chars.all fun char => !(Column.quote :: '(' :: ')' :: hazards).contains char

/-! ## Tame characters -/

theorem not_mem_of_quiet {chars : List Char} (isQuiet : quiet chars = true) :
    ∀ char ∈ chars, char ≠ Column.quote ∧ char ≠ '(' ∧ char ≠ ')' ∧ char ∉ hazards := by
  intro char mem
  have apart := List.all_eq_true.mp isQuiet char mem
  simpa [not_or] using apart

theorem quiet_of_isDigit {chars : List Char} (digits : ∀ char ∈ chars, char.isDigit = true) :
    quiet chars = true := by
  have noDigit : (Column.quote :: '(' :: ')' :: hazards).all (fun mark => !mark.isDigit) = true := by
    decide
  refine List.all_eq_true.mpr fun char mem => ?_
  rw [Bool.not_eq_true', Bool.eq_false_iff]
  intro mark
  have apart := List.all_eq_true.mp noDigit char (List.contains_iff_mem.mp mark)
  simp [digits char mem] at apart

namespace Tame

theorem of_quiet {chars : List Char} (isQuiet : quiet chars = true) : Tame chars := by
  have apart := not_mem_of_quiet isQuiet
  have noOpen : '(' ∉ chars := fun mem => (apart _ mem).2.1 rfl
  have noClose : ')' ∉ chars := fun mem => (apart _ mem).2.2.1 rfl
  constructor
  · rw [List.count_eq_zero.mpr noOpen, List.count_eq_zero.mpr noClose]
  · intro length
    have noCloseTaken : ')' ∉ chars.take length := fun mem => noClose (List.mem_of_mem_take mem)
    rw [List.count_eq_zero.mpr noCloseTaken]
    exact Nat.zero_le _
  · intro char mem
    exact (apart char mem).2.2.2

theorem append {first second : List Char} (tameFirst : Tame first) (tameSecond : Tame second) :
    Tame (first ++ second) := by
  constructor
  · rw [List.count_append, List.count_append, tameFirst.settled, tameSecond.settled]
  · intro length
    have opensFirst := tameFirst.opened length
    have opensSecond := tameSecond.opened (length - first.length)
    rw [List.take_append, List.count_append, List.count_append]
    omega
  · intro char mem
    rcases List.mem_append.mp mem with mem | mem
    · exact tameFirst.harmless char mem
    · exact tameSecond.harmless char mem

/-- Tame characters in parentheses. -/
theorem wrap {inner : List Char} (tame : Tame inner) : Tame ('(' :: (inner ++ [')'])) := by
  constructor
  · simp [tame.settled]
  · intro length
    cases length with
    | zero => simp
    | succ length =>
        have opens := tame.opened length
        -- The first parenthesis makes up for the last one, whether a prefix has it or not.
        have last : ([')'].take (length - inner.length)).count ')' ≤ 1 :=
          Nat.le_trans List.count_le_length (List.length_take_le' _ _)
        rw [List.take_succ_cons, List.take_append, List.count_cons_of_ne (by decide),
          List.count_cons_self, List.count_append, List.count_append]
        omega
  · intro char mem
    simp only [List.mem_cons, List.mem_append, List.not_mem_nil, or_false] at mem
    rcases mem with rfl | mem | rfl
    · decide
    · exact tame.harmless char mem
    · decide

end Tame

/-! ## Texts that are read in any context -/

/-- Outside quoted identifiers, the text reads as the characters `bare`, wherever no
quote follows it. -/
def Reads (text bare : List Char) : Prop :=
  ∀ rest, rest.head? ≠ some Column.quote →
    unquoted false (text ++ rest) = (unquoted false rest).map (bare ++ ·)

namespace Reads

theorem nil : Reads [] [] := by
  intro rest _
  simp

/-- Characters without quotes read as they are, whatever follows them. -/
theorem plain_append {text more bare : List Char} (free : ∀ char ∈ text, char ≠ Column.quote)
    (reads : Reads more bare) : Reads (text ++ more) (text ++ bare) := by
  intro rest apart
  induction text with
  | nil => exact reads rest apart
  | cons char others ih =>
      rw [List.forall_mem_cons] at free
      simp only [List.cons_append, unquoted, if_neg free.1, ih free.2, Option.map_map]
      rfl

theorem append {first second bare other : List Char} (readsFirst : Reads first bare)
    (readsSecond : Reads second other) (apart : second.head? ≠ some Column.quote) :
    Reads (first ++ second) (bare ++ other) := by
  intro rest restApart
  have behind : (second ++ rest).head? ≠ some Column.quote := by
    cases second with
    | nil => exact restApart
    | cons char others => exact apart
  rw [List.append_assoc, readsFirst _ behind, readsSecond rest restApart, Option.map_map]
  simp [Function.comp_def]

/-- The content of a quoted identifier is skipped. -/
theorem unquoted_doubled (content : List Char) {rest : List Char}
    (apart : rest.head? ≠ some Column.quote) :
    unquoted true (content.flatMap (fun char =>
        if char = Column.quote then [Column.quote, Column.quote] else [char]) ++
      Column.quote :: rest) = unquoted false rest := by
  induction content with
  | nil =>
      cases rest with
      | nil => simp [unquoted]
      | cons next others =>
          have different : next ≠ Column.quote := fun same => apart (by simp [same])
          simp [unquoted, different]
  | cons char others ih =>
      rw [List.flatMap_cons, List.append_assoc]
      by_cases same : char = Column.quote
      · rw [if_pos same, ← ih]
        simp [unquoted]
      · rw [if_neg same, ← ih]
        generalize behind : others.flatMap (fun char =>
          if char = Column.quote then [Column.quote, Column.quote] else [char]) ++
            Column.quote :: rest = more
        cases more with
        | nil => simp at behind
        | cons next later => simp [unquoted, same]

theorem quotePart (part : String) : Reads (Column.quotePart part).toList [] := by
  intro rest apart
  have skipped := unquoted_doubled part.toList apart
  rw [Column.quotePart, String.toList_ofList, List.cons_append, List.cons_append,
    List.append_assoc, unquoted, if_pos rfl]
  simpa using skipped

/-- A column reads as the points between its parts. -/
theorem column_parts : (parts : List String) →
    Reads (".".intercalate (parts.map Column.quotePart)).toList
      (List.replicate (parts.length - 1) '.')
  | [] => .nil
  | [part] => by simpa using quotePart part
  | first :: second :: rest => by
      have reads := column_parts (second :: rest)
      have point : Reads (['.'] ++ _) (['.'] ++ _) :=
        reads.plain_append (by simp [Column.quote])
      have joined := (quotePart first).append point (by simp [Column.quote])
      rw [List.map_cons, List.map_cons, String.intercalate_cons_cons]
      simpa [List.replicate_succ] using joined

end Reads

end Sql

/-! ## Fragments -/

namespace Fragment

open QueryClause.Sql

/-- A fragment whose text is tame outside quoted identifiers, however its placeholders
are numbered and whatever but a quote follows it. -/
def Closed (fragment : Fragment) : Prop :=
  ∀ next, ∃ bare, Reads (sqlFrom next fragment.segments).toList bare ∧ Tame bare

namespace Closed

theorem empty : Fragment.empty.Closed := fun _ => ⟨[], .nil, .of_quiet rfl⟩

theorem identifier (column : Column) : (Fragment.identifier column).Closed := by
  intro next
  have reads := Reads.column_parts column.parts
  refine ⟨_, by simpa [Fragment.identifier, sqlFrom, Column.sql] using reads, .of_quiet ?_⟩
  simp [quiet, hazards, Column.quote]

/-- A keyword between two fragments keeps them apart. -/
theorem between {first second : Fragment} {keyword : String} (closedFirst : first.Closed)
    (closedSecond : second.Closed) (isQuiet : quiet keyword.toList = true)
    (nonempty : keyword.toList ≠ []) : (first ++ .keyword keyword ++ second).Closed := by
  intro next
  have apart := not_mem_of_quiet isQuiet
  obtain ⟨bare, reads, tame⟩ := closedFirst next
  obtain ⟨other, readsSecond, tameSecond⟩ :=
    closedSecond (next + (first.segments.filterMap Segment.value?).length)
  have readsBehind := readsSecond.plain_append fun char mem => (apart char mem).1
  have noQuote : (keyword.toList ++ (sqlFrom (next +
      (first.segments.filterMap Segment.value?).length) second.segments).toList).head? ≠
        some Column.quote := by
    cases shape : keyword.toList with
    | nil => exact absurd shape nonempty
    | cons char others =>
        intro same
        exact (apart char (by simp [shape])).1 (Option.some.inj same)
  refine ⟨bare ++ (keyword.toList ++ other), ?_, tame.append ((Tame.of_quiet isQuiet).append
    tameSecond)⟩
  have joined := reads.append readsBehind noQuote
  rw [segments_append, segments_append, List.append_assoc, sqlFrom_append]
  simpa [Fragment.keyword, sqlFrom] using joined

/-- A fragment after an opening parenthesis and before its closing one. -/
theorem enclose {before inner : Fragment} (front behind : List Char)
    (opens : ∀ next, (sqlFrom next before.segments).toList = front ++ '(' :: behind)
    (quietFront : quiet front = true) (quietBehind : quiet behind = true)
    (closed : inner.Closed) : (before ++ inner ++ .keyword ")").Closed := by
  intro next
  obtain ⟨bare, reads, tame⟩ := closed (next + (before.segments.filterMap Segment.value?).length)
  have readsClose : Reads ([')'] ++ []) ([')'] ++ []) :=
    Reads.nil.plain_append (by simp [Column.quote])
  have readsInner := reads.append readsClose (by simp [Column.quote])
  have free : ∀ char ∈ front ++ '(' :: behind, char ≠ Column.quote := by
    intro char mem
    simp only [List.mem_append, List.mem_cons] at mem
    rcases mem with mem | rfl | mem
    · exact (not_mem_of_quiet quietFront char mem).1
    · decide
    · exact (not_mem_of_quiet quietBehind char mem).1
  refine ⟨front ++ '(' :: (behind ++ bare ++ [')']), ?_, ?_⟩
  · have readsWhole := readsInner.plain_append free
    rw [segments_append, segments_append, List.append_assoc, sqlFrom_append, String.toList_append,
      opens, sqlFrom_append, String.toList_append]
    simpa [Fragment.keyword, sqlFrom] using readsWhole
  · exact (Tame.of_quiet quietFront).append ((Tame.of_quiet quietBehind).append tame).wrap

/-- A keyword on its own, if it is tame. -/
theorem keyword {text : String} (free : ∀ char ∈ text.toList, char ≠ Column.quote)
    (tame : Tame text.toList) : (Fragment.keyword text).Closed := by
  intro next
  refine ⟨text.toList, ?_, tame⟩
  have reads := Reads.nil.plain_append free
  simpa [Fragment.keyword, sqlFrom] using reads

/-- A placeholder. -/
theorem value (bound : Value) : (Fragment.value bound).Closed := by
  intro next
  have digits : quiet next.repr.toList = true := by
    rw [Nat.toList_repr]
    exact quiet_of_isDigit fun char mem =>
      Nat.isDigit_of_mem_toDigits (by decide) (by decide) mem
  have isQuiet : quiet ('$' :: next.repr.toList) = true := by
    rw [quiet, List.all_cons, ← quiet, digits]
    decide
  have reads := Reads.nil.plain_append fun char mem => (not_mem_of_quiet isQuiet char mem).1
  exact ⟨_, by simpa [Fragment.value, sqlFrom] using reads, .of_quiet (by simpa using isQuiet)⟩

/-- Closed fragments with a keyword between any two. -/
theorem join {separator : String} (isQuiet : quiet separator.toList = true)
    (nonempty : separator.toList ≠ []) : (fragments : List Fragment) →
      (∀ fragment ∈ fragments, fragment.Closed) → (Fragment.join separator fragments).Closed
  | [], _ => empty
  | [last], closed => closed last List.mem_cons_self
  | first :: second :: rest, closed => by
      rw [List.forall_mem_cons] at closed
      exact closed.1.between (join isQuiet nonempty (second :: rest) closed.2) isQuiet nonempty

end Closed

/-- The text of a closed fragment is closed. -/
theorem Closed.sql {fragment : Fragment} (closed : fragment.Closed) (first : Nat) :
    Sql.Closed (fragment.renderFrom first).sql := by
  obtain ⟨bare, reads, tame⟩ := closed first
  have whole := reads [] (by simp)
  rw [List.append_nil] at whole
  exact ⟨bare, by simpa [renderFrom, unquoted] using whole, tame⟩

end Fragment

/-! ## Filters and sort orders -/

namespace Filter

open QueryClause.Sql

theorem closed_literalFragment (value : Value) : (literalFragment value).Closed := by
  cases value with
  | null => exact .keyword (by simp [Column.quote]) (.of_quiet (by decide))
  | _ => exact .value _

theorem quiet_operatorSql {operator : BinaryOp} {sql : String}
    (supported : operatorSql? operator = some sql) :
    quiet sql.toList = true ∧ sql.toList ≠ [] := by
  cases operator <;> cases supported <;> decide

theorem Compiler.Compiles.closed {compiler : Compiler} {expression : Expr} {compiled : Compiled}
    (compiles : compiler.Compiles expression compiled) : compiled.fragment.Closed := by
  induction compiles with
  | member => exact .identifier _
  | literal => exact closed_literalFragment _
  | not _ ih =>
      refine .enclose [] "NOT ".toList (fun next => ?_) rfl (by decide) ih
      simp [Fragment.keyword, Fragment.sqlFrom]
  | binary supported _ _ ihLeft ihRight =>
      obtain ⟨isQuiet, nonempty⟩ := quiet_operatorSql supported
      refine .enclose [] [] (fun next => ?_) rfl rfl (ihLeft.between ihRight isQuiet nonempty)
      simp [Fragment.keyword, Fragment.sqlFrom]
  | @extract _ _ _ part _ _ _ ih =>
      refine .enclose "EXTRACT".toList (part.keyword.toList ++ " FROM ".toList) (fun next => ?_)
        (by decide) (by cases part <;> decide) ih
      simp [Fragment.keyword, Fragment.sqlFrom]
  | now =>
      have tame := (Tame.of_quiet (by decide : quiet "now".toList = true)).append
        (Tame.of_quiet (by decide : quiet [] = true)).wrap
      exact .keyword (by simp [Column.quote]) tame
  | paren _ ih => exact ih

theorem Compiler.closed_excludeDeleted (compiler : Compiler) : compiler.excludeDeleted.Closed := by
  have closed := (Fragment.Closed.identifier compiler.deletedAt).between .empty
    (by decide : quiet " IS NULL".toList = true) (by decide)
  rwa [Fragment.append_empty] at closed

/-- Every accepted filter is closed, also the one of an absent or blank text. -/
theorem Compiler.closed_of_compile {compiler : Compiler} {text : Option String}
    {fragment : Fragment} (accepted : compiler.compile text = .ok fragment) : fragment.Closed := by
  rcases compile_eq_ok_iff.mp accepted with ⟨_, rfl⟩ | ⟨_, _, compiled, _, _, compiles, rfl⟩
  · exact compiler.closed_excludeDeleted
  · unfold restrict
    split
    · exact compiles.closed
    · exact compiles.closed.between compiler.closed_excludeDeleted (by decide) (by decide)

end Filter

namespace OrderBy

open QueryClause.Sql

theorem SortKey.closed (key : SortKey) : key.fragment.Closed := by
  have isQuiet : quiet key.direction.sql.toList = true ∧ key.direction.sql.toList ≠ [] := by
    cases key.direction <;> decide
  have closed := (Fragment.Closed.identifier key.column).between .empty isQuiet.1 isQuiet.2
  rwa [Fragment.append_empty] at closed

/-- Every accepted sort order is closed. -/
theorem closed_of_compile {text : String} {fields : FieldMap} {stable : Option Column}
    {fragment : Fragment} (accepted : compile text fields stable = .ok fragment) :
    fragment.Closed := by
  unfold compile at accepted
  split at accepted
  · rename_i keys _
    cases accepted
    have keysClosed : ∀ part ∈ (withStable keys stable).map SortKey.fragment, part.Closed := by
      intro part mem
      obtain ⟨key, _, rfl⟩ := List.mem_map.mp mem
      exact key.closed
    have joined := Fragment.Closed.join (by decide : quiet ", ".toList = true) (by decide) _
      keysClosed
    exact Fragment.Closed.empty.between joined (by decide) (by decide)
  · cases accepted

end OrderBy

/-- The SQL of every accepted filter and of every accepted sort order is closed, whatever
the columns are named and however its placeholders are numbered. -/
theorem rendered_sql_closed :
    (∀ (compiler : Filter.Compiler) (text : Option String) (fragment : Fragment) (first : Nat),
      compiler.compile text = .ok fragment → Sql.Closed (fragment.renderFrom first).sql) ∧
    ∀ (text : String) (fields : FieldMap) (stable : Option Column) (fragment : Fragment)
      (first : Nat), OrderBy.compile text fields stable = .ok fragment →
        Sql.Closed (fragment.renderFrom first).sql := by
  constructor
  · intro compiler text fragment first accepted
    exact (Filter.Compiler.closed_of_compile accepted).sql first
  · intro text fields stable fragment first accepted
    exact (OrderBy.closed_of_compile accepted).sql first

/-- A nested filter with two values and a sort order with two keys, over a column with a quote and a
parenthesis in its name. -/
theorem rendered_sql_closed_quoted :
    ∃ (fields : FieldMap) (deleted : Column) (compiler : Filter.Compiler) (filter order : Fragment),
      Filter.Compiler.ofRule fields {} = .ok compiler ∧
      compiler.compile (some " not (a eq '\"' or a lt '--')") = .ok filter ∧
      (filter.renderFrom 7).sql = "(NOT ((\"e\".\"a\"\"b(\" IS NOT DISTINCT FROM $7) OR " ++
        "(\"e\".\"a\"\"b(\" < $8))) AND \"d\" IS NULL" ∧
      Sql.Closed (filter.renderFrom 7).sql ∧
      OrderBy.compile "a desc" fields (some deleted) = .ok order ∧
      (order.renderFrom 7).sql =
        "ORDER BY \"e\".\"a\"\"b(\" DESC NULLS LAST, \"d\" DESC NULLS LAST" ∧
      Sql.Closed (order.renderFrom 7).sql := by
  let column : Column := ⟨["e", "a\"b("], by simp, by simp, by decide⟩
  let deleted : Column := ⟨["d"], by simp, by simp, by decide⟩
  let fields : FieldMap := ⟨[("__system/deletedAt", deleted), ("a", column)], by decide⟩
  let compiler : Filter.Compiler := ⟨fields, "__system/deletedAt", deleted⟩
  let equal : Fragment :=
    .identifier column ++ .keyword " IS NOT DISTINCT FROM " ++ .value (.text "\"")
  let less : Fragment := .identifier column ++ .keyword " < " ++ .value (.text "--")
  let filter : Fragment :=
    .keyword "(NOT " ++
        (equal.parenthesized ++ .keyword " OR " ++ less.parenthesized).parenthesized ++
      .keyword ")" ++ .keyword " AND " ++ compiler.excludeDeleted
  let order : Fragment := OrderBy.orderFragment [⟨column, .descending⟩, ⟨deleted, .descending⟩]
  have filters : compiler.compile (some " not (a eq '\"' or a lt '--')") = .ok filter := by cbv
  have sorts : OrderBy.compile "a desc" fields (some deleted) = .ok order := rfl
  exact ⟨fields, deleted, compiler, filter, order, rfl, filters, by decide +kernel,
    rendered_sql_closed.1 _ _ _ 7 filters, sorts, by decide +kernel,
    rendered_sql_closed.2 _ _ _ _ 7 sorts⟩

end QueryClause
