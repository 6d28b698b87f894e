import Mathlib
import QueryClause.Proofs.Compiles

/-!
# The fields that a filter names

The columns of a compiled expression are those of the fields it names, in order. The
condition on deleted rows is left out exactly where the field that its column was found
under is among them, however deep in the expression it stands.
-/

namespace QueryClause

/-- The field that a node names. -/
def Expr.path? : Expr → Option String
  | .member path _ => some path
  | _ => none

/-- The fields that an expression names, from left to right. -/
def Expr.paths (expression : Expr) : List String :=
  expression.preorder.filterMap Expr.path?

namespace Expr

theorem mem_paths_iff {expression : Expr} {path : String} :
    path ∈ expression.paths ↔ ∃ span, .member path span ∈ expression.preorder := by
  rw [paths, List.mem_filterMap]
  constructor
  · rintro ⟨node, mem, found⟩
    cases node with
    | member other span =>
        cases found
        exact ⟨span, mem⟩
    | _ => cases found
  · rintro ⟨span, mem⟩
    exact ⟨_, mem, rfl⟩

section Paths

variable {span : Span}

@[simp]
theorem paths_member {path : String} : (Expr.member path span).paths = [path] :=
  rfl

@[simp]
theorem paths_literal {written : String} {value : Value} :
    (Expr.literal written value span).paths = [] :=
  rfl

@[simp]
theorem paths_unary {operator : UnaryOp} {operand : Expr} :
    (Expr.unary operator operand span).paths = operand.paths := by
  rw [paths, preorder, List.filterMap_cons_none rfl, paths]

@[simp]
theorem paths_binary {operator : BinaryOp} {left right : Expr} :
    (Expr.binary operator left right span).paths = left.paths ++ right.paths := by
  rw [paths, preorder, List.cons_append, List.filterMap_cons_none rfl, List.filterMap_append, paths,
    paths]

@[simp]
theorem paths_call {name : String} {arguments : List Expr} :
    (Expr.call name arguments span).paths = arguments.flatMap paths := by
  rw [paths, preorder, List.filterMap_cons_none rfl, preorderAll_eq, List.filterMap_flatMap]
  rfl

@[simp]
theorem paths_paren {inner : Expr} : (Expr.paren inner span).paths = inner.paths := by
  rw [paths, preorder, List.filterMap_cons_none rfl, paths]

end Paths

end Expr

/-- The column of a segment that is an identifier. -/
def Segment.column? : Segment → Option Column
  | .identifier column => some column
  | _ => none

/-- The columns of a fragment, in order. -/
def Fragment.columns (fragment : Fragment) : List Column :=
  fragment.segments.filterMap Segment.column?

namespace Fragment

@[simp]
theorem columns_append (first second : Fragment) :
    (first ++ second).columns = first.columns ++ second.columns :=
  List.filterMap_append

@[simp]
theorem columns_keyword (text : String) : (keyword text).columns = [] :=
  rfl

@[simp]
theorem columns_identifier (column : Column) : (identifier column).columns = [column] :=
  rfl

@[simp]
theorem columns_value (bound : Value) : (value bound).columns = [] :=
  rfl

end Fragment

/-- Nothing is left of a text without blanks at its ends exactly if it is blank. -/
theorem Text.trim_eq_nil_iff {chars : List Char} :
    trim chars = [] ↔ ∀ char ∈ chars, isBlank char = true := by
  constructor
  · intro nothing char mem
    obtain ⟨blanks, whole, allBlank⟩ := trimEnd_append (trimStart chars)
    rw [← trim, nothing, List.nil_append] at whole
    have parts : chars.takeWhile isBlank ++ chars.dropWhile isBlank = chars :=
      List.takeWhile_append_dropWhile
    rw [← parts] at mem
    rcases List.mem_append.mp mem with before | after
    · exact List.mem_takeWhile_imp before
    · rw [← trimStart, ← whole] at after
      exact allBlank char after
  · intro blank
    rw [trim, trimStart, List.dropWhile_eq_nil_iff.mpr blank, trimEnd]

namespace Filter

/-! ## Compiled expressions -/

namespace Compiler

variable {compiler : Compiler}

/-- The columns of a compiled expression are those of the fields it names. -/
theorem Compiles.columns_eq {expression : Expr} {compiled : Compiled}
    (compiles : Compiles compiler expression compiled) :
    compiled.fragment.columns.map some = expression.paths.map compiler.fields.get? := by
  induction compiles with
  | member known => simp [known]
  | @literal _ value _ => cases value <;> simp [literalFragment]
  | not _ ih => simp [Compiled.enclose, ih]
  | binary _ _ _ ihLeft ihRight =>
      simp [Compiled.combine, Fragment.parenthesized, ihLeft, ihRight]
  | extract _ _ ih => simp [Compiled.enclose, ih]
  | now => simp
  | paren _ ih => simpa using ih

/-- An expression that is compiled names the field of the deletion time exactly if that is
noted with it. -/
theorem Compiles.namesDeletedAt_iff {expression : Expr} {compiled : Compiled}
    (compiles : Compiles compiler expression compiled) :
    compiled.namesDeletedAt = true ↔ compiler.deletedAtKey ∈ expression.paths := by
  induction compiles with
  | member => rw [beq_iff_eq, Expr.paths_member, List.mem_singleton, eq_comm]
  | literal => simp
  | not _ ih => simpa [Compiled.enclose] using ih
  | binary _ _ _ ihLeft ihRight => simp [Compiled.combine, ihLeft, ihRight]
  | extract _ _ ih => simpa [Compiled.enclose] using ih
  | now => simp
  | paren _ ih => simpa using ih

/-- Where the field of the deletion time is named, no condition is added. -/
theorem Compiles.restrict_of_mem {expression : Expr} {compiled : Compiled}
    (compiles : Compiles compiler expression compiled)
    (named : compiler.deletedAtKey ∈ expression.paths) :
    compiler.restrict compiled = compiled.fragment := by
  rw [restrict, if_pos (compiles.namesDeletedAt_iff.mpr named)]

/-- Where the field of the deletion time is not named, deleted rows are excluded. -/
theorem Compiles.restrict_of_not_mem {expression : Expr} {compiled : Compiled}
    (compiles : Compiles compiler expression compiled)
    (unnamed : compiler.deletedAtKey ∉ expression.paths) :
    compiler.restrict compiled =
      compiled.fragment ++ .keyword " AND " ++ compiler.excludeDeleted := by
  rw [restrict, if_neg (mt compiles.namesDeletedAt_iff.mp unnamed)]

end Compiler

/-! ## The field of the deletion time -/

theorem firstField?_eq_none_iff {fields : FieldMap} {keys : List String} :
    firstField? fields keys = none ↔ ∀ key ∈ keys, fields.get? key = none := by
  induction keys with
  | nil => simp [firstField?]
  | cons key rest ih => cases found : fields.get? key <;> simp [firstField?, found, ih]

/-- The first field that is in the map is found with its column. -/
theorem firstField?_of_find? {fields : FieldMap} {keys : List String} {key : String}
    {column : Column} (first : keys.find? fields.contains = some key)
    (known : fields.get? key = some column) : firstField? fields keys = some (key, column) := by
  induction keys with
  | nil => cases first
  | cons candidate rest ih =>
      rw [List.find?_cons] at first
      cases found : fields.get? candidate with
      | none => simp_all [firstField?, Dictionary.contains]
      | some other => simp_all [firstField?, Dictionary.contains]

namespace Compiler

/-- There is no compiler exactly if no field to look under is in the map. -/
theorem ofRule_eq_error_iff {fields : FieldMap} {rule : Rule} :
    ofRule fields rule = .error (.missingDeletedAt rule.keys) ↔
      ∀ key ∈ rule.keys, fields.get? key = none := by
  rw [← firstField?_eq_none_iff, ofRule]
  split <;> simp_all

theorem ofRule_of_find? {fields : FieldMap} {rule : Rule} {key : String} {column : Column}
    (first : rule.keys.find? fields.contains = some key)
    (known : fields.get? key = some column) : ofRule fields rule = .ok ⟨fields, key, column⟩ := by
  rw [ofRule, firstField?_of_find? first known]

end Compiler

/-- An absent or blank text says nothing. -/
theorem significant?_of_blank {text : Option String}
    (blank : ∀ content ∈ text, ∀ char ∈ content.toList, Text.isBlank char = true) :
    significant? text = none := by
  cases text with
  | none => rfl
  | some content => rw [significant?, Text.trim_eq_nil_iff.mpr (blank content rfl)]

/-- A filter can be compiled exactly if the field of the deletion time is in the map, by
itself or behind a root. Deleted rows are excluded by the column of the first such field,
unless the expression names that very field somewhere. -/
theorem deleted_rows_excluded (fields : FieldMap) (field : String) (roots : List String) :
    (Compiler.ofRule fields ⟨field, roots⟩ =
        .error (.missingDeletedAt (field :: roots.map fun root => root ++ field)) ↔
      fields.get? field = none ∧ ∀ root ∈ roots, fields.get? (root ++ field) = none) ∧
    ∀ (key : String) (column : Column),
      (field :: roots.map fun root => root ++ field).find? fields.contains = some key →
      fields.get? key = some column →
      ∃ compiler, Compiler.ofRule fields ⟨field, roots⟩ = .ok compiler ∧
        (∀ text : Option String,
          (∀ content ∈ text, ∀ char ∈ content.toList, Text.isBlank char = true) →
            compiler.compile text = .ok (.identifier column ++ .keyword " IS NULL")) ∧
        ∀ (expression : Expr) (fragment : Fragment),
          compiler.compileExpr expression = .ok fragment →
          ∃ alone, compiler.walk expression = .ok alone ∧
            ((∃ span, .member key span ∈ expression.preorder) → fragment = alone.fragment) ∧
            ((∀ span, .member key span ∉ expression.preorder) →
              fragment = alone.fragment ++ .keyword " AND " ++
                (.identifier column ++ .keyword " IS NULL")) := by
  have missing : Compiler.ofRule fields ⟨field, roots⟩ = .error (.missingDeletedAt _) ↔ _ :=
    Compiler.ofRule_eq_error_iff
  constructor
  · simpa [Rule.keys] using missing
  intro key column first known
  refine ⟨_, Compiler.ofRule_of_find? first known, ?_, ?_⟩
  · intro text blank
    rw [Compiler.compile, significant?_of_blank blank, Compiler.excludeDeleted]
  · intro expression fragment accepted
    obtain ⟨compiled, compiles, rfl⟩ := Compiler.compileExpr_eq_ok_iff.mp accepted
    refine ⟨compiled, compiles.walk_eq, ?_, ?_⟩
    · intro named
      exact compiles.restrict_of_mem (Expr.mem_paths_iff.mpr named)
    · intro unnamed
      apply compiles.restrict_of_not_mem
      intro named
      obtain ⟨span, mem⟩ := Expr.mem_paths_iff.mp named
      exact unnamed span mem

/-- Naming the second of two fields for one column leaves deleted rows excluded. Naming the
first one, under `not` and in parentheses, does not. -/
theorem deleted_rows_excluded_two_fields :
    ∃ (fields : FieldMap) (column : Column) (compiler : Compiler),
      fields.get? "__system/deletedAt" = some column ∧
      fields.get? "$root/Submissions/__system/deletedAt" = some column ∧
      Compiler.ofRule fields {} = .ok compiler ∧
      compiler.compileExpr (.member "$root/Submissions/__system/deletedAt" ⟨0, 36⟩) =
        .ok (.identifier column ++ .keyword " AND " ++ (.identifier column ++ .keyword " IS NULL")) ∧
      compiler.compileExpr
          (.unary .not (.paren (.member "__system/deletedAt" ⟨5, 23⟩) ⟨4, 24⟩) ⟨0, 24⟩) =
        .ok (.keyword "(NOT " ++ .identifier column ++ .keyword ")") := by
  let column : Column := ⟨["d"], by simp, by simp, by decide⟩
  let fields : FieldMap := ⟨[("$root/Submissions/__system/deletedAt", column),
    ("__system/deletedAt", column)], by decide⟩
  have known : fields.get? "__system/deletedAt" = some column := by decide +kernel
  have first : ({} : Rule).keys.find? fields.contains = some "__system/deletedAt" := by
    decide +kernel
  obtain ⟨compiler, built, -, restricts⟩ :=
    (deleted_rows_excluded fields "__system/deletedAt" ["$root/Submissions/"]).2 _ _ first known
  obtain rfl : ⟨fields, _, column⟩ = compiler :=
    Except.ok.inj ((Compiler.ofRule_of_find? first known).symm.trans built)
  refine ⟨fields, column, _, known, by decide +kernel, built, ?_, ?_⟩
  · have accepted : Compiler.compileExpr ⟨fields, "__system/deletedAt", column⟩
        (.member "$root/Submissions/__system/deletedAt" ⟨0, 36⟩) = .ok _ := rfl
    obtain ⟨alone, walked, -, unnamed⟩ := restricts _ _ accepted
    cases walked
    rw [accepted, unnamed (by simp [Expr.preorder])]
  · have accepted : Compiler.compileExpr ⟨fields, "__system/deletedAt", column⟩
        (.unary .not (.paren (.member "__system/deletedAt" ⟨5, 23⟩) ⟨4, 24⟩) ⟨0, 24⟩) = .ok _ := rfl
    obtain ⟨alone, walked, named, -⟩ := restricts _ _ accepted
    cases walked
    rw [accepted, named ⟨⟨5, 23⟩, by simp [Expr.preorder]⟩]
    rfl

end Filter

end QueryClause
