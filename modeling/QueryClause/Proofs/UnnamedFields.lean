import Mathlib
import QueryClause.Proofs.NamedFields
import QueryClause.Proofs.SortClauses

/-!
# Fields that are not named

A field that neither an expression nor the rule on deleted rows names has no part in what the
expression is compiled to, nor in how it is refused. The same holds of a sort order and the fields
that its clauses begin with. So nothing is disclosed of the columns that other fields have.
-/

namespace QueryClause

/-- Two maps have the same column, or none, for each of several fields. -/
def FieldMap.AgreeOn (first second : FieldMap) (fields : List String) : Prop :=
  ∀ field ∈ fields, first.get? field = second.get? field

namespace FieldMap.AgreeOn

variable {first second : FieldMap} {fields others : List String}

theorem mono (agree : AgreeOn first second fields) (subset : others ⊆ fields) :
    AgreeOn first second others :=
  fun field mem => agree field (subset mem)

theorem append_iff : AgreeOn first second (fields ++ others) ↔
    AgreeOn first second fields ∧ AgreeOn first second others :=
  List.forall_mem_append

end FieldMap.AgreeOn

namespace Filter

variable {first second : FieldMap}

/-- The search for the field of the deletion time looks at its candidates only. -/
theorem firstField?_congr {keys : List String} (agree : first.AgreeOn second keys) :
    firstField? first keys = firstField? second keys := by
  induction keys with
  | nil => rfl
  | cons key rest ih =>
      rw [firstField?, firstField?, agree key List.mem_cons_self,
        ih (agree.mono (List.subset_cons_self key rest))]

namespace Compiler

variable {key : String} {column : Column}

/-- The walk over an expression looks up the fields that the expression names. -/
theorem walk_congr {expression : Expr} (agree : first.AgreeOn second expression.paths) :
    walk ⟨first, key, column⟩ expression = walk ⟨second, key, column⟩ expression := by
  fun_induction walk ⟨first, key, column⟩ expression with
  | case1 path span found known =>
      have same : second.get? path = some found := (agree path (by simp)).symm.trans known
      rw [walk, same]
  | case2 path span unknown =>
      have same : second.get? path = none := (agree path (by simp)).symm.trans unknown
      rw [walk, same]
  | case3 => rw [walk]
  | case4 operand span ih => rw [walk, ih (by simpa using agree)]
  | case5 => rw [walk]
  | case6 operator left right span sql supported ihLeft ihRight =>
      rw [Expr.paths_binary, FieldMap.AgreeOn.append_iff] at agree
      rw [walk, supported, ihLeft agree.1, ihRight agree.2]
  | case7 operator left right span unsupported => rw [walk, unsupported]
  | case8 name argument span part extracts ih => rw [walk, extracts, ih (by simpa using agree)]
  | case9 name argument span unsupported => rw [walk, unsupported]
  | case10 name arguments span several isNow =>
      rw [walk, if_pos isNow]
      exact several
  | case11 name arguments span several other =>
      rw [walk, if_neg other]
      exact several
  | case12 inner span ih => rw [walk, ih (by simpa using agree)]

/-- What an expression is compiled to depends on the fields it names, and on the field and the
column of the deletion time. -/
theorem compileExpr_congr {expression : Expr} (agree : first.AgreeOn second expression.paths) :
    compileExpr ⟨first, key, column⟩ expression = compileExpr ⟨second, key, column⟩ expression := by
  rw [compileExpr, compileExpr, walk_congr agree]
  rfl

/-- A compiler is built from the candidates for the field of the deletion time, and what it does
with an expression depends on the fields that the expression names. -/
theorem ofRule_compileExpr_congr {rule : Rule} {expression : Expr}
    (named : first.AgreeOn second expression.paths) (looked : first.AgreeOn second rule.keys) :
    (ofRule first rule).map (fun compiler => compiler.compileExpr expression) =
      (ofRule second rule).map fun compiler => compiler.compileExpr expression := by
  rw [ofRule, ofRule, firstField?_congr looked]
  cases firstField? second rule.keys with
  | none => rfl
  | some found => exact congrArg Except.ok (compileExpr_congr named)

end Compiler

end Filter

namespace OrderBy

variable {first second : FieldMap}

/-- A clause looks up the field it begins with. -/
theorem sortKey_congr {clause : List Char}
    (agree : first.get? (fieldOf (wordsOf clause)) = second.get? (fieldOf (wordsOf clause))) :
    sortKey first clause = sortKey second clause := by
  rw [sortKey_eq, sortKey_eq, keyOfWords, keyOfWords, agree]

/-- Clauses are looked at one after another, each for the field it begins with. -/
theorem mapM_sortKey_congr {clauses : List (List Char)}
    (agree : first.AgreeOn second ((clauses.map wordsOf).map fieldOf)) :
    clauses.mapM (sortKey first) = clauses.mapM (sortKey second) := by
  induction clauses with
  | nil => rfl
  | cons clause rest ih =>
      obtain ⟨here, later⟩ := List.forall_mem_cons.mp agree
      rw [List.mapM_cons, List.mapM_cons, sortKey_congr here, ih later]

theorem sortKeys_congr {text : String}
    (agree : first.AgreeOn second ((clauseWords text).map fieldOf)) :
    sortKeys first text = sortKeys second text := by
  rw [clauseWords_eq] at agree
  exact mapM_sortKey_congr agree

end OrderBy

/-- Two maps that agree on the fields an expression names, and on the candidates of the rule on
deleted rows, give the same compiled expression or the same error. Two maps that agree on the first
word of each clause of a sort order, the empty text for a blank clause, give the same compiled sort
order or the same error, whatever the stable column is. -/
theorem unnamed_fields_irrelevant (first second : FieldMap) :
    (∀ (rule : Filter.Rule) (expression : Expr),
      (∀ path span, .member path span ∈ expression.preorder →
        first.get? path = second.get? path) →
      (∀ key ∈ rule.keys, first.get? key = second.get? key) →
      (Filter.Compiler.ofRule first rule).map (fun compiler => compiler.compileExpr expression) =
        (Filter.Compiler.ofRule second rule).map fun compiler => compiler.compileExpr expression) ∧
    ∀ (text : String) (stable : Option Column),
      (∀ words ∈ OrderBy.clauseWords text,
        first.get? (words.headD "") = second.get? (words.headD "")) →
      OrderBy.compile text first stable = OrderBy.compile text second stable := by
  constructor
  · intro rule expression named looked
    refine Filter.Compiler.ofRule_compileExpr_congr (fun path mem => ?_) looked
    obtain ⟨span, node⟩ := Expr.mem_paths_iff.mp mem
    exact named path span node
  · intro text stable agree
    rw [OrderBy.compile, OrderBy.compile, OrderBy.sortKeys_congr (List.forall_mem_map.mpr agree)]

/-- A filter and a sort order over `age` and an unknown field are refused alike, whether or not the
map has a field `secret`. -/
theorem unnamed_fields_irrelevant_secret :
    ∃ first second : FieldMap, first.get? "secret" ≠ second.get? "secret" ∧
      (∀ field ∈ ["", "age", "rank", "__system/deletedAt", "$root/Submissions/__system/deletedAt"],
        first.get? field = second.get? field) ∧
      (Filter.Compiler.ofRule first {}).map (fun compiler => compiler.compileExpr
          (.binary .gt (.member "age" ⟨0, 3⟩) (.member "rank" ⟨7, 11⟩) ⟨0, 11⟩)) =
        (Filter.Compiler.ofRule second {}).map (fun compiler => compiler.compileExpr
          (.binary .gt (.member "age" ⟨0, 3⟩) (.member "rank" ⟨7, 11⟩) ⟨0, 11⟩)) ∧
      OrderBy.compile "age desc, " first none = OrderBy.compile "age desc, " second none := by
  let column : Column := ⟨["c"], by simp, by simp, by decide⟩
  let first : FieldMap := ⟨[("__system/deletedAt", column), ("age", column)], by decide⟩
  let second : FieldMap :=
    ⟨[("__system/deletedAt", column), ("age", column), ("secret", column)], by decide⟩
  have agree : first.AgreeOn second
      ["", "age", "rank", "__system/deletedAt", "$root/Submissions/__system/deletedAt"] := by
    unfold FieldMap.AgreeOn
    decide +kernel
  have named : first.AgreeOn second ["age", "rank"] := agree.mono (by simp)
  have looked : first.AgreeOn second ({} : Filter.Rule).keys := agree.mono (by simp [Filter.Rule.keys])
  have sorted : first.AgreeOn second ["age", ""] := agree.mono (by simp)
  have fields : (OrderBy.clauseWords "age desc, ").map OrderBy.fieldOf = ["age", ""] := by
    decide +kernel
  refine ⟨first, second, by decide +kernel, agree, ?_, ?_⟩
  · refine (unnamed_fields_irrelevant first second).1 {} _ (fun path span mem => ?_) looked
    exact named path (Expr.mem_paths_iff.mpr ⟨span, mem⟩)
  · rw [← fields] at sorted
    exact (unnamed_fields_irrelevant first second).2 _ none (List.forall_mem_map.mp sorted)

end QueryClause
