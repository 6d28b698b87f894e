import QueryClause.Proofs.Compiles

/-!
# Which expressions are refused, and why

A node offends if it cannot be compiled, whatever is below it. An expression is compiled
if none of its nodes offends, and otherwise the first one that does is reported, where a
node comes before its children and children from left to right.
-/

namespace QueryClause

namespace Filter

/-- All parts of a date. -/
def DatePart.all : List DatePart :=
  [.year, .month, .day, .hour, .minute, .second]

/-- Whether a function is supported with a number of arguments: one that extracts a part of
a date has a single argument, and `now` has none. ASCII case does not matter. -/
def supportsCall (name : String) (count : Nat) : Bool :=
  (DatePart.all.any fun part => foldCase name == part.function) && count == 1 ||
    foldCase name == "now" && count == 0

end Filter

namespace Expr

/-- Whether a node cannot be compiled: the name of a field that is not in the map, a minus
sign, an arithmetic operator, or a call that is not supported. -/
def offends (fields : FieldMap) : Expr → Bool
  | .member path _ => !fields.contains path
  | .literal .. => false
  | .unary operator _ _ => operator == .negate
  | .binary operator _ _ _ => [.add, .sub, .mul, .div, .mod].contains operator
  | .call name arguments _ => !Filter.supportsCall name arguments.length
  | .paren .. => false

/-- The text of a node apart from its children. -/
def head : Expr → String
  | .member path _ => path
  | .literal written _ _ => written
  | .unary operator _ _ => operator.keyword
  | .binary operator _ _ _ => operator.keyword
  | .call name _ _ => name
  | .paren .. => ""

/-- The error that reports a node: a field by its path, and any other node by its kind. -/
def blame : Expr → CompileError
  | .member path span => .unsupportedField path (some span)
  | node => .unsupportedExpression node.kind node.head node.span

end Expr

namespace Filter

/-- The reason of a failure. -/
def reason? {α : Type} : Except CompileError α → Option CompileError
  | .ok _ => none
  | .error error => some error

theorem reason?_eq_none_iff {α : Type} {result : Except CompileError α} :
    reason? result = none ↔ ∃ value, result = .ok value := by
  cases result <;> simp [reason?]

theorem reason?_eq_some_iff {α : Type} {result : Except CompileError α} {error : CompileError} :
    reason? result = some error ↔ result = .error error := by
  cases result <;> simp [reason?]

theorem reason?_bind_pure {α β : Type} (result : Except CompileError α) (make : α → β) :
    reason? (result >>= fun value => pure (make value)) = reason? result := by
  cases result <;> rfl

theorem reason?_bind_bind_pure {α β γ : Type} (first : Except CompileError α)
    (second : Except CompileError β) (make : α → β → γ) :
    reason? (first >>= fun left => second >>= fun right => pure (make left right)) =
      (reason? first).or (reason? second) := by
  cases first with
  | error error => rfl
  | ok left => exact reason?_bind_pure second (make left)

/-! ## Nodes that offend -/

section Offends

variable {fields : FieldMap} {name : String} {span : Span}

theorem offends_binary {operator : BinaryOp} {left right : Expr} :
    Expr.offends fields (.binary operator left right span) = (operatorSql? operator).isNone := by
  cases operator <;> rfl

theorem any_function_eq : (DatePart.all.any fun part => foldCase name == part.function) =
    (DatePart.ofFunction? name).isSome := by
  rw [Bool.eq_iff_iff, List.any_eq_true, Option.isSome_iff_exists]
  constructor
  · rintro ⟨part, -, named⟩
    exact ⟨part, DatePart.ofFunction?_eq_some_iff.mpr (beq_iff_eq.mp named)⟩
  · rintro ⟨part, extracts⟩
    refine ⟨part, by cases part <;> decide, ?_⟩
    exact beq_iff_eq.mpr (DatePart.ofFunction?_eq_some_iff.mp extracts)

theorem offends_call_nil :
    Expr.offends fields (.call name [] span) = !(foldCase name == "now") := by
  simp [Expr.offends, supportsCall]

theorem offends_call_singleton {argument : Expr} :
    Expr.offends fields (.call name [argument] span) = (DatePart.ofFunction? name).isNone := by
  simp [Expr.offends, supportsCall, any_function_eq]

theorem offends_call_many {first second : Expr} {rest : List Expr} :
    Expr.offends fields (.call name (first :: second :: rest) span) = true := by
  simp [Expr.offends, supportsCall]

end Offends

namespace Compiler

/-- Compiling an expression fails for the first node that offends, and only for that. -/
theorem reason?_walk (compiler : Compiler) : (expression : Expr) →
    reason? (compiler.walk expression) =
      (expression.preorder.find? (Expr.offends compiler.fields)).map Expr.blame
  | .member path span => by
      rw [walk, Expr.preorder]
      cases known : compiler.fields.get? path <;>
        simp [Expr.offends, Dictionary.contains, known, reason?, Expr.blame]
  | .literal .. => rfl
  | .unary .not operand _ => by
      rw [walk, Expr.preorder, List.find?_cons_of_neg (by simp [Expr.offends]),
        ← reason?_walk compiler operand]
      exact reason?_bind_pure _ _
  | .unary .negate _ _ => by
      rw [walk, Expr.preorder, List.find?_cons_of_pos (by simp [Expr.offends])]
      rfl
  | .binary operator left right _ => by
      rw [walk, Expr.preorder, List.cons_append]
      cases supported : operatorSql? operator with
      | none =>
          rw [List.find?_cons_of_pos (by rw [offends_binary, supported]; rfl)]
          rfl
      | some sql =>
          rw [List.find?_cons_of_neg (by simp [offends_binary, supported]), List.find?_append,
            Option.map_or, ← reason?_walk compiler left, ← reason?_walk compiler right]
          exact reason?_bind_bind_pure _ _ _
  | .call name [] _ => by
      rw [walk, Expr.preorder, Expr.preorderAll]
      · by_cases isNow : foldCase name = "now" <;>
          simp [isNow, offends_call_nil, reason?, Expr.blame, Expr.kind, Expr.head, Expr.span]
      · simp
  | .call name [argument] _ => by
      rw [walk, Expr.preorder, Expr.preorderAll, Expr.preorderAll, List.append_nil]
      cases extracts : DatePart.ofFunction? name with
      | none =>
          rw [List.find?_cons_of_pos (by rw [offends_call_singleton, extracts]; rfl)]
          rfl
      | some part =>
          rw [List.find?_cons_of_neg (by simp [offends_call_singleton, extracts]),
            ← reason?_walk compiler argument]
          exact reason?_bind_pure _ _
  | .call name (first :: second :: rest) _ => by
      rw [walk, Expr.preorder, List.find?_cons_of_pos offends_call_many]
      · rfl
      · simp
  | .paren inner _ => by
      rw [walk, Expr.preorder, List.find?_cons_of_neg (by simp [Expr.offends]),
        ← reason?_walk compiler inner]

theorem reason?_compileExpr (compiler : Compiler) (expression : Expr) :
    reason? (compiler.compileExpr expression) =
      (expression.preorder.find? (Expr.offends compiler.fields)).map Expr.blame := by
  rw [← compiler.reason?_walk expression]
  exact reason?_bind_pure _ _

end Compiler

/-- An expression is compiled exactly if none of its nodes offends, and otherwise the error
reports the first node that does. -/
theorem compileExpr_refuses_first (compiler : Compiler) (expression : Expr) :
    ((∃ fragment, compiler.compileExpr expression = .ok fragment) ↔
      ∀ node ∈ expression.preorder, node.offends compiler.fields = false) ∧
    ∀ node, expression.preorder.find? (Expr.offends compiler.fields) = some node →
      compiler.compileExpr expression = .error node.blame := by
  have reason := compiler.reason?_compileExpr expression
  constructor
  · rw [← reason?_eq_none_iff, reason, Option.map_eq_none_iff, List.find?_eq_none]
    simp
  · intro node first
    rw [first, Option.map_some] at reason
    exact reason?_eq_some_iff.mp reason

/-- In `year(a) eq Foo(b, -1)` the call is reported, before the field and the minus sign
below it. -/
theorem compileExpr_refuses_first_call :
    ∃ (compiler : Compiler) (expression node : Expr),
      expression.canonical = "year(a) eq Foo(b, -1)" ∧
      expression.preorder.find? (Expr.offends compiler.fields) = some node ∧
      compiler.compileExpr expression = .error node.blame ∧
      node.blame = .unsupportedExpression "call" "Foo" ⟨11, 21⟩ := by
  let column : Column := ⟨["t", "a"], by simp, by simp, by decide⟩
  let compiler : Compiler := ⟨⟨[("a", column)], by simp⟩, "a", column⟩
  let one : Expr := .literal "1" (.number ⟨1, 0, by decide, by decide⟩) ⟨19, 20⟩
  let foo : Expr := .call "Foo" [.member "b" ⟨15, 16⟩, .unary .negate one ⟨18, 20⟩] ⟨11, 21⟩
  let expression : Expr := .binary .eq (.call "year" [.member "a" ⟨5, 6⟩] ⟨0, 7⟩) foo ⟨0, 21⟩
  have first : expression.preorder.find? (Expr.offends compiler.fields) = some foo := rfl
  exact ⟨compiler, expression, foo, by decide +kernel, first,
    (compileExpr_refuses_first compiler expression).2 foo first, rfl⟩

end Filter

end QueryClause
