import Mathlib
import QueryClause.Proofs.Parameters

/-!
# Expressions that mean the same

Two trees are alike if they differ in nothing but spans, the written forms of literals
and the ASCII case of function names. Parentheses that were written do not change what
is compiled, and trees that are alike without them are compiled to the same text and to
the same values.
-/

namespace QueryClause

/-- Values that are the same one by one. -/
abbrev Value.AllSame (first second : List Value) : Prop :=
  List.Forall₂ (fun left right => left.same right = true) first second

/-- Equality of rendered SQL, where numbers are equal if they have the same value. -/
structure Rendered.Same (first second : Rendered) : Prop where
  sql : first.sql = second.sql
  params : Value.AllSame first.params second.params

namespace Expr

mutual

/-- The tree without the parentheses that were written. -/
def unparenthesized : Expr → Expr
  | .member path span => .member path span
  | .literal written value span => .literal written value span
  | .unary operator operand span => .unary operator operand.unparenthesized span
  | .binary operator left right span =>
      .binary operator left.unparenthesized right.unparenthesized span
  | .call name arguments span => .call name (unparenthesizedAll arguments) span
  | .paren inner _ => inner.unparenthesized

/-- Several trees without parentheses. -/
def unparenthesizedAll : List Expr → List Expr
  | [] => []
  | first :: rest => first.unparenthesized :: unparenthesizedAll rest

end

mutual

/-- Whether two trees are equal up to spans, the written forms of literals and the ASCII
case of function names. Numbers are equal if they have the same value. -/
def alike : Expr → Expr → Bool
  | .member path _, .member other _ => path == other
  | .literal _ value _, .literal _ other _ => value.same other
  | .unary operator operand _, .unary other second _ => operator == other && operand.alike second
  | .binary operator left right _, .binary other first second _ =>
      operator == other && left.alike first && right.alike second
  | .call name arguments _, .call other others _ =>
      Filter.foldCase name == Filter.foldCase other && alikeAll arguments others
  | .paren inner _, .paren other _ => inner.alike other
  | _, _ => false

/-- Whether trees are alike one by one. -/
def alikeAll : List Expr → List Expr → Bool
  | [], [] => true
  | first :: rest, other :: others => first.alike other && alikeAll rest others
  | _, _ => false

end

end Expr

namespace Filter

/-! ## Parentheses -/

namespace Compiler

variable {compiler : Compiler}

/-- Written parentheses do not change what an expression is compiled to, nor why it is
refused. -/
theorem walk_unparenthesized (compiler : Compiler) : (expression : Expr) →
    compiler.walk expression.unparenthesized = compiler.walk expression
  | .member .. => rfl
  | .literal .. => rfl
  | .unary .not operand _ => by
      rw [Expr.unparenthesized, walk, walk, walk_unparenthesized compiler operand]
  | .unary .negate _ _ => by
      rw [Expr.unparenthesized, walk, walk, Expr.kind, Expr.kind]
  | .binary operator left right _ => by
      rw [Expr.unparenthesized, walk, walk, walk_unparenthesized compiler left,
        walk_unparenthesized compiler right, Expr.kind, Expr.kind]
  | .call _ [] _ => rfl
  | .call name [argument] _ => by
      rw [Expr.unparenthesized, Expr.unparenthesizedAll, Expr.unparenthesizedAll, walk, walk,
        walk_unparenthesized compiler argument, Expr.kind, Expr.kind]
  | .call name (first :: second :: rest) _ => by
      rw [Expr.unparenthesized, Expr.unparenthesizedAll, Expr.unparenthesizedAll, walk, walk,
        Expr.kind, Expr.kind]
      · rfl
      · simp
      · simp
  | .paren inner _ => by
      rw [Expr.unparenthesized, walk, walk_unparenthesized compiler inner]

theorem compileExpr_unparenthesized (compiler : Compiler) (expression : Expr) :
    compiler.compileExpr expression.unparenthesized = compiler.compileExpr expression := by
  rw [compileExpr, compileExpr, walk_unparenthesized]

theorem Compiles.unparenthesized {expression : Expr} {compiled : Compiled}
    (compiles : Compiles compiler expression compiled) :
    Compiles compiler expression.unparenthesized compiled := by
  rw [← walk_eq_ok_iff, walk_unparenthesized]
  exact compiles.walk_eq

end Compiler

/-! ## Alike expressions -/

namespace Compiled

@[simp]
theorem params_enclose (before : Fragment) (inner : Compiled) (after : String) :
    (inner.enclose before after).fragment.params = before.params ++ inner.fragment.params := by
  simp [enclose]

@[simp]
theorem params_combine (operator : String) (left right : Compiled) :
    (left.combine operator right).fragment.params =
      left.fragment.params ++ right.fragment.params := by
  simp [combine, Fragment.parenthesized]

/-- Compiled expressions with the same outline and the same values. -/
structure Same (first second : Compiled) : Prop where
  outline : first.outline = second.outline
  values : Value.AllSame first.fragment.params second.fragment.params

theorem Same.literal {value other : Value} (same : value.same other = true) :
    Same ⟨literalFragment value, false⟩ ⟨literalFragment other, false⟩ := by
  have nulls : value = .null ↔ other = .null := by
    cases value <;> cases other <;> simp_all [Value.same]
  refine ⟨Prod.ext (shape_literalFragment nulls) rfl, ?_⟩
  cases value with
  | null =>
      obtain rfl := nulls.mp rfl
      exact .nil
  | _ =>
      cases other with
      | null => cases same
      | _ => exact .cons same .nil

theorem Same.enclose {first second : Compiled} (same : first.Same second) {before : Fragment}
    (noValues : before.params = []) (after : String) :
    (first.enclose before after).Same (second.enclose before after) := by
  refine ⟨outline_enclose same.outline before after, ?_⟩
  simpa [noValues] using same.values

theorem Same.combine {left right first second : Compiled} (sameLeft : left.Same first)
    (sameRight : right.Same second) (operator : String) :
    (left.combine operator right).Same (first.combine operator second) := by
  refine ⟨outline_combine sameLeft.outline sameRight.outline operator, ?_⟩
  rw [params_combine, params_combine]
  exact List.rel_append sameLeft.values sameRight.values

end Compiled

namespace Compiler

variable {compiler : Compiler}

/-- The same compiled expressions have the same SQL and the same values, also with the
condition on deleted rows. -/
theorem same_restrict (compiler : Compiler) {first second : Compiled} (same : first.Same second)
    (next : Nat) :
    ((compiler.restrict first).renderFrom next).Same
      ((compiler.restrict second).renderFrom next) := by
  constructor
  · exact Fragment.sql_eq_of_shape (compiler.shape_restrict same.outline) next
  · rw [Fragment.renderFrom, Fragment.renderFrom, compiler.params_restrict,
      compiler.params_restrict]
    exact same.values

/-- Expressions that are alike are compiled to the same. -/
theorem Compiles.same_of_alike {expression : Expr} {compiled : Compiled}
    (compiles : Compiles compiler expression compiled) :
    ∀ {other : Expr} {found : Compiled}, Compiles compiler other found →
      expression.alike other = true → compiled.Same found := by
  induction compiles with
  | @member path _ _ known =>
      intro other found compilesOther alike
      cases compilesOther with
      | member knownOther =>
          obtain rfl : path = _ := by simpa [Expr.alike] using alike
          rw [known] at knownOther
          cases knownOther
          exact ⟨rfl, .nil⟩
      | _ => simp [Expr.alike] at alike
  | literal =>
      intro other found compilesOther alike
      cases compilesOther with
      | literal => exact .literal (by simpa [Expr.alike] using alike)
      | _ => simp [Expr.alike] at alike
  | not _ ih =>
      intro other found compilesOther alike
      cases compilesOther with
      | not belowOther =>
          have alikeBelow := ih belowOther (by simpa [Expr.alike] using alike)
          exact alikeBelow.enclose rfl _
      | _ => simp [Expr.alike] at alike
  | binary supported _ _ ihLeft ihRight =>
      intro other found compilesOther alike
      cases compilesOther with
      | binary supportedOther beforeOther afterOther =>
          simp only [Expr.alike, Bool.and_eq_true, beq_iff_eq] at alike
          obtain ⟨⟨rfl, alikeLeft⟩, alikeRight⟩ := alike
          rw [supported] at supportedOther
          cases supportedOther
          exact (ihLeft beforeOther alikeLeft).combine (ihRight afterOther alikeRight) _
      | _ => simp [Expr.alike] at alike
  | extract extracts _ ih =>
      intro other found compilesOther alike
      cases compilesOther with
      | extract extractsOther belowOther =>
          simp only [Expr.alike, Expr.alikeAll, Bool.and_true, Bool.and_eq_true,
            beq_iff_eq] at alike
          rw [DatePart.ofFunction?, alike.1, ← DatePart.ofFunction?, extractsOther] at extracts
          cases extracts
          exact (ih belowOther alike.2).enclose rfl _
      | _ => simp [Expr.alike, Expr.alikeAll] at alike
  | now =>
      intro other found compilesOther alike
      cases compilesOther with
      | now => exact ⟨rfl, .nil⟩
      | _ => simp [Expr.alike, Expr.alikeAll] at alike
  | paren _ ih =>
      intro other found compilesOther alike
      cases compilesOther with
      | paren belowOther => exact ih belowOther (by simpa [Expr.alike] using alike)
      | _ => simp [Expr.alike] at alike

end Compiler

end Filter

end QueryClause
