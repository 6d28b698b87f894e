import QueryClause.Filter

/-!
# What the compiler of filters accepts

The expressions that are compiled, each with what it is compiled to, as a relation. It
holds exactly where the compiler succeeds, so that facts about compiled expressions are
proved by induction on it.
-/

namespace QueryClause.Filter

/-- The name of the function that extracts a part. -/
def DatePart.function : DatePart → String
  | .year => "year"
  | .month => "month"
  | .day => "day"
  | .hour => "hour"
  | .minute => "minute"
  | .second => "second"

theorem DatePart.ofFunction?_eq_some_iff {name : String} {part : DatePart} :
    ofFunction? name = some part ↔ foldCase name = part.function := by
  constructor
  · intro extracts
    unfold ofFunction? at extracts
    split at extracts <;> cases extracts <;> assumption
  · intro named
    cases part <;> rw [ofFunction?, named] <;> rfl

namespace Compiler

/-- An expression is compiled to a fragment. -/
inductive Compiles (compiler : Compiler) : Expr → Compiled → Prop where
  | member {path : String} {span : Span} {column : Column}
      (known : compiler.fields.get? path = some column) :
      Compiles compiler (.member path span)
        ⟨.identifier column, path == compiler.deletedAtKey⟩
  | literal {written : String} {value : Value} {span : Span} :
      Compiles compiler (.literal written value span) ⟨literalFragment value, false⟩
  | not {operand : Expr} {span : Span} {inner : Compiled} (below : Compiles compiler operand inner) :
      Compiles compiler (.unary .not operand span) (inner.enclose (.keyword "(NOT ") ")")
  | binary {operator : BinaryOp} {left right : Expr} {span : Span} {sql : String}
      {first second : Compiled} (supported : operatorSql? operator = some sql)
      (before : Compiles compiler left first) (after : Compiles compiler right second) :
      Compiles compiler (.binary operator left right span) (first.combine sql second)
  | extract {name : String} {argument : Expr} {span : Span} {part : DatePart} {inner : Compiled}
      (extracts : DatePart.ofFunction? name = some part)
      (below : Compiles compiler argument inner) :
      Compiles compiler (.call name [argument] span)
        (inner.enclose (.keyword "EXTRACT(" ++ .keyword part.keyword ++ .keyword " FROM ") ")")
  | now {name : String} {span : Span} (isNow : foldCase name = "now") :
      Compiles compiler (.call name [] span) ⟨.keyword "now()", false⟩
  | paren {inner : Expr} {span : Span} {compiled : Compiled}
      (below : Compiles compiler inner compiled) :
      Compiles compiler (.paren inner span) compiled

theorem bind_eq_ok {first : Except CompileError Compiled}
    {rest : Compiled → Except CompileError Compiled} {result : Compiled}
    (ran : (first >>= rest) = .ok result) : ∃ compiled, first = .ok compiled ∧
      rest compiled = .ok result := by
  cases first with
  | error reason => cases ran
  | ok compiled => exact ⟨compiled, rfl, ran⟩

variable {compiler : Compiler}

theorem compiles_of_walk : (expression : Expr) → ∀ {compiled : Compiled},
    compiler.walk expression = .ok compiled → Compiles compiler expression compiled
  | .member path _, _, ran => by
      rw [walk] at ran
      split at ran
      · rename_i known
        cases ran
        exact .member known
      · cases ran
  | .literal _ _ _, _, ran => by
      rw [walk] at ran
      cases ran
      exact .literal
  | .unary .not operand _, _, ran => by
      rw [walk] at ran
      obtain ⟨inner, ranInner, returned⟩ := bind_eq_ok ran
      cases returned
      exact .not (compiles_of_walk operand ranInner)
  | .unary .negate _ _, _, ran => by
      rw [walk] at ran
      cases ran
  | .binary _ left right _, _, ran => by
      rw [walk] at ran
      split at ran
      · rename_i supported
        obtain ⟨first, ranFirst, goesOn⟩ := bind_eq_ok ran
        obtain ⟨second, ranSecond, returned⟩ := bind_eq_ok goesOn
        cases returned
        exact .binary supported (compiles_of_walk left ranFirst) (compiles_of_walk right ranSecond)
      · cases ran
  | .call name [] _, _, ran => by
      rw [walk] at ran
      · split at ran
        · rename_i isNow
          cases ran
          exact .now (by simpa using isNow)
        · cases ran
      · simp
  | .call _ [argument] _, _, ran => by
      rw [walk] at ran
      split at ran
      · rename_i extracts
        obtain ⟨inner, ranInner, returned⟩ := bind_eq_ok ran
        cases returned
        exact .extract extracts (compiles_of_walk argument ranInner)
      · cases ran
  | .call _ (_ :: _ :: _) _, _, ran => by
      rw [walk] at ran
      · cases ran
      · simp
  | .paren inner _, _, ran => by
      rw [walk] at ran
      exact .paren (compiles_of_walk inner ran)

theorem Compiles.walk_eq {expression : Expr} {compiled : Compiled}
    (compiles : Compiles compiler expression compiled) :
    compiler.walk expression = .ok compiled := by
  induction compiles with
  | member known => rw [walk, known]
  | literal => rw [walk]
  | not _ ih =>
      rw [walk, ih]
      rfl
  | binary supported _ _ ihLeft ihRight =>
      rw [walk, supported, ihLeft, ihRight]
      rfl
  | extract extracts _ ih =>
      rw [walk, extracts, ih]
      rfl
  | now isNow => simp [walk, isNow]
  | paren _ ih => rw [walk, ih]

/-- The compiler succeeds exactly where the relation holds. -/
theorem walk_eq_ok_iff {expression : Expr} {compiled : Compiled} :
    compiler.walk expression = .ok compiled ↔ Compiles compiler expression compiled :=
  ⟨compiles_of_walk expression, Compiles.walk_eq⟩

theorem compileExpr_eq_ok_iff {expression : Expr} {fragment : Fragment} :
    compiler.compileExpr expression = .ok fragment ↔
      ∃ compiled, Compiles compiler expression compiled ∧
        compiler.restrict compiled = fragment := by
  simp only [← walk_eq_ok_iff]
  unfold compileExpr
  cases compiler.walk expression with
  | error reason => simp [bind, Except.bind]
  | ok compiled => simp [bind, Except.bind, pure, Except.pure]

/-- A text is accepted if it is absent or blank, or if its tree is compiled. -/
theorem compile_eq_ok_iff {text : Option String} {fragment : Fragment} :
    compiler.compile text = .ok fragment ↔
      (significant? text = none ∧ compiler.excludeDeleted = fragment) ∨
      ∃ words whole compiled, significant? text = some words ∧ parse words = .ok whole ∧
        Compiles compiler whole compiled ∧ compiler.restrict compiled = fragment := by
  unfold compile
  cases significant? text with
  | none => simp
  | some words =>
      cases parsed : parse words with
      | error reason => simp [parsed]
      | ok whole => simp [parsed, compileExpr_eq_ok_iff]

end Compiler

end QueryClause.Filter
