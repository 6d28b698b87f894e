import Mathlib
import QueryClause.Proofs.Alike
import QueryClause.Proofs.QuotedNames

/-!
# Unique reading of compiled filters

The text and the values that an expression is compiled to tell the expression, and where
its text ends, whatever follows it in a larger text. For that every field needs a column
of its own. With the converse, that alike expressions are compiled alike, the SQL of a
filter is the same exactly where the expression is the same but for written parentheses
and what does not matter to trees that are alike.
-/

namespace QueryClause

open QueryClause.Sql

/-- Different fields have different columns. -/
def FieldMap.Separate (fields : FieldMap) : Prop :=
  ∀ ⦃field other : String⦄ ⦃column : Column⦄,
    fields.get? field = some column → fields.get? other = some column → field = other

/-! ## The characters of a fragment -/

namespace Fragment

/-- The characters of a fragment whose first placeholder has the number `next`. -/
def chars (fragment : Fragment) (next : Nat) : List Char :=
  (sqlFrom next fragment.segments).toList

@[simp]
theorem chars_keyword (text : String) (next : Nat) : (keyword text).chars next = text.toList := by
  simp [chars, keyword, sqlFrom]

@[simp]
theorem chars_identifier (column : Column) (next : Nat) :
    (identifier column).chars next = column.sql.toList := by
  simp [chars, identifier, sqlFrom]

@[simp]
theorem chars_value (bound : Value) (next : Nat) :
    (value bound).chars next = '$' :: next.repr.toList := by
  simp [chars, value, sqlFrom]

@[simp]
theorem chars_append (first second : Fragment) (next : Nat) :
    (first ++ second).chars next =
      first.chars next ++ second.chars (next + first.params.length) := by
  rw [chars, segments_append, sqlFrom_append, String.toList_append, chars, chars, params]

end Fragment

theorem Sql.endsName_cons {char : Char} {rest : List Char} :
    EndsName (char :: rest) ↔ char ≠ Column.quote ∧ char ≠ '.' := by
  simp [EndsName]

theorem Sql.endsName_close (rest : List Char) : EndsName (')' :: rest) :=
  endsName_cons.mpr (by decide)

theorem Column.exists_sql (column : Column) : ∃ rest, column.sql.toList = quote :: rest := by
  cases shape : column.parts with
  | nil => exact absurd shape column.parts_ne_nil
  | cons first others => cases others <;> simp [sql, shape, quotePart, List.intercalate]

namespace Filter

namespace Compiled

@[simp]
theorem chars_enclose (before : Fragment) (inner : Compiled) (after : String) (next : Nat) :
    (inner.enclose before after).fragment.chars next = before.chars next ++
      (inner.fragment.chars (next + before.params.length) ++ after.toList) := by
  simp [enclose]

@[simp]
theorem chars_combine (operator : String) (left right : Compiled) (next : Nat) :
    (left.combine operator right).fragment.chars next = '(' :: (left.fragment.chars next ++
      (operator.toList ++ (right.fragment.chars (next + left.fragment.params.length) ++ [')']))) := by
  simp [combine, Fragment.parenthesized]

end Compiled

/-! ## Keywords -/

/-- No operator begins the SQL of another one. -/
theorem operatorSql?_append_inj {operator other : BinaryOp} {sql found : String}
    {rest behind : List Char} (supported : operatorSql? operator = some sql)
    (supportedOther : operatorSql? other = some found)
    (same : sql.toList ++ rest = found.toList ++ behind) : operator = other ∧ rest = behind := by
  cases operator <;> cases supported <;> cases other <;> cases supportedOther <;>
    simp_all

/-- No operator goes on with a name. -/
theorem endsName_operatorSql {operator : BinaryOp} {sql : String}
    (supported : operatorSql? operator = some sql) (rest : List Char) :
    EndsName (sql.toList ++ rest) := by
  have blank : ∃ tail, sql.toList = ' ' :: tail := by
    cases operator <;> cases supported <;> exact ⟨_, rfl⟩
  obtain ⟨tail, shape⟩ := blank
  rw [shape, List.cons_append]
  exact endsName_cons.mpr (by decide)

/-- No part of a date begins the keyword of another one. -/
theorem DatePart.keyword_append_inj {part other : DatePart} {rest behind : List Char}
    (same : part.keyword.toList ++ rest = other.keyword.toList ++ behind) :
    part = other ∧ rest = behind := by
  cases part <;> cases other <;> simp_all [DatePart.keyword]

/-- The character that the SQL of an expression begins with. -/
def mark : Expr → Char
  | .member .. => Column.quote
  | .literal _ .null _ => 'N'
  | .literal .. => '$'
  | .unary .. => '('
  | .binary .. => '('
  | .call _ [] _ => 'n'
  | .call .. => 'E'
  | .paren inner _ => mark inner

namespace Compiler

variable {compiler : Compiler}

/-- Below the parentheses around it, an expression is no parentheses. -/
theorem Compiles.peel {expression : Expr} {compiled : Compiled}
    (compiles : Compiles compiler expression compiled) :
    ∃ bare, Compiles compiler bare compiled ∧ (∀ inner span, bare ≠ .paren inner span) ∧
      bare.unparenthesized = expression.unparenthesized := by
  induction compiles with
  | paren below ih =>
      obtain ⟨bare, compiles, noParen, same⟩ := ih
      exact ⟨bare, compiles, noParen, by rw [same, Expr.unparenthesized]⟩
  | member known => exact ⟨_, .member known, by simp, rfl⟩
  | literal => exact ⟨_, .literal, by simp, rfl⟩
  | not below => exact ⟨_, .not below, by simp, rfl⟩
  | binary supported before after => exact ⟨_, .binary supported before after, by simp, rfl⟩
  | extract extracts below => exact ⟨_, .extract extracts below, by simp, rfl⟩
  | now isNow => exact ⟨_, .now isNow, by simp, rfl⟩

theorem Compiles.exists_chars {expression : Expr} {compiled : Compiled}
    (compiles : Compiles compiler expression compiled) (next : Nat) :
    ∃ rest, compiled.fragment.chars next = mark expression :: rest := by
  induction compiles with
  | member => simpa [mark] using Column.exists_sql _
  | @literal _ value _ => cases value <;> simp [mark, literalFragment]
  | not => simp [mark]
  | binary => simp [mark]
  | extract => simp [mark]
  | now => simp [mark]
  | paren _ ih => simpa [mark] using ih

/-- Where two compiled expressions begin one text, they begin with one mark. -/
theorem Compiles.mark_eq {expression other : Expr} {compiled found : Compiled}
    (compiles : Compiles compiler expression compiled)
    (compilesOther : Compiles compiler other found) {next : Nat} {rest behind : List Char}
    (same : compiled.fragment.chars next ++ rest = found.fragment.chars next ++ behind) :
    mark expression = mark other := by
  obtain ⟨tail, shape⟩ := compiles.exists_chars next
  obtain ⟨tailOther, shapeOther⟩ := compilesOther.exists_chars next
  rw [shape, shapeOther, List.cons_append, List.cons_append] at same
  exact (List.cons.inj same).1

/-- The SQL of a negation is not that of a combination: no left operand begins with `NO`. -/
theorem Compiles.combine_ne_not {left : Expr} {first second inner : Compiled} {sql : String}
    (compiles : Compiles compiler left first) {next : Nat} {rest behind : List Char} :
    (first.combine sql second).fragment.chars next ++ rest ≠
      (inner.enclose (.keyword "(NOT ") ")").fragment.chars next ++ behind := by
  intro same
  obtain ⟨bare, compilesBare, noParen, -⟩ := compiles.peel
  obtain ⟨tail, shape⟩ := compilesBare.exists_chars next
  simp only [Compiled.chars_combine, shape, Compiled.chars_enclose, Fragment.chars_keyword,
    String.reduceToList, List.cons_append, List.cons.injEq, true_and] at same
  have isMark : mark bare = 'N' := same.1
  cases compilesBare with
  | @literal _ value _ =>
      cases value with
      | null =>
          -- `NULL` begins with the same letter, and goes on with another one.
          simp only [literalFragment, Fragment.chars_keyword, String.reduceToList,
            List.cons.injEq] at shape
          simp [← shape.2] at same
      | _ => simp [mark] at isMark
  | paren => exact absurd rfl (noParen _ _)
  | _ => simp [mark, Column.quote] at isMark

/-- Two fragments that begin one text and one list of values, with what is behind each. -/
structure Meet (first second : Fragment) (next : Nat) (rest behind : List Char)
    (more others : List Value) : Prop where
  text : first.chars next ++ rest = second.chars next ++ behind
  values : Value.AllSame (first.params ++ more) (second.params ++ others)
  ends : EndsName rest
  endsOther : EndsName behind

/-- Two expressions that are alike without their parentheses, and of which the same is
behind both. -/
structure Agree (expression other : Expr) (rest behind : List Char)
    (more others : List Value) : Prop where
  alike : expression.unparenthesized.alike other.unparenthesized = true
  text : rest = behind
  values : Value.AllSame more others

/-- The text and the values of a compiled expression tell the expression and where they
end. -/
def Tells (compiler : Compiler) (expression : Expr) (compiled : Compiled) : Prop :=
  ∀ ⦃other : Expr⦄ ⦃found : Compiled⦄, Compiles compiler other found →
    ∀ ⦃next : Nat⦄ ⦃rest behind : List Char⦄ ⦃more others : List Value⦄,
      Meet compiled.fragment found.fragment next rest behind more others →
        Agree expression other rest behind more others

namespace Tells

/-- Only expressions that are no parentheses and begin with the same mark are in question. -/
theorem of_bare {expression : Expr} {compiled : Compiled}
    (compiles : Compiles compiler expression compiled)
    (told : ∀ ⦃bare : Expr⦄ ⦃found : Compiled⦄, Compiles compiler bare found →
      (∀ inner span, bare ≠ .paren inner span) → mark expression = mark bare →
      ∀ ⦃next : Nat⦄ ⦃rest behind : List Char⦄ ⦃more others : List Value⦄,
        Meet compiled.fragment found.fragment next rest behind more others →
          Agree expression bare rest behind more others) :
    Tells compiler expression compiled := by
  intro other found compilesOther next rest behind more others meet
  obtain ⟨bare, compilesBare, noParen, same⟩ := compilesOther.peel
  have sameMark := compiles.mark_eq compilesBare meet.text
  obtain ⟨alike, text, values⟩ := told compilesBare noParen sameMark meet
  rw [same] at alike
  exact ⟨alike, text, values⟩

theorem enclose {expression other : Expr} {compiled found : Compiled}
    (tells : Tells compiler expression compiled) (compilesOther : Compiles compiler other found)
    {before : Fragment} (noValues : before.params = []) {next : Nat} {rest behind : List Char}
    {more others : List Value}
    (meet : Meet (compiled.enclose before ")").fragment (found.enclose before ")").fragment next
      rest behind more others) :
    Agree expression other rest behind more others := by
  have text : compiled.fragment.chars next ++ ')' :: rest =
      found.fragment.chars next ++ ')' :: behind := by
    simpa [noValues] using meet.text
  have values : Value.AllSame (compiled.fragment.params ++ more)
      (found.fragment.params ++ others) := by
    simpa [noValues] using meet.values
  obtain ⟨alike, same, valuesBehind⟩ := tells compilesOther
    ⟨text, values, endsName_close rest, endsName_close behind⟩
  exact ⟨alike, (List.cons.inj same).2, valuesBehind⟩

theorem member {path : String} {span : Span} {column : Column}
    (separate : FieldMap.Separate compiler.fields)
    (known : compiler.fields.get? path = some column) :
    Tells compiler (.member path span) ⟨.identifier column, path == compiler.deletedAtKey⟩ := by
  apply of_bare (.member known)
  intro bare found compilesBare noParen sameMark next rest behind more others meet
  cases compilesBare with
  | member knownOther =>
      have text := meet.text
      simp only [Fragment.chars_identifier] at text
      obtain ⟨rfl, sameRest⟩ := Column.sql_append_inj meet.ends meet.endsOther text
      obtain rfl := separate known knownOther
      exact ⟨by simp [Expr.unparenthesized, Expr.alike], sameRest, meet.values⟩
  | @literal _ value _ => cases value <;> simp [mark, Column.quote] at sameMark
  | paren => exact absurd rfl (noParen _ _)
  | _ => simp [mark, Column.quote] at sameMark

theorem literal {written : String} {value : Value} {span : Span} :
    Tells compiler (.literal written value span) ⟨literalFragment value, false⟩ := by
  apply of_bare .literal
  intro bare found compilesBare noParen sameMark next rest behind more others meet
  cases compilesBare with
  | @literal _ second _ =>
      cases value with
      | null =>
          cases second with
          | null => exact ⟨rfl, List.append_cancel_left meet.text, meet.values⟩
          | _ => simp [mark] at sameMark
      | _ =>
          cases second with
          | null => simp [mark] at sameMark
          | _ =>
              obtain ⟨same, valuesBehind⟩ := List.forall₂_cons.mp meet.values
              exact ⟨same, List.append_cancel_left meet.text, valuesBehind⟩
  | paren => exact absurd rfl (noParen _ _)
  | _ => cases value <;> simp [mark, Column.quote] at sameMark

theorem not {operand : Expr} {span : Span} {inner : Compiled}
    (below : Compiles compiler operand inner) (tells : Tells compiler operand inner) :
    Tells compiler (.unary .not operand span) (inner.enclose (.keyword "(NOT ") ")") := by
  apply of_bare (.not below)
  intro bare found compilesBare noParen sameMark next rest behind more others meet
  cases compilesBare with
  | not belowOther =>
      obtain ⟨alike, text, values⟩ := tells.enclose belowOther rfl meet
      exact ⟨by simpa [Expr.unparenthesized, Expr.alike] using alike, text, values⟩
  | binary _ before _ =>
      exact absurd meet.text.symm before.combine_ne_not
  | @literal _ value _ => cases value <;> simp [mark] at sameMark
  | paren => exact absurd rfl (noParen _ _)
  | _ => simp [mark, Column.quote] at sameMark

theorem binary {operator : BinaryOp} {left right : Expr} {span : Span} {sql : String}
    {first second : Compiled} (supported : operatorSql? operator = some sql)
    (before : Compiles compiler left first) (after : Compiles compiler right second)
    (tellsLeft : Tells compiler left first) (tellsRight : Tells compiler right second) :
    Tells compiler (.binary operator left right span) (first.combine sql second) := by
  apply of_bare (.binary supported before after)
  intro bare found compilesBare noParen sameMark next rest behind more others meet
  cases compilesBare with
  | @binary _ _ _ _ sqlOther firstOther secondOther supportedOther beforeOther afterOther =>
      -- The operator ends the left operand, and the closing parenthesis the right one.
      have text := meet.text
      have values := meet.values
      simp only [Compiled.chars_combine, Compiled.params_combine, List.cons_append,
        List.append_assoc, List.cons.injEq, true_and, List.nil_append] at text values
      obtain ⟨alikeLeft, textBehind, valuesBehind⟩ := tellsLeft beforeOther
        ⟨text, values, endsName_operatorSql supported _, endsName_operatorSql supportedOther _⟩
      obtain ⟨rfl, textRight⟩ := operatorSql?_append_inj supported supportedOther textBehind
      have sameCount : first.fragment.params.length = firstOther.fragment.params.length := by
        have whole := values.length_eq
        have later := valuesBehind.length_eq
        simp only [List.length_append] at whole later
        omega
      rw [sameCount] at textRight
      obtain ⟨alikeRight, textEnd, valuesEnd⟩ := tellsRight afterOther
        ⟨textRight, valuesBehind, endsName_close rest, endsName_close behind⟩
      refine ⟨?_, (List.cons.inj textEnd).2, valuesEnd⟩
      simp [Expr.unparenthesized, Expr.alike, alikeLeft, alikeRight]
  | not belowOther =>
      exact absurd meet.text before.combine_ne_not
  | @literal _ value _ => cases value <;> simp [mark] at sameMark
  | paren => exact absurd rfl (noParen _ _)
  | _ => simp [mark, Column.quote] at sameMark

theorem extract {name : String} {argument : Expr} {span : Span} {part : DatePart}
    {inner : Compiled} (extracts : DatePart.ofFunction? name = some part)
    (below : Compiles compiler argument inner) (tells : Tells compiler argument inner) :
    Tells compiler (.call name [argument] span)
      (inner.enclose (.keyword "EXTRACT(" ++ .keyword part.keyword ++ .keyword " FROM ") ")") := by
  apply of_bare (.extract extracts below)
  intro bare found compilesBare noParen sameMark next rest behind more others meet
  cases compilesBare with
  | extract extractsOther belowOther =>
      have text := meet.text
      simp only [Compiled.chars_enclose, Fragment.chars_append, Fragment.chars_keyword,
        List.append_assoc] at text
      obtain ⟨rfl, -⟩ := DatePart.keyword_append_inj (List.append_cancel_left text)
      obtain ⟨alike, textBehind, values⟩ := tells.enclose belowOther rfl meet
      refine ⟨?_, textBehind, values⟩
      simp [Expr.unparenthesized, Expr.unparenthesizedAll, Expr.alike, Expr.alikeAll, alike,
        DatePart.ofFunction?_eq_some_iff.mp extracts,
        DatePart.ofFunction?_eq_some_iff.mp extractsOther]
  | @literal _ value _ => cases value <;> simp [mark] at sameMark
  | paren => exact absurd rfl (noParen _ _)
  | _ => simp [mark, Column.quote] at sameMark

theorem now {name : String} {span : Span} (isNow : foldCase name = "now") :
    Tells compiler (.call name [] span) ⟨.keyword "now()", false⟩ := by
  apply of_bare (.now isNow)
  intro bare found compilesBare noParen sameMark next rest behind more others meet
  cases compilesBare with
  | now isNowOther =>
      refine ⟨?_, List.append_cancel_left meet.text, meet.values⟩
      simp [Expr.unparenthesized, Expr.unparenthesizedAll, Expr.alike, Expr.alikeAll, isNow,
        isNowOther]
  | @literal _ value _ => cases value <;> simp [mark] at sameMark
  | paren => exact absurd rfl (noParen _ _)
  | _ => simp [mark, Column.quote] at sameMark

theorem paren {inner : Expr} {span : Span} {compiled : Compiled}
    (tells : Tells compiler inner compiled) : Tells compiler (.paren inner span) compiled := by
  intro other found compilesOther next rest behind more others meet
  obtain ⟨alike, text, values⟩ := tells compilesOther meet
  exact ⟨by simpa [Expr.unparenthesized] using alike, text, values⟩

end Tells

/-- Where every field has a column of its own, text and values tell the expression. -/
theorem Compiles.tells (separate : FieldMap.Separate compiler.fields) {expression : Expr}
    {compiled : Compiled} (compiles : Compiles compiler expression compiled) :
    Tells compiler expression compiled := by
  induction compiles with
  | member known => exact .member separate known
  | literal => exact .literal
  | not below ih => exact .not below ih
  | binary supported before after ihLeft ihRight =>
      exact .binary supported before after ihLeft ihRight
  | extract extracts below ih => exact .extract extracts below ih
  | now isNow => exact .now isNow
  | paren _ ih => exact .paren ih

/-- The condition on deleted rows stands behind a compiled expression, if it is there. -/
theorem exists_chars_restrict (compiler : Compiler) (compiled : Compiled) (next : Nat) :
    ∃ rest, EndsName rest ∧
      (compiler.restrict compiled).chars next = compiled.fragment.chars next ++ rest := by
  unfold restrict
  split
  · exact ⟨[], by simp [EndsName], by simp⟩
  · rw [Fragment.append_assoc, Fragment.chars_append, Fragment.chars_append,
      Fragment.chars_keyword]
    exact ⟨_, endsName_operatorSql (show operatorSql? .and = some " AND " from rfl) _, rfl⟩

end Compiler

/-- Text and values of two compiled expressions are the same only if the expressions are
alike without written parentheses. -/
theorem Compiler.Compiles.alike_of_same {compiler : Compiler} {expression other : Expr}
    {compiled found : Compiled} (compiles : compiler.Compiles expression compiled)
    (compilesOther : compiler.Compiles other found)
    (separate : FieldMap.Separate compiler.fields) {first : Nat}
    (same : ((compiler.restrict compiled).renderFrom first).Same
      ((compiler.restrict found).renderFrom first)) :
    expression.unparenthesized.alike other.unparenthesized = true := by
  obtain ⟨rest, ends, chars⟩ := compiler.exists_chars_restrict compiled first
  obtain ⟨behind, endsOther, charsOther⟩ := compiler.exists_chars_restrict found first
  have text : compiled.fragment.chars first ++ rest = found.fragment.chars first ++ behind := by
    rw [← chars, ← charsOther]
    exact congrArg String.toList same.sql
  have values : Value.AllSame (compiled.fragment.params ++ []) (found.fragment.params ++ []) := by
    rw [List.append_nil, List.append_nil, ← compiler.params_restrict, ← compiler.params_restrict]
    exact same.params
  exact (compiles.tells separate compilesOther ⟨text, values, ends, endsOther⟩).alike

/-- Where every field has a column of its own, two filters have the same SQL and the same
values exactly if their expressions are alike without written parentheses. Leaving those
parentheses out changes nothing, not even an error. -/
theorem rendered_same_iff_alike {compiler : Compiler}
    (separate : FieldMap.Separate compiler.fields) :
    (∀ (expression other : Expr) (fragment found : Fragment) (first : Nat),
      compiler.compileExpr expression = .ok fragment → compiler.compileExpr other = .ok found →
      ((fragment.renderFrom first).Same (found.renderFrom first) ↔
        expression.unparenthesized.alike other.unparenthesized = true)) ∧
    ∀ expression : Expr,
      compiler.compileExpr expression.unparenthesized = compiler.compileExpr expression := by
  refine ⟨?_, compiler.compileExpr_unparenthesized⟩
  intro expression other fragment found first accepted acceptedOther
  obtain ⟨compiled, compiles, rfl⟩ := Compiler.compileExpr_eq_ok_iff.mp accepted
  obtain ⟨again, compilesOther, rfl⟩ := Compiler.compileExpr_eq_ok_iff.mp acceptedOther
  constructor
  · exact compiles.alike_of_same compilesOther separate
  · intro alike
    exact compiler.same_restrict
      (compiles.unparenthesized.same_of_alike compilesOther.unparenthesized alike) first

/-- Redundant parentheses, the case of a function name and a zero behind a number do not
show in the SQL, and another grouping does. -/
theorem rendered_same_iff_alike_grouping :
    ∃ (compiler : Compiler) (expression other regrouped : Expr) (fragment found third : Fragment),
      FieldMap.Separate compiler.fields ∧
      expression.canonical = "NOW() eq 1.50 or a and a" ∧
      other.canonical = "(now() eq 1.5) or ((a) and a)" ∧
      regrouped.canonical = "(now() eq 1.5 or a) and a" ∧
      compiler.compileExpr expression = .ok fragment ∧
      compiler.compileExpr other = .ok found ∧
      compiler.compileExpr regrouped = .ok third ∧
      fragment.render.Same found.render ∧ ¬fragment.render.Same third.render := by
  let column : Column := ⟨["t", "a"], by simp, by simp, by decide⟩
  let deleted : Column := ⟨["t", "d"], by simp, by simp, by decide⟩
  let compiler : Compiler := ⟨⟨[("a", column), ("d", deleted)], by decide⟩, "d", deleted⟩
  let member : Expr := .member "a" ⟨0, 1⟩
  let long : Expr := .literal "1.50" (.number ⟨150, 2, by decide, by decide⟩) ⟨0, 4⟩
  let short : Expr := .literal "1.5" (.number ⟨15, 1, by decide, by decide⟩) ⟨0, 3⟩
  let upper : Expr := .binary .eq (.call "NOW" [] ⟨0, 5⟩) long ⟨0, 13⟩
  let lower : Expr := .binary .eq (.call "now" [] ⟨0, 5⟩) short ⟨0, 12⟩
  let expression : Expr := .binary .or upper (.binary .and member member ⟨0, 0⟩) ⟨0, 0⟩
  let other : Expr := .binary .or (.paren lower ⟨0, 0⟩)
    (.paren (.binary .and (.paren member ⟨0, 0⟩) member ⟨0, 0⟩) ⟨0, 0⟩) ⟨0, 0⟩
  let regrouped : Expr :=
    .binary .and (.paren (.binary .or lower member ⟨0, 0⟩) ⟨0, 0⟩) member ⟨0, 0⟩
  have separate : FieldMap.Separate compiler.fields := by
    intro field other found known knownOther
    have different : column ≠ deleted := by decide
    simp only [compiler, Dictionary.get?, List.lookup_cons, List.lookup_nil] at known knownOther
    grind
  have agrees := (rendered_same_iff_alike separate).1
  have accepted : compiler.compileExpr expression = .ok _ := rfl
  have acceptedOther : compiler.compileExpr other = .ok _ := rfl
  have acceptedRegrouped : compiler.compileExpr regrouped = .ok _ := rfl
  refine ⟨compiler, expression, other, regrouped, _, _, _, separate, by decide +kernel,
    by decide +kernel, by decide +kernel, accepted, acceptedOther, acceptedRegrouped, ?_, ?_⟩
  · exact (agrees _ _ _ _ 1 accepted acceptedOther).mpr (by decide +kernel)
  · intro same
    have alike := (agrees _ _ _ _ 1 accepted acceptedRegrouped).mp same
    exact absurd alike (by decide +kernel)

end Filter

end QueryClause
