import Mathlib
import QueryClause.Proofs.Compiles
import QueryClause.Proofs.ParserCompleteness
import QueryClause.Proofs.Splice

/-!
# Values stay beside the text

The parameters of a compiled filter are the literals of its text that are not null, in
order. The rest of what is compiled does not depend on them, so that another string in
the place of a string literal changes one parameter and nothing else.
-/

namespace QueryClause

open QueryClause.Grammar

/-! ## Bound values -/

/-- The value that a literal binds: every value but null. -/
def Value.bound? : Value → Option Value
  | .null => none
  | value => some value

/-- The value that a token binds. -/
def Token.bound? : Token → Option Value
  | .literal value => value.bound?
  | _ => none

/-- The value that a lexeme binds. -/
def Lexeme.bound? (lexeme : Lexeme) : Option Value :=
  lexeme.token.bound?

/-- The value that a node binds. -/
def Expr.bound? : Expr → Option Value
  | .literal _ value _ => value.bound?
  | _ => none

/-- The values that an expression binds, from left to right. -/
def Expr.bounds (expression : Expr) : List Value :=
  expression.preorder.filterMap Expr.bound?

section Bounds

variable {span : Span}

@[simp]
theorem Expr.bounds_literal {written : String} {value : Value} :
    (Expr.literal written value span).bounds = value.bound?.toList := by
  cases value <;> rfl

@[simp]
theorem Expr.bounds_member {path : String} : (Expr.member path span).bounds = [] :=
  rfl

@[simp]
theorem Expr.bounds_unary {operator : UnaryOp} {operand : Expr} :
    (Expr.unary operator operand span).bounds = operand.bounds := by
  rw [bounds, preorder, List.filterMap_cons_none rfl, bounds]

@[simp]
theorem Expr.bounds_binary {operator : BinaryOp} {left right : Expr} :
    (Expr.binary operator left right span).bounds = left.bounds ++ right.bounds := by
  rw [bounds, preorder, List.cons_append, List.filterMap_cons_none rfl, List.filterMap_append,
    bounds, bounds]

@[simp]
theorem Expr.bounds_call {name : String} {arguments : List Expr} :
    (Expr.call name arguments span).bounds = arguments.flatMap Expr.bounds := by
  rw [bounds, preorder, List.filterMap_cons_none rfl, preorderAll_eq, List.filterMap_flatMap]
  rfl

@[simp]
theorem Expr.bounds_paren {inner : Expr} : (Expr.paren inner span).bounds = inner.bounds := by
  rw [bounds, preorder, List.filterMap_cons_none rfl, bounds]

end Bounds

theorem Lexeme.bound?_eq_none {lexeme : Lexeme} {token : Token} (isToken : lexeme.token = token)
    (noLiteral : token.bound? = none) : lexeme.bound? = none := by
  rw [Lexeme.bound?, isToken, noLiteral]

mutual

/-- A derived tree binds the values of its lexemes. -/
theorem Grammar.Derives.bounds_eq {layer : Layer} {lexemes : List Lexeme} {whole : Expr} :
    Derives layer lexemes whole → lexemes.filterMap Lexeme.bound? = whole.bounds
  | .chain _ operand tail => by
      rw [List.filterMap_append, operand.bounds_eq, tail.bounds_eq]
  | .lift _ inner => inner.bounds_eq
  | .not isNot inner => by
      simp [Lexeme.bound?_eq_none isNot rfl, inner.bounds_eq]
  | .compared before isOperator _ after => by
      simp [Lexeme.bound?_eq_none isOperator rfl, before.bounds_eq, after.bounds_eq]
  | .minus isMinus inner => by
      simp [Lexeme.bound?_eq_none isMinus rfl, inner.bounds_eq]
  | .literal isLiteral => by
      rw [Expr.bounds_literal, List.filterMap_cons, Lexeme.bound?, isLiteral, Token.bound?]
      split <;> simp_all
  | .member isName => by
      simp [Lexeme.bound?_eq_none isName rfl]
  | .callEmpty isName opens closes => by
      simp [Lexeme.bound?_eq_none isName rfl, Lexeme.bound?_eq_none opens rfl,
        Lexeme.bound?_eq_none closes rfl]
  | .call isName opens inner closes => by
      simp [Lexeme.bound?_eq_none isName rfl, Lexeme.bound?_eq_none opens rfl,
        Lexeme.bound?_eq_none closes rfl, inner.bounds_eq]
  | .paren opens inner closes => by
      simp [Lexeme.bound?_eq_none opens rfl, Lexeme.bound?_eq_none closes rfl, inner.bounds_eq]

theorem Grammar.Tail.bounds_eq {tier : Tier} {below : Layer} {left whole : Expr}
    {lexemes : List Lexeme} : Tail tier below left lexemes whole →
      left.bounds ++ lexemes.filterMap Lexeme.bound? = whole.bounds
  | .done => by simp
  | .more isOperator _ operand tail => by
      rw [← tail.bounds_eq]
      simp [Lexeme.bound?_eq_none isOperator rfl, operand.bounds_eq]

theorem Grammar.Arguments.bounds_eq {lexemes : List Lexeme} {arguments : List Expr} :
    Arguments lexemes arguments →
      lexemes.filterMap Lexeme.bound? = arguments.flatMap Expr.bounds
  | .last inner => by simp [inner.bounds_eq]
  | .more inner divides tail => by
      simp [Lexeme.bound?_eq_none divides rfl, inner.bounds_eq, tail.bounds_eq]

end

/-! ## Fragments without their values -/

/-- The segment with any value replaced by null. -/
def Segment.shape : Segment → Segment
  | .value _ => .value .null
  | segment => segment

/-- The segments of a fragment without their values. -/
def Fragment.shape (fragment : Fragment) : List Segment :=
  fragment.segments.map Segment.shape

@[simp]
theorem Fragment.shape_append (first second : Fragment) :
    (first ++ second).shape = first.shape ++ second.shape :=
  List.map_append

/-- Values do not show in the text. -/
theorem Fragment.sqlFrom_shape (next : Nat) (segments : List Segment) :
    sqlFrom next (segments.map Segment.shape) = sqlFrom next segments := by
  induction segments generalizing next with
  | nil => rfl
  | cons segment rest ih =>
      cases segment with
      | keyword text => exact congrArg (text ++ ·) (ih next)
      | identifier column => exact congrArg (column.sql ++ ·) (ih next)
      | value bound => exact congrArg ("$" ++ next.repr ++ ·) (ih (next + 1))

theorem Fragment.sql_eq_of_shape {first second : Fragment} (same : first.shape = second.shape)
    (next : Nat) : (first.renderFrom next).sql = (second.renderFrom next).sql := by
  rw [renderFrom, renderFrom, ← sqlFrom_shape, ← sqlFrom_shape next second.segments]
  exact congrArg (sqlFrom next) same

theorem ne_nil_of_lexed {text : String} {before after : List Lexeme} {lexeme : Lexeme}
    (lexes : lexed text = .ok (before ++ lexeme :: after)) : text.toList ≠ [] := by
  obtain ⟨last, walk, _⟩ := lexed_eq_ok_iff.mp lexes
  have long := walk.length_add_le
  simp only [Cursor.start, List.length_append, List.length_cons] at long
  exact List.ne_nil_of_length_pos (by omega)

namespace Filter

/-- The text of a filter without blanks at its ends. -/
def trimmed (text : String) : String :=
  String.ofList (Text.trim text.toList)

theorem trimmed_trimmed (text : String) : Text.Trimmed (trimmed text).toList := by
  rw [trimmed, String.toList_ofList]
  exact Text.trimmed_trim _

theorem trimmed_eq_self {text : String} (clean : Text.Trimmed text.toList) :
    trimmed text = text := by
  rw [trimmed, Text.trim_eq_self clean, String.ofList_toList]

theorem significant?_eq {text : String} (nonempty : (trimmed text).toList ≠ []) :
    significant? (some text) = some (trimmed text) := by
  rw [trimmed, String.toList_ofList] at nonempty
  cases shape : Text.trim text.toList with
  | nil => exact absurd shape nonempty
  | cons first rest => simp [significant?, trimmed, shape]

/-- What is left of a compiled expression without its values. -/
def Compiled.outline (compiled : Compiled) : List Segment × Bool :=
  (compiled.fragment.shape, compiled.namesDeletedAt)

/-- What is left of a result without values and without the reason of a failure. -/
def outline? (result : Except CompileError Compiled) : Option (List Segment × Bool) :=
  result.toOption.map Compiled.outline

theorem outline?_bind {first second : Except CompileError Compiled}
    {rest other : Compiled → Except CompileError Compiled} (same : outline? first = outline? second)
    (sameRest : ∀ left right, left.outline = right.outline →
      outline? (rest left) = outline? (other right)) :
    outline? (first >>= rest) = outline? (second >>= other) := by
  cases first with
  | error reason =>
      cases second with
      | error reason => rfl
      | ok right => cases same
  | ok left =>
      cases second with
      | error reason => cases same
      | ok right => exact sameRest left right (Option.some.inj same)

theorem exists_of_outline? {result : Except CompileError Compiled} {compiled : Compiled}
    (same : outline? result = outline? (.ok compiled)) :
    ∃ found, result = .ok found ∧ found.outline = compiled.outline := by
  cases result with
  | error reason => cases same
  | ok found => exact ⟨found, rfl, Option.some.inj same⟩

theorem outline_enclose {left right : Compiled} (same : left.outline = right.outline)
    (before : Fragment) (after : String) :
    (left.enclose before after).outline = (right.enclose before after).outline := by
  simp only [Compiled.outline, Prod.mk.injEq] at same
  simp [Compiled.outline, Compiled.enclose, same]

theorem outline_combine {left right first second : Compiled}
    (sameLeft : left.outline = first.outline) (sameRight : right.outline = second.outline)
    (operator : String) :
    (left.combine operator right).outline = (first.combine operator second).outline := by
  simp only [Compiled.outline, Prod.mk.injEq] at sameLeft sameRight
  simp [Compiled.outline, Compiled.combine, Fragment.parenthesized, sameLeft, sameRight]

theorem shape_literalFragment {value other : Value} (nulls : value = .null ↔ other = .null) :
    (literalFragment value).shape = (literalFragment other).shape := by
  cases value <;> cases other <;> simp_all [literalFragment, Fragment.shape, Fragment.value,
    Fragment.keyword, Segment.shape]

namespace Compiler

/-- A labeling that keeps null apart does not change what is compiled, values apart. -/
theorem outline?_walk_relabel (compiler : Compiler) {label : Labeling}
    (nulls : ∀ written value, (label written value).2 = .null ↔ value = .null) :
    (expression : Expr) →
      outline? (compiler.walk (expression.relabel label)) = outline? (compiler.walk expression)
  | .member path _ => by
      rw [Expr.relabel, walk, walk]
      cases compiler.fields.get? path <;> rfl
  | .literal written value _ => by
      have same := shape_literalFragment (nulls written value)
      rw [Expr.relabel, walk, walk]
      exact congrArg (fun shape => some (shape, false)) same
  | .unary .not operand _ => by
      rw [Expr.relabel, walk, walk]
      refine outline?_bind (outline?_walk_relabel compiler nulls operand) fun left right same => ?_
      exact congrArg some (outline_enclose same _ _)
  | .unary .negate operand _ => by
      rw [Expr.relabel, walk, walk]
      rfl
  | .binary operator left right _ => by
      rw [Expr.relabel, walk, walk]
      cases operatorSql? operator with
      | none => rfl
      | some sql =>
          refine outline?_bind (outline?_walk_relabel compiler nulls left) fun _ _ sameLeft => ?_
          refine outline?_bind (outline?_walk_relabel compiler nulls right) fun _ _ sameRight => ?_
          exact congrArg some (outline_combine sameLeft sameRight sql)
  | .call name [] _ => by
      rw [Expr.relabel, Expr.relabelAll, walk, walk]
      · split <;> rfl
      · simp
      · simp
  | .call name [argument] _ => by
      rw [Expr.relabel, Expr.relabelAll, Expr.relabelAll, walk, walk]
      cases DatePart.ofFunction? name with
      | none => rfl
      | some part =>
          refine outline?_bind (outline?_walk_relabel compiler nulls argument)
            fun left right same => ?_
          exact congrArg some (outline_enclose same _ _)
  | .call name (first :: second :: rest) _ => by
      rw [Expr.relabel, Expr.relabelAll, Expr.relabelAll, walk, walk]
      · rfl
      · simp
      · simp
  | .paren inner _ => by
      rw [Expr.relabel, walk, walk]
      exact outline?_walk_relabel compiler nulls inner

/-- The parameters of a compiled expression are the values that it binds. -/
theorem Compiles.params_eq {compiler : Compiler} {expression : Expr} {compiled : Compiled}
    (compiles : Compiles compiler expression compiled) :
    compiled.fragment.params = expression.bounds := by
  induction compiles with
  | member => rfl
  | @literal _ value _ => cases value <;> rfl
  | not _ ih => simp [Compiled.enclose, ih]
  | binary _ _ _ ihLeft ihRight =>
      simp [Compiled.combine, Fragment.parenthesized, ihLeft, ihRight]
  | extract _ _ ih => simp [Compiled.enclose, ih]
  | now => rfl
  | paren _ ih =>
      rw [Expr.bounds_paren]
      exact ih

/-- Compiled expressions with one outline stay so with the condition on deleted rows. -/
theorem shape_restrict (compiler : Compiler) {first second : Compiled}
    (same : first.outline = second.outline) :
    (compiler.restrict first).shape = (compiler.restrict second).shape := by
  simp only [Compiled.outline, Prod.mk.injEq] at same
  unfold restrict
  rw [same.2]
  split
  · exact same.1
  · rw [Fragment.shape_append, Fragment.shape_append, same.1, Fragment.shape_append,
      Fragment.shape_append]

theorem params_restrict (compiler : Compiler) (compiled : Compiled) :
    (compiler.restrict compiled).params = compiled.fragment.params := by
  unfold restrict
  split
  · rfl
  · simp [excludeDeleted]

end Compiler

/-! ## String literals -/

/-- The labeling that makes all string literals the same. -/
def veil : Labeling
  | _, .text _ => ("", .text "")
  | written, value => (written, value)

theorem veil_null (written : String) (value : Value) :
    (veil written value).2 = .null ↔ value = .null := by
  cases value <;> simp [veil]

theorem filterMap_bound?_of_map_word {lexemes others : List Lexeme}
    (same : others.map Lexeme.word = lexemes.map Lexeme.word) :
    others.filterMap Lexeme.bound? = lexemes.filterMap Lexeme.bound? := by
  have factors : Lexeme.bound? = (fun word => word.1.bound?) ∘ Lexeme.word := rfl
  rw [factors, ← List.filterMap_map, same, List.filterMap_map]

/-- Among the values of lexemes, a string literal comes after those of the lexemes before
it, and another one in its place replaces its value. -/
theorem bounds_replace (before : List Lexeme) {after moved : List Lexeme}
    {lexeme replaced : Lexeme} {content other : String}
    (isText : lexeme.token = .literal (.text content))
    (isOther : replaced.token = .literal (.text other))
    (sameWords : moved.map Lexeme.word = after.map Lexeme.word) :
    ((before ++ lexeme :: after).filterMap Lexeme.bound?)[(before.filterMap Lexeme.bound?).length]? =
        some (.text content) ∧
      (before ++ replaced :: moved).filterMap Lexeme.bound? =
        ((before ++ lexeme :: after).filterMap Lexeme.bound?).set
          (before.filterMap Lexeme.bound?).length (.text other) := by
  have value : lexeme.bound? = some (.text content) := by
    rw [Lexeme.bound?, isText]
    rfl
  have valueOther : replaced.bound? = some (.text other) := by
    rw [Lexeme.bound?, isOther]
    rfl
  rw [List.filterMap_append, List.filterMap_cons_some value, List.filterMap_append,
    List.filterMap_cons_some valueOther, filterMap_bound?_of_map_word sameWords]
  simp

/-- A string in the place of a string literal of an accepted filter is accepted too. The
text of the SQL stays, and of the parameters only the one of the literal is replaced. -/
theorem compile_splice {compiler : Compiler} {text : String} {fragment : Fragment}
    (accepted : compiler.compile (some text) = .ok fragment) {before after : List Lexeme}
    {lexeme : Lexeme} {content : String}
    (lexes : lexed (trimmed text) = .ok (before ++ lexeme :: after))
    (isText : lexeme.token = .literal (.text content)) (other : String) :
    ∃ spliced, compiler.compile (some (splice (trimmed text) lexeme.span other)) = .ok spliced ∧
      ∀ first,
        (spliced.renderFrom first).sql = (fragment.renderFrom first).sql ∧
        (fragment.renderFrom first).params[(before.filterMap Lexeme.bound?).length]? =
          some (.text content) ∧
        (spliced.renderFrom first).params = (fragment.renderFrom first).params.set
          (before.filterMap Lexeme.bound?).length (.text other) := by
  obtain ⟨keeps, replaced, moved, lexesSpliced, isOther, sameWords⟩ :=
    lexed_splice lexes isText other
  have unchanged : trimmed (splice (trimmed text) lexeme.span other) =
      splice (trimmed text) lexeme.span other :=
    trimmed_eq_self (keeps (trimmed_trimmed text))
  obtain ⟨whole, compiled, parsed, compiles, rfl⟩ :
      ∃ whole compiled, parse (trimmed text) = .ok whole ∧ compiler.Compiles whole compiled ∧
        compiler.restrict compiled = fragment := by
    simpa [significant?_eq (ne_nil_of_lexed lexes)] using Compiler.compile_eq_ok_iff.mp accepted
  -- Behind the veil the two texts have the same lexemes, and so their trees agree.
  have sameLabels : (before ++ replaced :: moved).map (Lexeme.labeled veil) =
      (before ++ lexeme :: after).map (Lexeme.labeled veil) := by
    rw [List.map_append, List.map_append, List.map_cons, List.map_cons,
      Lexeme.map_labeled_of_map_word sameWords]
    simp [Lexeme.labeled, isText, isOther, veil]
  obtain ⟨tree, parsedTree, alike⟩ :=
    exists_parse_of_labeled lexes parsed lexesSpliced sameLabels
  have outlines : outline? (compiler.walk tree) = outline? (.ok compiled) := by
    rw [← compiler.outline?_walk_relabel veil_null tree, alike,
      compiler.outline?_walk_relabel veil_null whole, compiles.walk_eq]
  obtain ⟨again, ranTree, same⟩ := exists_of_outline? outlines
  have compilesTree := Compiler.walk_eq_ok_iff.mp ranTree
  have params := compiles.params_eq
  have paramsTree := compilesTree.params_eq
  rw [← (derives_of_parse lexes parsed).1.bounds_eq, ← compiler.params_restrict] at params
  rw [← (derives_of_parse lexesSpliced parsedTree).1.bounds_eq,
    ← compiler.params_restrict] at paramsTree
  refine ⟨compiler.restrict again, ?_, fun first => ⟨?_, ?_⟩⟩
  · have words := significant?_eq (by rw [unchanged]; exact ne_nil_of_lexed lexesSpliced)
    rw [unchanged] at words
    exact Compiler.compile_eq_ok_iff.mpr
      (Or.inr ⟨_, tree, again, words, parsedTree, compilesTree, rfl⟩)
  · exact Fragment.sql_eq_of_shape (compiler.shape_restrict same) first
  · rw [Fragment.renderFrom, Fragment.renderFrom, params, paramsTree]
    exact bounds_replace before isText isOther sameWords

/-- The second of two strings is replaced by one with an apostrophe, inside a nested comparison. -/
theorem compile_splice_apostrophe :
    ∃ (fields : FieldMap) (compiler : Compiler) (fragment spliced : Fragment),
      Compiler.ofRule fields {} = .ok compiler ∧
      compiler.compile (some " not ('a' eq 'x') ") = .ok fragment ∧
      fragment.params = [.text "a", .text "x"] ∧
      splice (trimmed " not ('a' eq 'x') ") ⟨12, 15⟩ "O'Brien" = "not ('a' eq 'O''Brien')" ∧
      compiler.compile (some "not ('a' eq 'O''Brien')") = .ok spliced ∧
      spliced.params = [.text "a", .text "O'Brien"] ∧
      spliced.render.sql = fragment.render.sql := by
  let column : Column := ⟨["deletedAt"], by simp, by simp, by decide⟩
  let fields : FieldMap := ⟨[("__system/deletedAt", column)], by simp⟩
  let compiler : Compiler := ⟨fields, "__system/deletedAt", column⟩
  let equal : Fragment :=
    .value (.text "a") ++ .keyword " IS NOT DISTINCT FROM " ++ .value (.text "x")
  have accepted : compiler.compile (some " not ('a' eq 'x') ") =
      .ok (.keyword "(NOT " ++ equal.parenthesized ++ .keyword ")" ++ .keyword " AND " ++
        compiler.excludeDeleted) := by cbv
  have lexes : lexed (trimmed " not ('a' eq 'x') ") =
      .ok ([⟨.not, ⟨0, 3⟩, "not"⟩, ⟨.openParen, ⟨4, 5⟩, "("⟩,
        ⟨.literal (.text "a"), ⟨5, 8⟩, "'a'"⟩, ⟨.binary .eq, ⟨9, 11⟩, "eq"⟩] ++
          ⟨.literal (.text "x"), ⟨12, 15⟩, "'x'"⟩ :: [⟨.closeParen, ⟨15, 16⟩, ")"⟩]) :=
    lexed_of_toOption (by decide +kernel)
  have replaced : splice (trimmed " not ('a' eq 'x') ") ⟨12, 15⟩ "O'Brien" =
      "not ('a' eq 'O''Brien')" := by decide +kernel
  obtain ⟨spliced, compiled, same⟩ := compile_splice accepted lexes rfl "O'Brien"
  rw [replaced] at compiled
  exact ⟨fields, compiler, _, spliced, rfl, accepted, rfl, replaced, compiled, (same 1).2.2,
    (same 1).1⟩

end Filter

end QueryClause
