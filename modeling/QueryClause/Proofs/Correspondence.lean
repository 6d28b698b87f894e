import Mathlib
import QueryClause.Proofs.NamedFields
import QueryClause.Proofs.Parameters

/-!
# From the lexemes of a text to its SQL

The parameters of an accepted filter are the values of its literals, and its columns are
those of the fields it names, both in the order of the text. None is lost, none comes
twice, and the only column beyond them is the one that excludes deleted rows.
-/

namespace QueryClause

open QueryClause.Grammar

/-! ## Names in a sequence of lexemes -/

/-- The name that a token is. -/
def Token.name? : Token → Option String
  | .identifier name => some name
  | _ => none

namespace Lexeme

/-- Whether lexemes begin with an opening parenthesis. -/
def opens : List Lexeme → Bool
  | [] => false
  | first :: _ => first.token == .openParen

/-- The fields that lexemes name: all names but those before an opening parenthesis, which
are functions. -/
def fieldNames : List Lexeme → List String
  | [] => []
  | lexeme :: rest =>
      match lexeme.token.name? with
      | some name => if opens rest then fieldNames rest else name :: fieldNames rest
      | none => fieldNames rest

variable {lexeme : Lexeme} {first second rest : List Lexeme}

theorem opens_eq_false {token : Token} (isToken : lexeme.token = token)
    (noParen : token ≠ .openParen) : opens (lexeme :: rest) = false := by
  simpa [opens, isToken] using noParen

theorem opens_append (apart : opens second = false) : opens (first ++ second) = opens first := by
  cases first with
  | nil => exact apart
  | cons lexeme rest => rfl

theorem fieldNames_cons {token : Token} (isToken : lexeme.token = token)
    (noName : token.name? = none) : fieldNames (lexeme :: rest) = fieldNames rest := by
  rw [fieldNames, isToken, noName]

/-- What does not open a parenthesis leaves the names before it as they are. -/
theorem fieldNames_append (apart : opens second = false) :
    fieldNames (first ++ second) = fieldNames first ++ fieldNames second := by
  induction first with
  | nil => rfl
  | cons lexeme rest ih =>
      rw [List.cons_append, fieldNames, fieldNames, opens_append apart, ih]
      split
      · split <;> rfl
      · rfl

theorem fieldNames_field {name : String} (isName : lexeme.token = .identifier name) :
    fieldNames [lexeme] = [name] := by
  simp [fieldNames, isName, Token.name?, opens]

theorem fieldNames_function {opening : Lexeme} {name : String}
    (isName : lexeme.token = .identifier name) (isOpening : opening.token = .openParen) :
    fieldNames (lexeme :: opening :: rest) = fieldNames rest := by
  have skipped : fieldNames (opening :: rest) = fieldNames rest := fieldNames_cons isOpening rfl
  rw [fieldNames, isName]
  simp [Token.name?, opens, isOpening, skipped]

end Lexeme

open Lexeme

theorem Grammar.Tail.opens_eq_false {tier : Tier} {below : Layer} {left whole : Expr}
    {lexemes : List Lexeme} (tail : Tail tier below left lexemes whole) :
    opens lexemes = false := by
  cases tail with
  | done => rfl
  | more isOperator _ _ _ => exact Lexeme.opens_eq_false isOperator (by simp)

mutual

/-- A derived tree names the fields that its lexemes name. -/
theorem Grammar.Derives.fieldNames_eq {layer : Layer} {lexemes : List Lexeme} {whole : Expr} :
    Derives layer lexemes whole → fieldNames lexemes = whole.paths
  | .chain _ operand tail => by
      rw [fieldNames_append tail.opens_eq_false, operand.fieldNames_eq, tail.fieldNames_eq]
  | .lift _ inner => inner.fieldNames_eq
  | .not isNot inner => by
      rw [fieldNames_cons isNot rfl, inner.fieldNames_eq, Expr.paths_unary]
  | .compared before isOperator _ after => by
      rw [fieldNames_append (opens_eq_false isOperator (by simp)), fieldNames_cons isOperator rfl,
        before.fieldNames_eq, after.fieldNames_eq, Expr.paths_binary]
  | .minus isMinus inner => by
      rw [fieldNames_cons isMinus rfl, inner.fieldNames_eq, Expr.paths_unary]
  | .literal isLiteral => by
      rw [fieldNames_cons isLiteral rfl, Expr.paths_literal, fieldNames]
  | .member isName => by
      rw [fieldNames_field isName, Expr.paths_member]
  | .callEmpty isName isOpening closes => by
      rw [fieldNames_function isName isOpening, fieldNames_cons closes rfl, Expr.paths_call]
      rfl
  | .call isName isOpening inner closes => by
      rw [fieldNames_function isName isOpening, fieldNames_append (opens_eq_false closes (by simp)),
        fieldNames_cons closes rfl, inner.fieldNames_eq, Expr.paths_call, fieldNames,
        List.append_nil]
  | .paren isOpening inner closes => by
      rw [fieldNames_cons isOpening rfl, fieldNames_append (opens_eq_false closes (by simp)),
        fieldNames_cons closes rfl, inner.fieldNames_eq, Expr.paths_paren, fieldNames,
        List.append_nil]

theorem Grammar.Tail.fieldNames_eq {tier : Tier} {below : Layer} {left whole : Expr}
    {lexemes : List Lexeme} : Tail tier below left lexemes whole →
      left.paths ++ fieldNames lexemes = whole.paths
  | .done => by rw [fieldNames, List.append_nil]
  | .more isOperator _ operand tail => by
      rw [← tail.fieldNames_eq, fieldNames_cons isOperator rfl,
        fieldNames_append tail.opens_eq_false, operand.fieldNames_eq, Expr.paths_binary,
        List.append_assoc]

theorem Grammar.Arguments.fieldNames_eq {lexemes : List Lexeme} {arguments : List Expr} :
    Arguments lexemes arguments → fieldNames lexemes = arguments.flatMap Expr.paths
  | .last inner => by rw [inner.fieldNames_eq, List.flatMap_singleton]
  | .more inner divides tail => by
      rw [fieldNames_append (opens_eq_false divides (by simp)), fieldNames_cons divides rfl,
        inner.fieldNames_eq, tail.fieldNames_eq, List.flatMap_cons]

end

namespace Filter

theorem trimmed_ne_nil {text : String} (visible : ∃ char ∈ text.toList, Text.isBlank char = false) :
    (trimmed text).toList ≠ [] := by
  rw [trimmed, String.toList_ofList]
  intro nothing
  obtain ⟨char, mem, isVisible⟩ := visible
  rw [Text.trim_eq_nil_iff.mp nothing char mem] at isVisible
  cases isVisible

/-- Beyond the columns of a compiled expression there is only the one of the deletion time,
where its field is not named. -/
theorem Compiler.Compiles.columns_restrict {compiler : Compiler} {expression : Expr}
    {compiled : Compiled} (compiles : compiler.Compiles expression compiled) :
    (compiler.restrict compiled).columns = compiled.fragment.columns ++
      if compiler.deletedAtKey ∈ expression.paths then [] else [compiler.deletedAt] := by
  by_cases named : compiler.deletedAtKey ∈ expression.paths
  · rw [compiles.restrict_of_mem named, if_pos named, List.append_nil]
  · rw [compiles.restrict_of_not_mem named, if_neg named]
    simp [excludeDeleted]

/-- The parameters of an accepted filter are the values of its literals, null apart, and its
columns are those of the fields it names, both in the order of the text. The only further
column is the last one, of the deletion time, where its field is not named. -/
theorem compile_in_order {compiler : Compiler} {text : String} {fragment : Fragment}
    (visible : ∃ char ∈ text.toList, Text.isBlank char = false)
    (accepted : compiler.compile (some text) = .ok fragment) :
    ∃ lexemes columns, lexed (trimmed text) = .ok lexemes ∧
      fragment.params = lexemes.filterMap Lexeme.bound? ∧
      columns.map some = (fieldNames lexemes).map compiler.fields.get? ∧
      fragment.columns = columns ++
        if compiler.deletedAtKey ∈ fieldNames lexemes then [] else [compiler.deletedAt] := by
  obtain ⟨whole, compiled, parsed, compiles, rfl⟩ :
      ∃ whole compiled, parse (trimmed text) = .ok whole ∧ compiler.Compiles whole compiled ∧
        compiler.restrict compiled = fragment := by
    simpa [significant?_eq (trimmed_ne_nil visible)] using
      Compiler.compile_eq_ok_iff.mp accepted
  obtain ⟨lexemes, lexes, derived, -⟩ := exists_derives_of_parse parsed
  refine ⟨lexemes, compiled.fragment.columns, lexes, ?_, ?_, ?_⟩
  · rw [compiler.params_restrict, compiles.params_eq, derived.bounds_eq]
  · rw [compiles.columns_eq, derived.fieldNames_eq]
  · rw [compiles.columns_restrict, derived.fieldNames_eq]

/-- In `year(a) eq 'x'` the name of the function stands for no column. -/
theorem compile_in_order_call :
    ∃ (compiler : Compiler) (fragment : Fragment) (lexemes : List Lexeme),
      compiler.compile (some " year(a) eq 'x' ") = .ok fragment ∧
      lexed (trimmed " year(a) eq 'x' ") = .ok lexemes ∧
      lexemes.filterMap Lexeme.bound? = [.text "x"] ∧ fieldNames lexemes = ["a"] ∧
      fragment.params = [.text "x"] ∧
      fragment.columns.map some = [compiler.fields.get? "a", some compiler.deletedAt] := by
  let column : Column := ⟨["t", "a"], by simp, by simp, by decide⟩
  let deleted : Column := ⟨["t", "d"], by simp, by simp, by decide⟩
  let compiler : Compiler := ⟨⟨[("a", column), ("d", deleted)], by decide⟩, "d", deleted⟩
  have accepted : compiler.compile (some " year(a) eq 'x' ") =
      .ok ⟨[.keyword "(", .keyword "EXTRACT(", .keyword "YEAR", .keyword " FROM ",
        .identifier column, .keyword ")", .keyword " IS NOT DISTINCT FROM ", .value (.text "x"),
        .keyword ")", .keyword " AND ", .identifier deleted, .keyword " IS NULL"]⟩ := by cbv
  obtain ⟨lexemes, columns, lexes, params, named, all⟩ :=
    compile_in_order ⟨'y', by decide, by decide⟩ accepted
  have found : (lexed (trimmed " year(a) eq 'x' ")).toOption.map
      (fun lexemes => (lexemes.filterMap Lexeme.bound?, fieldNames lexemes)) =
        some ([.text "x"], ["a"]) := by decide +kernel
  rw [lexes] at found
  obtain ⟨bounds, names⟩ := Prod.mk.inj (Option.some.inj found)
  refine ⟨compiler, _, lexemes, accepted, lexes, bounds, names, params.trans bounds, ?_⟩
  rw [all, List.map_append, named, names]
  rfl

end Filter

end QueryClause
