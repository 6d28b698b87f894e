import Mathlib
import QueryClause.Proofs.ErrorPositions
import QueryClause.Proofs.Parameters
import QueryClause.Proofs.Refusal

/-!
# Diagnostics point at the text they name

An error of the parser lies in the text, and a lexical one stands at the characters that it
reports. A field that is not supported is reported with the span of its name, and any other
expression with a span whose text is an expression of the reported kind.
-/

namespace QueryClause

open QueryClause.Text QueryClause.Grammar

/-! ## Faults and their characters -/

theorem Numeral.fst_readSign (chars : List Char) :
    (readSign chars).1 = [] ∨ (readSign chars).1 = ['-'] := by
  unfold readSign
  split
  · exact .inr rfl
  · exact .inl rfl

/-- A numeral keeps its sign and its first digit. -/
theorem Numeral.exists_digit_of_read {chars : List Char}
    (starts : beginsWithDigit (readSign chars).2 = true) :
    ∃ digit rest, digit.isDigit = true ∧
      ((read chars).chars = digit :: rest ∨ (read chars).chars = '-' :: digit :: rest) := by
  cases unsigned : (readSign chars).2 with
  | nil => simp [unsigned, beginsWithDigit] at starts
  | cons digit others =>
      have isDigit : digit.isDigit = true := by rwa [unsigned] at starts
      obtain ⟨rest, keeps⟩ :
          ∃ rest, (read chars).chars = (readSign chars).1 ++ digit :: rest := by
        simp only [read, unsigned, readDigits, List.takeWhile_cons_of_pos isDigit,
          List.append_assoc, List.cons_append]
        exact ⟨_, rfl⟩
      refine ⟨digit, rest, isDigit, ?_⟩
      rcases fst_readSign chars with sign | sign
      · exact .inl (by rw [keeps, sign]; rfl)
      · exact .inr (by rw [keeps, sign]; rfl)

namespace Faulty

variable {chars : List Char}

theorem head?_of_unexpected {char : Char} (faulty : Faulty chars (.unexpectedCharacter char)) :
    chars.head? = some char := by
  cases faulty <;> rfl

theorem head?_of_unterminated (faulty : Faulty chars .unterminatedString) :
    chars.head? = some Quoted.quote := by
  cases faulty
  rfl

/-- The text of a bad number is what it begins with, and that is a digit behind its sign. -/
theorem number_inv {number : String} (faulty : Faulty chars (.invalidNumber number)) :
    number.toList <+: chars ∧ ∃ digit rest, digit.isDigit = true ∧
      (number.toList = digit :: rest ∨ number.toList = '-' :: digit :: rest) := by
  cases faulty with
  | number starts =>
      rw [String.toList_ofList]
      exact ⟨⟨_, Numeral.read_append chars⟩, Numeral.exists_digit_of_read starts⟩

end Faulty

/-- The span that an error reports, if it reports one. -/
def ParseError.span? : ParseError → Option Span
  | .lexical _ => none
  | .unexpectedToken _ _ span => some span
  | .tooDeep span => some span

theorem ParseError.PointsInto.position_le {text : String} {error : ParseError}
    (points : error.PointsInto text) : error.position ≤ text.toList.length := by
  cases error with
  | lexical error => exact points.1
  | unexpectedToken _ _ span => exact Nat.le_trans points.1 points.2
  | tooDeep span => exact Nat.le_trans points.1 points.2

theorem ParseError.PointsInto.within {text : String} {error : ParseError}
    (points : error.PointsInto text) : ∀ span ∈ error.span?, span.Within text := by
  intro span reported
  cases error <;> cases reported <;> exact points

/-! ## Nodes and their texts -/

section Nodes

variable {text : String} {whole node : Expr}

/-- Every node of a parsed tree is derived from lexemes of the text, and is not too tall. -/
theorem exists_part_of_parse (parsed : parse text = .ok whole) (mem : node ∈ whole.preorder) :
    ∃ before part after last layer, Cursor.Walk (.start text) (before ++ (part ++ after)) last ∧
      (∀ char ∈ last.rest, isBlank char = true) ∧ Derives layer part node ∧
      node.height ≤ maxDepth := by
  obtain ⟨found, lexes, derived, low⟩ := exists_derives_of_parse parsed
  obtain ⟨last, walk, ended⟩ := lexed_eq_ok_iff.mp lexes
  obtain ⟨before, part, after, layer, rfl, derivedNode⟩ :=
    holds_of_mem_preorder whole derived node mem
  exact ⟨before, part, after, last, layer, walk, ended, derivedNode,
    Nat.le_trans (whole.height_le_of_mem_preorder node mem) low⟩

theorem Expr.kind_moved (origin target : Nat) (tree : Expr) :
    (tree.moved origin target).kind = tree.kind := by
  cases tree with
  | unary operator => cases operator <;> rfl
  | _ => rfl

/-- The span of a node lies in the text, and what it holds is an expression of the same
kind. -/
theorem within_and_kind_of_mem_preorder (parsed : parse text = .ok whole)
    (mem : node ∈ whole.preorder) :
    node.span.Within text ∧
      ∃ root, parse (node.span.slice text) = .ok root ∧ root.kind = node.kind := by
  obtain ⟨_, _, _, _, _, walk, ended, derived, low⟩ := exists_part_of_parse parsed mem
  obtain ⟨start, stop, span, occupies, inside, parsedNode⟩ := exists_slice walk ended derived low
  refine ⟨?_, _, parsedNode, node.kind_moved start 0⟩
  rw [span]
  exact ⟨Nat.le_of_lt occupies.start_lt_stop, inside⟩

/-- The text of a field is its path. -/
theorem slice_of_member {path : String} {span : Span} (parsed : parse text = .ok whole)
    (mem : .member path span ∈ whole.preorder) : span.slice text = path := by
  obtain ⟨before, _, after, _, _, walk, ended, derived, _⟩ := exists_part_of_parse parsed mem
  obtain ⟨lexeme, rfl, isName, rfl⟩ := derived.member_inv
  have found : lexeme ∈ before ++ ([lexeme] ++ after) := by simp
  have plain := (plain_and_scanned_of_walk walk ended lexeme found).1
  rw [walk.slice_span (Cursor.inside_start text) lexeme found]
  exact plain path (by rw [isName]; rfl)

end Nodes

namespace Filter

/-- A filter that is not malformed is refused for a node of its tree. -/
theorem Compiler.exists_blame_of_compile {compiler : Compiler} {text : String}
    {error : CompileError} (refused : compiler.compile (some text) = .error error) :
    (∃ reason, error = .malformed reason) ∨
      ∃ whole node, parse (trimmed text) = .ok whole ∧ node ∈ whole.preorder ∧
        error = node.blame := by
  rw [Compiler.compile] at refused
  by_cases blank : (trimmed text).toList = []
  · rw [trimmed, String.toList_ofList] at blank
    rw [significant?, blank] at refused
    cases refused
  · simp only [significant?_eq blank] at refused
    cases parsed : parse (trimmed text) with
    | error reason =>
        rw [parsed] at refused
        cases refused
        exact .inl ⟨reason, rfl⟩
    | ok whole =>
        rw [parsed] at refused
        have reported := reason?_eq_some_iff.mpr refused
        rw [compiler.reason?_compileExpr whole] at reported
        obtain ⟨node, found, blamed⟩ := Option.map_eq_some_iff.mp reported
        exact .inr ⟨whole, node, rfl, List.mem_of_find?_eq_some found, blamed.symm⟩

/-- An unsupported field is reported with the span of its path. -/
theorem Compiler.slice_of_unsupportedField {compiler : Compiler} {text path : String}
    {place : Option Span}
    (refused : compiler.compile (some text) = .error (.unsupportedField path place)) :
    ∃ span, place = some span ∧ span.Within (trimmed text) ∧
      span.slice (trimmed text) = path := by
  obtain ⟨_, malformed⟩ | ⟨whole, node, parsed, mem, blamed⟩ :=
    Compiler.exists_blame_of_compile refused
  · cases malformed
  · cases node with
    | member name span =>
        cases blamed
        exact ⟨span, rfl, (within_and_kind_of_mem_preorder parsed mem).1,
          slice_of_member parsed mem⟩
    | _ => cases blamed

/-- Any other unsupported expression is reported with a span that holds one of its kind. -/
theorem Compiler.kind_of_unsupportedExpression {compiler : Compiler} {text kind head : String}
    {span : Span}
    (refused : compiler.compile (some text) = .error (.unsupportedExpression kind head span)) :
    span.Within (trimmed text) ∧
      ∃ root, parse (span.slice (trimmed text)) = .ok root ∧ root.kind = kind := by
  obtain ⟨_, malformed⟩ | ⟨whole, node, parsed, mem, blamed⟩ :=
    Compiler.exists_blame_of_compile refused
  · cases malformed
  · have holds := within_and_kind_of_mem_preorder parsed mem
    cases node with
    | member => cases blamed
    | _ =>
        cases blamed
        exact holds

end Filter

/-! ## All diagnostics -/

/-- Neither the position nor the span of a parser's error reaches behind the end of the text,
and a lexical error stands at the character, the quote or the numeral that it reports. A
field that a filter may not name is reported with the span of its name in the trimmed text,
and any other unsupported expression with a span of the trimmed text that reads as an
expression of the reported kind. -/
theorem diagnostics_point_at_text :
    (∀ (text : String) (error : ParseError), parse text = .error error →
      error.position ≤ text.toList.length ∧
      (∀ span ∈ error.span?, span.Within text) ∧
      (∀ char, error = .lexical ⟨.unexpectedCharacter char, error.position⟩ →
        text.toList[error.position]? = some char) ∧
      (error = .lexical ⟨.unterminatedString, error.position⟩ →
        text.toList[error.position]? = some '\'') ∧
      (∀ number, error = .lexical ⟨.invalidNumber number, error.position⟩ →
        number.toList <+: text.toList.drop error.position ∧
        ∃ digit rest, digit.isDigit = true ∧
          (number.toList = digit :: rest ∨ number.toList = '-' :: digit :: rest))) ∧
    ∀ (compiler : Filter.Compiler) (text : String),
      (∀ path place, compiler.compile (some text) = .error (.unsupportedField path place) →
        ∃ span, place = some span ∧ span.Within (Filter.trimmed text) ∧
          span.slice (Filter.trimmed text) = path) ∧
      ∀ kind head span,
        compiler.compile (some text) = .error (.unsupportedExpression kind head span) →
          span.Within (Filter.trimmed text) ∧
            ∃ root, parse (span.slice (Filter.trimmed text)) = .ok root ∧ root.kind = kind := by
  refine ⟨fun text error failed => ?_, fun compiler text =>
    ⟨fun _ _ => Filter.Compiler.slice_of_unsupportedField,
      fun _ _ _ => Filter.Compiler.kind_of_unsupportedExpression⟩⟩
  have points := pointsInto_of_parse failed
  refine ⟨points.position_le, points.within, ?_, ?_, ?_⟩
  · intro char isLexical
    rw [isLexical] at points
    rw [← List.head?_drop]
    exact points.2.head?_of_unexpected
  · intro isLexical
    rw [isLexical] at points
    rw [← List.head?_drop]
    exact points.2.head?_of_unterminated
  · intro number isLexical
    rw [isLexical] at points
    exact points.2.number_inv

theorem diagnostics_point_at_text_quotes :
    ∃ compiler : Filter.Compiler,
      parse "'a' 'b" = .error (.lexical ⟨.unterminatedString, 4⟩) ∧
      "'a' 'b".toList[4]? = some '\'' ∧
      compiler.compile (some " -'b' ") = .error (.unsupportedExpression "negate" "-" ⟨0, 4⟩) ∧
      (∃ root, parse (Span.slice ⟨0, 4⟩ (Filter.trimmed " -'b' ")) = .ok root ∧
        root.kind = "negate") ∧
      compiler.compile (some " $b ") = .error (.unsupportedField "$b" (some ⟨0, 2⟩)) ∧
      Span.slice ⟨0, 2⟩ (Filter.trimmed " $b ") = "$b" := by
  let column : Column := ⟨["a"], by simp, by simp, by decide⟩
  let compiler : Filter.Compiler := ⟨⟨[("a", column)], by simp⟩, "a", column⟩
  obtain ⟨unterminated, negated, unknown⟩ :
      parse "'a' 'b" = .error (.lexical ⟨.unterminatedString, 4⟩) ∧
      compiler.compile (some " -'b' ") = .error (.unsupportedExpression "negate" "-" ⟨0, 4⟩) ∧
      compiler.compile (some " $b ") = .error (.unsupportedField "$b" (some ⟨0, 2⟩)) := by cbv
  obtain ⟨parses, compiles⟩ := diagnostics_point_at_text
  obtain ⟨span, isSpan, _, names⟩ := (compiles compiler _).1 _ _ unknown
  cases isSpan
  exact ⟨compiler, unterminated, (parses _ _ unterminated).2.2.2.1 rfl, negated,
    ((compiles compiler _).2 _ _ _ negated).2, unknown, names⟩

end QueryClause
