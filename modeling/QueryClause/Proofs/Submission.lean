import Mathlib
import QueryClause.Command
import QueryClause.Proofs.Correspondence
import QueryClause.Proofs.Margins
import QueryClause.Proofs.Refusal

/-!
# Three ways to submit a filter

A filter is compiled from its text, which is trimmed first, or from the tree that the text
is parsed to, and its syntax is checked on its own. The three agree on what is accepted and
on why the rest is refused; only the positions in a trimmed text count from another start.
-/

namespace QueryClause

open QueryClause.Text

/-- The error with its span moved. What is wrong with the syntax of a text stays as it is. -/
def CompileError.moved (origin target : Nat) : CompileError → CompileError
  | .unsupportedField path span => .unsupportedField path (span.map (Span.moved origin target))
  | .unsupportedExpression kind text span =>
      .unsupportedExpression kind text (span.moved origin target)
  | .malformed reason => .malformed reason

namespace Filter

namespace Compiler

/-- A tree that is moved is compiled to the same, or refused for the same at the place where
it is now. -/
theorem walk_moved (compiler : Compiler) (origin target : Nat) : (expression : Expr) →
    compiler.walk (expression.moved origin target) =
      (compiler.walk expression).mapError (CompileError.moved origin target)
  | .member path _ => by
      rw [Expr.moved, walk, walk]
      cases compiler.fields.get? path <;> rfl
  | .literal .. => rfl
  | .unary .not operand _ => by
      rw [Expr.moved, walk, walk, walk_moved compiler origin target operand]
      cases compiler.walk operand <;> rfl
  | .unary .negate _ _ => by
      rw [Expr.moved, walk, walk]
      rfl
  | .binary operator left right _ => by
      rw [Expr.moved, walk, walk, walk_moved compiler origin target left,
        walk_moved compiler origin target right]
      cases operatorSql? operator with
      | none => rfl
      | some sql =>
          cases compiler.walk left with
          | error _ => rfl
          | ok _ => cases compiler.walk right <;> rfl
  | .call name [] _ => by
      rw [Expr.moved, Expr.movedAll, walk, walk]
      · split <;> rfl
      · simp
      · simp
  | .call name [argument] _ => by
      rw [Expr.moved, Expr.movedAll, Expr.movedAll, walk, walk,
        walk_moved compiler origin target argument]
      cases DatePart.ofFunction? name with
      | none => rfl
      | some part => cases compiler.walk argument <;> rfl
  | .call name (first :: second :: rest) _ => by
      rw [Expr.moved, Expr.movedAll, Expr.movedAll, walk, walk]
      · rfl
      · simp
      · simp
  | .paren inner _ => by
      rw [Expr.moved, walk, walk, walk_moved compiler origin target inner]

theorem compileExpr_moved (compiler : Compiler) (origin target : Nat) (expression : Expr) :
    compiler.compileExpr (expression.moved origin target) =
      (compiler.compileExpr expression).mapError (CompileError.moved origin target) := by
  rw [compileExpr, compileExpr, walk_moved]
  cases compiler.walk expression <;> rfl

end Compiler

theorem category_blame (node : Expr) : node.blame.category = .internal := by
  cases node <;> rfl

/-- Nothing is wrong with the syntax of an expression that is refused. -/
theorem category_of_compileExpr {compiler : Compiler} {expression : Expr} {error : CompileError}
    (refused : compiler.compileExpr expression = .error error) : error.category = .internal := by
  have reason := compiler.reason?_compileExpr expression
  rw [refused, reason?, eq_comm, Option.map_eq_some_iff] at reason
  obtain ⟨node, -, rfl⟩ := reason
  exact category_blame node

theorem significant?_of_visible {text : String}
    (visible : ∃ char ∈ text.toList, isBlank char = false) :
    significant? (some text) = some (trimmed text) :=
  significant?_eq (trimmed_ne_nil visible)

section Visible

variable {text : String} (visible : ∃ char ∈ text.toList, isBlank char = false)
  (compiler : Compiler)

include visible

/-- The tree of a text is compiled like the text, with positions that count the blanks in
front. -/
theorem compileExpr_of_parse {whole : Expr} (parsed : parse text = .ok whole) :
    compiler.compileExpr whole =
      (compiler.compile (some text)).mapError (CompileError.moved 0 (indent text)) := by
  obtain ⟨inner, parsedInner, rfl⟩ := parse_eq_ok_iff_trim.mp parsed
  rw [Compiler.compileExpr_moved, Compiler.compile, significant?_of_visible visible]
  simp only [trimmed, parsedInner]

/-- The syntax of a text is at fault with and without the blanks at its ends. -/
theorem malformed_iff :
    (∃ reason, compiler.compile (some text) = .error (.malformed reason)) ↔
      ∃ error, parse text = .error error := by
  cases parsed : parse text with
  | ok whole =>
      have same := compileExpr_of_parse visible compiler parsed
      constructor
      · rintro ⟨reason, refused⟩
        rw [refused] at same
        cases category_of_compileExpr same
      · rintro ⟨_, accepted⟩
        cases accepted
  | error error =>
      refine ⟨fun _ => ⟨error, rfl⟩, fun _ => ?_⟩
      cases parsedInner : parse (trimmed text) with
      | ok inner =>
          rw [parse_eq_ok_iff_trim.mpr ⟨inner, parsedInner, rfl⟩] at parsed
          cases parsed
      | error reason =>
          refine ⟨reason, ?_⟩
          rw [Compiler.compile, significant?_of_visible visible]
          simp only [parsedInner]

/-- A text is accepted exactly if its tree is, with the same result. -/
theorem compile_eq_ok_iff_parse {fragment : Fragment} :
    compiler.compile (some text) = .ok fragment ↔
      ∃ whole, parse text = .ok whole ∧ compiler.compileExpr whole = .ok fragment := by
  constructor
  · intro accepted
    cases parsed : parse text with
    | ok whole =>
        refine ⟨whole, rfl, ?_⟩
        rw [compileExpr_of_parse visible compiler parsed, accepted]
        rfl
    | error error =>
        obtain ⟨reason, refused⟩ := (malformed_iff visible compiler).mpr ⟨error, parsed⟩
        rw [refused] at accepted
        cases accepted
  · rintro ⟨whole, parsed, compiled⟩
    rw [compileExpr_of_parse visible compiler parsed] at compiled
    cases outcome : compiler.compile (some text) with
    | ok other =>
        rw [outcome] at compiled
        exact compiled
    | error error =>
        rw [outcome] at compiled
        cases compiled

end Visible

end Filter

/-! ## Exit codes -/

namespace Command

/-- A command fails with an exit code. -/
def FailsWith {α : Type} (code : Nat) (outcome : Except CommandError α) : Prop :=
  ∃ error, outcome = .error error ∧ error.exitCode = code

theorem failsWith_error {α : Type} {code : Nat} {error : CommandError} :
    FailsWith code (.error error : Except CommandError α) ↔ error.exitCode = code := by
  simp [FailsWith]

theorem not_failsWith_ok {α : Type} {code : Nat} {value : α} : ¬FailsWith code (.ok value) := by
  simp [FailsWith]

/-- A text that is too long fails with code two, whatever would be done with it. -/
theorem failsWith_checkLength_bind {α : Type} {text : String} {maxLength : Nat}
    {action : Except CommandError α} :
    FailsWith 2 (checkLength text maxLength >>= fun _ => action) ↔
      maxLength < text.length ∨ FailsWith 2 action := by
  by_cases short : text.length ≤ maxLength
  · rw [checkLength, if_pos short]
    exact ⟨Or.inr, fun either => either.resolve_left (Nat.not_lt.mpr short)⟩
  · rw [checkLength, if_neg short]
    exact ⟨fun _ => .inl (Nat.lt_of_not_le short), fun _ => failsWith_error.mpr rfl⟩

theorem failsWith_check {text : String} {maxLength : Nat} :
    FailsWith 2 (check text maxLength) ↔
      maxLength < text.length ∨ ∃ error, parse text = .error error := by
  rw [check, failsWith_checkLength_bind]
  cases parse text with
  | ok whole => exact or_congr_right ⟨fun fails => absurd fails not_failsWith_ok, nofun⟩
  | error error => exact or_congr_right ⟨fun _ => ⟨error, rfl⟩, fun _ => failsWith_error.mpr rfl⟩

theorem failsWith_compile {text : String} {fields : FieldMap} {maxLength : Nat}
    {compiler : Filter.Compiler} (configured : Filter.Compiler.ofRule fields {} = .ok compiler) :
    FailsWith 2 (compile .filter text fields maxLength) ↔
      maxLength < text.length ∨
        ∃ reason, compiler.compile (some text) = .error (.malformed reason) := by
  have fragment_eq : compileFragment .filter text fields =
      (compiler.compile (some text)).mapError .compile := by
    rw [compileFragment, configured]
    rfl
  rw [compile, failsWith_checkLength_bind, fragment_eq]
  cases outcome : compiler.compile (some text) with
  | ok fragment => exact or_congr_right ⟨fun fails => absurd fails not_failsWith_ok, nofun⟩
  | error error =>
      refine or_congr_right (failsWith_error.trans ?_)
      cases error <;> simp [CommandError.exitCode, CompileError.category]

end Command

/-- A text that is not blank is compiled like the tree it is parsed to, errors included apart
from where their positions start. Its syntax is at fault for the one exactly if it is for the
other, and so a syntax check fails with code two exactly if a compilation does. -/
theorem submissions_agree {text : String} {fields : FieldMap} {rule : Filter.Rule}
    {compiler : Filter.Compiler} (visible : ∃ char ∈ text.toList, isBlank char = false)
    (configured : Filter.Compiler.ofRule fields rule = .ok compiler) :
    (∀ fragment, compiler.compile (some text) = .ok fragment ↔
      ∃ whole, parse text = .ok whole ∧ compiler.compileExpr whole = .ok fragment) ∧
    ((∃ reason, compiler.compile (some text) = .error (.malformed reason)) ↔
      ∃ error, parse text = .error error) ∧
    (∀ whole, parse text = .ok whole → compiler.compileExpr whole =
      (compiler.compile (some text)).mapError (CompileError.moved 0 (indent text))) ∧
    (rule = {} → ∀ maxLength,
      Command.FailsWith 2 (Command.check text maxLength) ↔
        Command.FailsWith 2 (Command.compile .filter text fields maxLength)) := by
  refine ⟨fun fragment => Filter.compile_eq_ok_iff_parse visible compiler,
    Filter.malformed_iff visible compiler,
    fun whole => Filter.compileExpr_of_parse visible compiler, ?_⟩
  rintro rfl maxLength
  rw [Command.failsWith_check, Command.failsWith_compile configured,
    Filter.malformed_iff visible compiler]

/-- The text `"  - 'b' "` is refused at the minus sign, which has two blanks in front. -/
theorem submissions_agree_indented :
    ∃ (fields : FieldMap) (compiler : Filter.Compiler) (whole : Expr),
      Filter.Compiler.ofRule fields {} = .ok compiler ∧ parse "  - 'b' " = .ok whole ∧
      compiler.compileExpr whole = .error (.unsupportedExpression "negate" "-" ⟨2, 7⟩) ∧
      compiler.compileExpr whole =
        (compiler.compile (some "  - 'b' ")).mapError (CompileError.moved 0 2) := by
  have parsed : parse "  - 'b' " =
      .ok (.unary .negate (.literal "'b'" (.text "b") ⟨4, 7⟩) ⟨2, 7⟩) := by cbv
  let column : Column := ⟨["t", "a"], by simp, by simp, by decide⟩
  let fields : FieldMap := ⟨[("__system/deletedAt", column)], by simp⟩
  let compiler : Filter.Compiler := ⟨fields, "__system/deletedAt", column⟩
  have configured : Filter.Compiler.ofRule fields {} = .ok compiler := by decide +kernel
  have agree := (submissions_agree ⟨'b', by decide, by decide⟩ configured).2.2.1 _ parsed
  have indented : indent "  - 'b' " = 2 := by decide +kernel
  rw [indented] at agree
  exact ⟨fields, compiler, _, configured, parsed, rfl, agree⟩

end QueryClause
