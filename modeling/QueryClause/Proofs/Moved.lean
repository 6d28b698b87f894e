import QueryClause.Proofs.Grammar
import QueryClause.Proofs.Walk

/-!
# The same expression at another place

A text can stand inside a longer one. Its lexemes and its tree are then the same, with
every position moved by the same distance.
-/

namespace QueryClause

/-- The span moved so that the position `origin` becomes `target`. -/
def Span.moved (origin target : Nat) (span : Span) : Span :=
  ⟨span.start - origin + target, span.stop - origin + target⟩

theorem Span.moved_cover (origin target : Nat) (first second : Span) :
    (first.cover second).moved origin target =
      (first.moved origin target).cover (second.moved origin target) := by
  simp only [cover, moved, Span.mk.injEq]
  omega

namespace Expr

mutual

/-- The tree with all of its spans moved. -/
def moved (origin target : Nat) : Expr → Expr
  | .member path span => .member path (span.moved origin target)
  | .literal written value span => .literal written value (span.moved origin target)
  | .unary operator operand span =>
      .unary operator (operand.moved origin target) (span.moved origin target)
  | .binary operator left right span =>
      .binary operator (left.moved origin target) (right.moved origin target)
        (span.moved origin target)
  | .call name arguments span =>
      .call name (movedAll origin target arguments) (span.moved origin target)
  | .paren inner span => .paren (inner.moved origin target) (span.moved origin target)

def movedAll (origin target : Nat) : List Expr → List Expr
  | [] => []
  | first :: rest => first.moved origin target :: movedAll origin target rest

end

theorem span_moved (origin target : Nat) (expression : Expr) :
    (expression.moved origin target).span = expression.span.moved origin target := by
  cases expression <;> rfl

mutual

theorem height_moved (origin target : Nat) : (expression : Expr) →
    (expression.moved origin target).height = expression.height
  | .member .. => rfl
  | .literal .. => rfl
  | .unary _ operand _ => by
      rw [moved, height, height, height_moved origin target operand]
  | .binary _ left right _ => by
      rw [moved, height, height, height_moved origin target left,
        height_moved origin target right]
  | .call _ arguments _ => by
      rw [moved, height, height, greatestHeight_movedAll origin target arguments]
  | .paren inner _ => by
      rw [moved, height, height, height_moved origin target inner]

theorem greatestHeight_movedAll (origin target : Nat) : (arguments : List Expr) →
    greatestHeight (movedAll origin target arguments) = greatestHeight arguments
  | [] => rfl
  | first :: rest => by
      rw [movedAll, greatestHeight, greatestHeight, height_moved origin target first,
        greatestHeight_movedAll origin target rest]

end

end Expr

/-- The lexeme with its span moved. -/
def Lexeme.moved (origin target : Nat) (lexeme : Lexeme) : Lexeme :=
  { lexeme with span := lexeme.span.moved origin target }

theorem Lexeme.token_moved {origin target : Nat} {lexeme : Lexeme} {token : Token}
    (isToken : lexeme.token = token) : (lexeme.moved origin target).token = token :=
  isToken

namespace Grammar

variable {origin target : Nat}

mutual

/-- Lexemes that are moved derive the tree moved with them. -/
theorem Derives.moved {layer : Layer} {lexemes : List Lexeme} {whole : Expr} :
    Derives layer lexemes whole →
      Derives layer (lexemes.map (Lexeme.moved origin target)) (whole.moved origin target)
  | .chain joins operand tail => by
      rw [List.map_append]
      exact .chain joins operand.moved tail.moved
  | .lift lifts inner => .lift lifts inner.moved
  | .not isNot inner => by
      rw [Expr.moved, Span.moved_cover, ← Expr.span_moved]
      exact .not (Lexeme.token_moved isNot) inner.moved
  | .compared before isOperator compares after => by
      rw [Expr.moved, Span.moved_cover, ← Expr.span_moved, ← Expr.span_moved, List.map_append]
      exact .compared before.moved (Lexeme.token_moved isOperator) compares after.moved
  | .minus isMinus inner => by
      rw [Expr.moved, Span.moved_cover, ← Expr.span_moved]
      exact .minus (Lexeme.token_moved isMinus) inner.moved
  | .literal isLiteral => .literal (Lexeme.token_moved isLiteral)
  | .member isName => .member (Lexeme.token_moved isName)
  | .callEmpty isName opens closes => by
      rw [Expr.moved, Span.moved_cover]
      exact .callEmpty (Lexeme.token_moved isName) (Lexeme.token_moved opens)
        (Lexeme.token_moved closes)
  | .call isName opens inner closes => by
      rw [Expr.moved, Span.moved_cover, List.map_cons, List.map_cons, List.map_append]
      exact .call (Lexeme.token_moved isName) (Lexeme.token_moved opens) inner.moved
        (Lexeme.token_moved closes)
  | .paren opens inner closes => by
      rw [Expr.moved, Span.moved_cover, List.map_cons, List.map_append]
      exact .paren (Lexeme.token_moved opens) inner.moved (Lexeme.token_moved closes)

theorem Tail.moved {tier : Tier} {below : Layer} {left whole : Expr} {lexemes : List Lexeme} :
    Tail tier below left lexemes whole →
      Tail tier below (left.moved origin target) (lexemes.map (Lexeme.moved origin target))
        (whole.moved origin target)
  | .done => .done
  | .more isOperator inTier operand tail => by
      have later := tail.moved
      rw [Expr.moved, Span.moved_cover, ← Expr.span_moved, ← Expr.span_moved] at later
      rw [List.map_cons, List.map_append]
      exact .more (Lexeme.token_moved isOperator) inTier operand.moved later

theorem Arguments.moved {lexemes : List Lexeme} {arguments : List Expr} :
    Arguments lexemes arguments →
      Arguments (lexemes.map (Lexeme.moved origin target))
        (Expr.movedAll origin target arguments)
  | .last inner => .last inner.moved
  | .more inner divides tail => by
      rw [List.map_append, List.map_cons]
      exact .more inner.moved (Lexeme.token_moved divides) tail.moved

end

end Grammar

/-! ## Walks over a text at another place -/

namespace Cursor

/-- The cursor at the same place of a text that is moved. -/
def moved (origin target : Nat) (cursor : Cursor) : Cursor :=
  ⟨cursor.position - origin + target, cursor.rest⟩

/-- A walk over a text that is moved meets the lexemes moved with it. -/
theorem Walk.moved {cursor last : Cursor} {lexemes : List Lexeme} {origin : Nat}
    (walk : Walk cursor lexemes last) (target : Nat) (behind : origin ≤ cursor.position) :
    Walk (cursor.moved origin target) (lexemes.map (Lexeme.moved origin target))
      (last.moved origin target) := by
  induction walk with
  | done => exact .done
  | @step cursor after last lexeme lexemes found inside walk ih =>
      obtain ⟨gap, taken, rest, blank, scanned, whole, written, rfl⟩ :=
        exists_of_next found inside
      have further : origin ≤ cursor.position + gap.length + taken.length := by omega
      have later := ih further
      have next := next_of_scanned (cursor.position - origin + target) blank scanned
      have sameLexeme : Lexeme.written lexeme.token
          (cursor.position - origin + target + gap.length) taken = lexeme.moved origin target := by
        rw [written]
        simp only [Lexeme.written, Lexeme.moved, Span.moved, Lexeme.mk.injEq, Span.mk.injEq,
          true_and, and_true]
        omega
      have samePosition : cursor.position - origin + target + gap.length + taken.length =
          cursor.position + gap.length + taken.length - origin + target := by omega
      rw [← whole, sameLexeme, samePosition] at next
      exact .step next inside later

/-- Blanks before a text are walked over. -/
theorem Walk.indent {last : Cursor} {lexemes : List Lexeme} {position : Nat}
    {gap chars : List Char} (walk : Walk ⟨position + gap.length, chars⟩ lexemes last)
    (blank : ∀ char ∈ gap, Text.isBlank char = true) (some : lexemes ≠ []) :
    Walk ⟨position, gap ++ chars⟩ lexemes last := by
  cases walk with
  | done => exact absurd rfl some
  | @step _ after _ lexeme others found inside walk =>
      obtain ⟨skipped, taken, rest, blankSkipped, scanned, whole, written, rfl⟩ :=
        exists_of_next found inside
      have wider : ∀ char ∈ gap ++ skipped, Text.isBlank char = true := by
        rw [List.forall_mem_append]
        exact ⟨blank, blankSkipped⟩
      have next := next_of_scanned position wider scanned
      simp only at whole written
      rw [List.append_assoc, ← whole, List.length_append, ← Nat.add_assoc, ← written] at next
      exact .step next inside walk

end Cursor

end QueryClause
