import Mathlib.Data.List.Chain
import QueryClause.Proofs.Grammar

/-!
# Delimiters

Behind a literal an expression goes on with an operator, a closing parenthesis or a comma, or
it ends. So no two operands stand in a row.
-/

namespace QueryClause

/-- Whether the token is a literal. -/
def Token.isLiteral : Token → Bool
  | .literal _ => true
  | _ => false

/-- Whether a token can stand behind an operand. -/
def Token.delimits : Token → Bool
  | .binary _ | .closeParen | .comma => true
  | _ => false

/-- The lexeme behind a literal is a delimiter. -/
def Delimited (lexemes : List Lexeme) : Prop :=
  lexemes.IsChain fun first second =>
    first.token.isLiteral = true → second.token.delimits = true

theorem Token.isLiteral_eq_false_of_delimits {token : Token} (delimits : token.delimits = true) :
    token.isLiteral = false := by
  cases token <;> first | rfl | cases delimits

namespace Delimited

variable {sign : Lexeme} {first rest : List Lexeme}

theorem cons (plain : sign.token.isLiteral = false) (delimited : Delimited rest) :
    Delimited (sign :: rest) := by
  refine List.IsChain.cons delimited fun _ _ isLiteral => ?_
  rw [plain] at isLiteral
  cases isLiteral

theorem append (delimited : Delimited first) (delimits : sign.token.delimits = true)
    (after : Delimited rest) : Delimited (first ++ sign :: rest) := by
  have behind := after.cons (Token.isLiteral_eq_false_of_delimits delimits)
  refine List.isChain_append.mpr ⟨delimited, behind, fun _ _ next begins _ => ?_⟩
  cases begins
  exact delimits

end Delimited

namespace Grammar

mutual

/-- In a phrase, each literal has a delimiter behind it or is the last lexeme. -/
theorem Derives.delimited {layer : Layer} {lexemes : List Lexeme} {whole : Expr} :
    Derives layer lexemes whole → Delimited lexemes
  | .chain _ operand tail => tail.delimited operand.delimited
  | .lift _ inner => inner.delimited
  | .not isNot inner => inner.delimited.cons (by rw [isNot]; rfl)
  | .compared before isOperator _ after =>
      before.delimited.append (by rw [isOperator]; rfl) after.delimited
  | .minus isMinus inner => inner.delimited.cons (by rw [isMinus]; rfl)
  | .literal _ => List.isChain_singleton _
  | .member _ => List.isChain_singleton _
  | .callEmpty isName opens _ =>
      .cons (by rw [isName]; rfl) (.cons (by rw [opens]; rfl) (List.isChain_singleton _))
  | .call isName opens inner closes =>
      .cons (by rw [isName]; rfl) (.cons (by rw [opens]; rfl)
        (inner.delimited.append (by rw [closes]; rfl) List.IsChain.nil))
  | .paren opens inner closes =>
      .cons (by rw [opens]; rfl) (inner.delimited.append (by rw [closes]; rfl) List.IsChain.nil)

theorem Tail.delimited {tier : Tier} {below : Layer} {left whole : Expr}
    {first lexemes : List Lexeme} :
    Tail tier below left lexemes whole → Delimited first → Delimited (first ++ lexemes)
  | .done, before => by rwa [List.append_nil]
  | .more isOperator _ operand tail, before => by
      have longer := tail.delimited (before.append (by rw [isOperator]; rfl) operand.delimited)
      rwa [List.append_assoc] at longer

theorem Arguments.delimited {lexemes : List Lexeme} {arguments : List Expr} :
    Arguments lexemes arguments → Delimited lexemes
  | .last inner => inner.delimited
  | .more inner divides tail => inner.delimited.append (by rw [divides]; rfl) tail.delimited

end

end Grammar

end QueryClause
