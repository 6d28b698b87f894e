import QueryClause.Proofs.Grammar

/-!
# Trees and lexemes up to a labeling of literals

A labeling gives every literal a new written form and a new value. Lexemes that agree
up to a labeling, wherever they stand, have derivations of the same shape, and their
trees agree up to the labeling and to spans.
-/

namespace QueryClause

/-- A new written form and a new value for every literal. -/
abbrev Labeling := String → Value → String × Value

namespace Expr

mutual

/-- The tree with its literals labeled and without its spans. -/
def relabel (label : Labeling) : Expr → Expr
  | .member path _ => .member path ⟨0, 0⟩
  | .literal written value _ => .literal (label written value).1 (label written value).2 ⟨0, 0⟩
  | .unary operator operand _ => .unary operator (operand.relabel label) ⟨0, 0⟩
  | .binary operator left right _ =>
      .binary operator (left.relabel label) (right.relabel label) ⟨0, 0⟩
  | .call name arguments _ => .call name (relabelAll label arguments) ⟨0, 0⟩
  | .paren inner _ => .paren (inner.relabel label) ⟨0, 0⟩

def relabelAll (label : Labeling) : List Expr → List Expr
  | [] => []
  | first :: rest => first.relabel label :: relabelAll label rest

end

mutual

theorem height_relabel (label : Labeling) : (expression : Expr) →
    (expression.relabel label).height = expression.height
  | .member .. => rfl
  | .literal .. => rfl
  | .unary _ operand _ => by
      rw [relabel, height, height, height_relabel label operand]
  | .binary _ left right _ => by
      rw [relabel, height, height, height_relabel label left, height_relabel label right]
  | .call _ arguments _ => by
      rw [relabel, height, height, greatestHeight_relabelAll label arguments]
  | .paren inner _ => by
      rw [relabel, height, height, height_relabel label inner]

theorem greatestHeight_relabelAll (label : Labeling) : (arguments : List Expr) →
    greatestHeight (relabelAll label arguments) = greatestHeight arguments
  | [] => rfl
  | first :: rest => by
      rw [relabelAll, greatestHeight, greatestHeight, height_relabel label first,
        greatestHeight_relabelAll label rest]

end

/-- Trees that agree up to a labeling are equally tall. -/
theorem height_eq_of_relabel {label : Labeling} {first second : Expr}
    (same : first.relabel label = second.relabel label) : first.height = second.height := by
  rw [← height_relabel label first, same, height_relabel]

theorem relabel_binary {label : Labeling} {operator : BinaryOp} {left right start other : Expr}
    (alikeLeft : start.relabel label = left.relabel label)
    (alikeRight : other.relabel label = right.relabel label) :
    relabel label (.binary operator start other (start.span.cover other.span)) =
      relabel label (.binary operator left right (left.span.cover right.span)) := by
  rw [relabel, relabel, alikeLeft, alikeRight]

end Expr

namespace Lexeme

/-- What a labeling leaves of a lexeme: the label of a literal, or any other token. -/
def labeled (label : Labeling) (lexeme : Lexeme) : Token × String :=
  match lexeme.token with
  | .literal value => (.literal (label lexeme.source value).2, (label lexeme.source value).1)
  | token => (token, "")

variable {label : Labeling} {lexeme other : Lexeme}

/-- A token that is no literal stays under a labeling. -/
theorem token_of_labeled {token : Token} (same : other.labeled label = lexeme.labeled label)
    (isToken : lexeme.token = token) (noLiteral : ∀ value, token ≠ .literal value) :
    other.token = token := by
  subst isToken
  unfold labeled at same
  cases there : lexeme.token with
  | literal value => exact absurd there (noLiteral value)
  | _ => cases here : other.token <;> simp_all

theorem literal_of_labeled {value : Value} (same : other.labeled label = lexeme.labeled label)
    (isLiteral : lexeme.token = .literal value) :
    ∃ found, other.token = .literal found ∧ label other.source found = label lexeme.source value := by
  unfold labeled at same
  rw [isLiteral] at same
  cases here : other.token with
  | literal found =>
      simp only [here, Prod.mk.injEq, Token.literal.injEq] at same
      exact ⟨found, rfl, Prod.ext same.2 same.1⟩
  | _ => simp [here] at same

/-- The token and its written form, wherever the lexeme stands. -/
def word (lexeme : Lexeme) : Token × String :=
  (lexeme.token, lexeme.source)

/-- A labeling looks at the token and the written form of a lexeme only. -/
theorem map_labeled_of_map_word {lexemes others : List Lexeme}
    (same : others.map word = lexemes.map word) :
    others.map (labeled label) = lexemes.map (labeled label) := by
  have factors : labeled label =
      (fun word => labeled label ⟨word.1, ⟨0, 0⟩, word.2⟩) ∘ word := rfl
  rw [factors, ← List.map_map, same, List.map_map]

end Lexeme

namespace Grammar

/-! ## Derivations over lexemes that agree up to a labeling -/

variable {label : Labeling}

mutual

/-- Lexemes that agree up to a labeling derive trees that agree up to the labeling. -/
theorem Derives.transport {layer : Layer} {lexemes : List Lexeme} {whole : Expr} :
    Derives layer lexemes whole → ∀ {others : List Lexeme},
      others.map (Lexeme.labeled label) = lexemes.map (Lexeme.labeled label) →
        ∃ other, Derives layer others other ∧ other.relabel label = whole.relabel label
  | .chain joins operand tail, _, same => by
      rw [List.map_append] at same
      obtain ⟨before, behind, rfl, sameFirst, sameRest⟩ := List.map_eq_append_iff.mp same
      obtain ⟨left, derivedLeft, alike⟩ := operand.transport sameFirst
      obtain ⟨other, derivedTail, alikeWhole⟩ := tail.transport alike sameRest
      exact ⟨other, .chain joins derivedLeft derivedTail, alikeWhole⟩
  | .lift lifts inner, _, same => by
      obtain ⟨other, derived, alike⟩ := inner.transport same
      exact ⟨other, .lift lifts derived, alike⟩
  | .not isNot inner, _, same => by
      obtain ⟨sign, behind, rfl, sameSign, sameRest⟩ := List.map_eq_cons_iff.mp same
      obtain ⟨operand, derived, alike⟩ := inner.transport sameRest
      have isSign := Lexeme.token_of_labeled sameSign isNot (by simp)
      exact ⟨_, .not isSign derived, by simp only [Expr.relabel, alike]⟩
  | .compared before isOperator compares after, _, same => by
      rw [List.map_append] at same
      obtain ⟨first, behind, rfl, sameFirst, sameBehind⟩ := List.map_eq_append_iff.mp same
      obtain ⟨sign, second, rfl, sameSign, sameSecond⟩ := List.map_eq_cons_iff.mp sameBehind
      obtain ⟨left, derivedLeft, alikeLeft⟩ := before.transport sameFirst
      obtain ⟨right, derivedRight, alikeRight⟩ := after.transport sameSecond
      have isSign := Lexeme.token_of_labeled sameSign isOperator (by simp)
      exact ⟨_, .compared derivedLeft isSign compares derivedRight,
        Expr.relabel_binary alikeLeft alikeRight⟩
  | .minus isMinus inner, _, same => by
      obtain ⟨sign, behind, rfl, sameSign, sameRest⟩ := List.map_eq_cons_iff.mp same
      obtain ⟨operand, derived, alike⟩ := inner.transport sameRest
      have isSign := Lexeme.token_of_labeled sameSign isMinus (by simp)
      exact ⟨_, .minus isSign derived, by simp only [Expr.relabel, alike]⟩
  | .literal isLiteral, _, same => by
      obtain ⟨lexeme, behind, rfl, sameLexeme, sameRest⟩ := List.map_eq_cons_iff.mp same
      obtain rfl := List.map_eq_nil_iff.mp sameRest
      obtain ⟨value, isFound, alike⟩ := Lexeme.literal_of_labeled sameLexeme isLiteral
      exact ⟨_, .literal isFound, by simp only [Expr.relabel, alike]⟩
  | .member isName, _, same => by
      obtain ⟨lexeme, behind, rfl, sameLexeme, sameRest⟩ := List.map_eq_cons_iff.mp same
      obtain rfl := List.map_eq_nil_iff.mp sameRest
      exact ⟨_, .member (Lexeme.token_of_labeled sameLexeme isName (by simp)), rfl⟩
  | .callEmpty isName opens closes, _, same => by
      obtain ⟨lexeme, behind, rfl, sameLexeme, sameBehind⟩ := List.map_eq_cons_iff.mp same
      obtain ⟨opening, rest, rfl, sameOpening, sameRest⟩ := List.map_eq_cons_iff.mp sameBehind
      obtain ⟨closing, none, rfl, sameClosing, sameNone⟩ := List.map_eq_cons_iff.mp sameRest
      obtain rfl := List.map_eq_nil_iff.mp sameNone
      have isFound := Lexeme.token_of_labeled sameLexeme isName (by simp)
      have isOpening := Lexeme.token_of_labeled sameOpening opens (by simp)
      have isClosing := Lexeme.token_of_labeled sameClosing closes (by simp)
      exact ⟨_, .callEmpty isFound isOpening isClosing, rfl⟩
  | .call isName opens inner closes, _, same => by
      obtain ⟨lexeme, behind, rfl, sameLexeme, sameBehind⟩ := List.map_eq_cons_iff.mp same
      obtain ⟨opening, rest, rfl, sameOpening, sameRest⟩ := List.map_eq_cons_iff.mp sameBehind
      rw [List.map_append] at sameRest
      obtain ⟨inside, last, rfl, sameInside, sameLast⟩ := List.map_eq_append_iff.mp sameRest
      obtain ⟨closing, none, rfl, sameClosing, sameNone⟩ := List.map_eq_cons_iff.mp sameLast
      obtain rfl := List.map_eq_nil_iff.mp sameNone
      obtain ⟨arguments, derived, alike⟩ := inner.transport sameInside
      have isFound := Lexeme.token_of_labeled sameLexeme isName (by simp)
      have isOpening := Lexeme.token_of_labeled sameOpening opens (by simp)
      have isClosing := Lexeme.token_of_labeled sameClosing closes (by simp)
      exact ⟨_, .call isFound isOpening derived isClosing, by simp only [Expr.relabel, alike]⟩
  | .paren opens inner closes, _, same => by
      obtain ⟨opening, rest, rfl, sameOpening, sameRest⟩ := List.map_eq_cons_iff.mp same
      rw [List.map_append] at sameRest
      obtain ⟨inside, last, rfl, sameInside, sameLast⟩ := List.map_eq_append_iff.mp sameRest
      obtain ⟨closing, none, rfl, sameClosing, sameNone⟩ := List.map_eq_cons_iff.mp sameLast
      obtain rfl := List.map_eq_nil_iff.mp sameNone
      obtain ⟨other, derived, alike⟩ := inner.transport sameInside
      have isOpening := Lexeme.token_of_labeled sameOpening opens (by simp)
      have isClosing := Lexeme.token_of_labeled sameClosing closes (by simp)
      exact ⟨_, .paren isOpening derived isClosing, by simp only [Expr.relabel, alike]⟩

theorem Tail.transport {tier : Tier} {below : Layer} {left whole : Expr} {lexemes : List Lexeme} :
    Tail tier below left lexemes whole → ∀ {start : Expr} {others : List Lexeme},
      start.relabel label = left.relabel label →
      others.map (Lexeme.labeled label) = lexemes.map (Lexeme.labeled label) →
        ∃ other, Tail tier below start others other ∧ other.relabel label = whole.relabel label
  | .done, start, _, alike, same => by
      obtain rfl := List.map_eq_nil_iff.mp same
      exact ⟨start, .done, alike⟩
  | .more isOperator inTier operand tail, start, _, alike, same => by
      obtain ⟨sign, behind, rfl, sameSign, sameBehind⟩ := List.map_eq_cons_iff.mp same
      rw [List.map_append] at sameBehind
      obtain ⟨inside, rest, rfl, sameInside, sameRest⟩ := List.map_eq_append_iff.mp sameBehind
      obtain ⟨right, derivedRight, alikeRight⟩ := operand.transport sameInside
      have isSign := Lexeme.token_of_labeled sameSign isOperator (by simp)
      obtain ⟨other, derivedTail, alikeWhole⟩ :=
        tail.transport (Expr.relabel_binary alike alikeRight) sameRest
      exact ⟨other, .more isSign inTier derivedRight derivedTail, alikeWhole⟩

theorem Arguments.transport {lexemes : List Lexeme} {arguments : List Expr} :
    Arguments lexemes arguments → ∀ {others : List Lexeme},
      others.map (Lexeme.labeled label) = lexemes.map (Lexeme.labeled label) →
        ∃ found, Arguments others found ∧
          Expr.relabelAll label found = Expr.relabelAll label arguments
  | .last inner, _, same => by
      obtain ⟨other, derived, alike⟩ := inner.transport same
      exact ⟨_, .last derived, by simp only [Expr.relabelAll, alike]⟩
  | .more inner divides tail, _, same => by
      rw [List.map_append] at same
      obtain ⟨before, behind, rfl, sameBefore, sameBehind⟩ := List.map_eq_append_iff.mp same
      obtain ⟨comma, rest, rfl, sameComma, sameRest⟩ := List.map_eq_cons_iff.mp sameBehind
      obtain ⟨other, derived, alike⟩ := inner.transport sameBefore
      obtain ⟨found, derivedTail, alikeTail⟩ := tail.transport sameRest
      have isComma := Lexeme.token_of_labeled sameComma divides (by simp)
      exact ⟨_, .more derived isComma derivedTail,
        by simp only [Expr.relabelAll, alike, alikeTail]⟩

end

end Grammar

end QueryClause
