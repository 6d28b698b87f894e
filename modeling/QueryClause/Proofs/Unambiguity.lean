import QueryClause.Proofs.Grammar

/-!
# The grammar is unambiguous

A sequence of lexemes has at most one tree in a layer. The statement is proved for
the beginning of a longer sequence, where what follows a phrase must not go on with
it: two phrases of one layer that both end there are the same phrase.
-/

namespace QueryClause.Grammar

/-- A phrase of a chain layer is an operand and a tail. -/
theorem Derives.exists_tail {layer below : Layer} {tier : Tier} {lexemes : List Lexeme}
    {whole : Expr} (joins : Joins layer tier below) (derived : Derives layer lexemes whole) :
    ∃ first rest left, lexemes = first ++ rest ∧ Derives below first left ∧
      Tail tier below left rest whole := by
  cases derived with
  | chain others operand tail =>
      cases joins <;> cases others <;> exact ⟨_, _, _, rfl, operand, tail⟩
  | lift lifts => cases lifts <;> cases joins
  | _ => cases joins

/-- Of the phrases of a layer that begin a sequence of lexemes, and that end where
they end, this is the only one. -/
def SolePhrase (layer : Layer) (lexemes : List Lexeme) (whole : Expr) : Prop :=
  ∀ ⦃others rest remaining : List Lexeme⦄ ⦃other : Expr⦄, Derives layer others other →
    lexemes ++ rest = others ++ remaining → EndsBefore layer rest →
    EndsBefore layer remaining → lexemes = others ∧ whole = other

/-- The same for the tails of chains after a given tree. -/
def SoleTail (tier : Tier) (below : Layer) (left : Expr) (lexemes : List Lexeme)
    (whole : Expr) : Prop :=
  ∀ ⦃layer : Layer⦄ ⦃others rest remaining : List Lexeme⦄ ⦃other : Expr⦄,
    Joins layer tier below → Tail tier below left others other →
    lexemes ++ rest = others ++ remaining → EndsBefore layer rest →
    EndsBefore layer remaining → lexemes = others ∧ whole = other

/-- The same for arguments up to a closing parenthesis. -/
def SoleArguments (lexemes : List Lexeme) (arguments : List Expr) : Prop :=
  ∀ ⦃others rest remaining : List Lexeme⦄ ⦃otherArguments : List Expr⦄
    ⦃closing otherClosing : Lexeme⦄, Arguments others otherArguments →
    lexemes ++ closing :: rest = others ++ otherClosing :: remaining →
    closing.token = .closeParen → otherClosing.token = .closeParen →
    lexemes = others ∧ arguments = otherArguments

theorem SolePhrase.chain {layer below : Layer} {tier : Tier} {first last : List Lexeme}
    {left whole : Expr} (joins : Joins layer tier below) (tail : Tail tier below left last whole)
    (soleOperand : SolePhrase below first left)
    (soleTail : SoleTail tier below left last whole) : SolePhrase layer (first ++ last) whole := by
  intro others rest remaining other again same ended endedAgain
  obtain ⟨otherFirst, otherLast, otherLeft, rfl, operandAgain, tailAgain⟩ :=
    again.exists_tail joins
  rw [List.append_assoc, List.append_assoc] at same
  obtain ⟨rfl, rfl⟩ := soleOperand operandAgain same (tail.endsBefore joins ended)
    (tailAgain.endsBefore joins endedAgain)
  obtain ⟨rfl, rfl⟩ := soleTail joins tailAgain (List.append_cancel_left same) ended endedAgain
  exact ⟨rfl, rfl⟩

theorem SoleTail.done {tier : Tier} {below : Layer} {left : Expr} :
    SoleTail tier below left [] left := by
  intro layer others rest remaining other joins again same ended _
  cases again with
  | done => exact ⟨rfl, rfl⟩
  | more isOperator inTier =>
      -- an operator of the tier would go on with the chain
      obtain rfl : rest = _ := same
      simp [ends, isOperator, mem_operators.mp inTier, joins.layerRank_eq] at ended

theorem SoleTail.more {tier : Tier} {below : Layer} {left right whole : Expr} {sign : Lexeme}
    {operator : BinaryOp} {lexemes last : List Lexeme} (isOperator : sign.token = .binary operator)
    (inTier : operator ∈ operators tier)
    (tail : Tail tier below (.binary operator left right (left.span.cover right.span)) last whole)
    (soleOperand : SolePhrase below lexemes right)
    (soleTail : SoleTail tier below (.binary operator left right (left.span.cover right.span))
      last whole) :
    SoleTail tier below left (sign :: (lexemes ++ last)) whole := by
  intro layer others rest remaining other joins again same ended endedAgain
  cases again with
  | done =>
      obtain rfl : _ = remaining := same
      simp [ends, isOperator, mem_operators.mp inTier, joins.layerRank_eq] at endedAgain
  | more isOperatorAgain inTierAgain operandAgain tailAgain =>
      simp only [List.cons_append, List.cons.injEq, List.append_assoc] at same
      obtain ⟨rfl, same⟩ := same
      obtain rfl : operator = _ := by simpa [isOperator] using isOperatorAgain
      obtain ⟨rfl, rfl⟩ := soleOperand operandAgain same (tail.endsBefore joins ended)
        (tailAgain.endsBefore joins endedAgain)
      obtain ⟨rfl, rfl⟩ := soleTail joins tailAgain (List.append_cancel_left same) ended endedAgain
      exact ⟨rfl, rfl⟩

/-- A comparison operator ends a sum and goes on with a comparison. -/
theorem ends_comparison {token : Token} {operator : BinaryOp}
    (isOperator : token = .binary operator) (compares : operator ∈ operators .comparison) :
    ends .sum token = true ∧ ends .comparison token = false := by
  simp [ends, isOperator, mem_operators.mp compares, tierRank, layerRank]

theorem SolePhrase.lift {layer below : Layer} {lexemes : List Lexeme} {whole : Expr}
    (lifts : Lifts layer below) (inner : Derives below lexemes whole)
    (sole : SolePhrase below lexemes whole) : SolePhrase layer lexemes whole := by
  intro others rest remaining other again same ended endedAgain
  obtain ⟨first, tail, rfl, starts⟩ := inner.head
  cases again with
  | chain joins => cases joins <;> cases lifts
  | lift liftsAgain innerAgain =>
      cases lifts <;> cases liftsAgain <;>
        exact sole innerAgain same (ended.of_le (by decide)) (endedAgain.of_le (by decide))
  | not isNot =>
      cases lifts
      obtain ⟨rfl, _⟩ := List.cons.inj same
      simp [begins, isNot] at starts
  | minus isMinus =>
      cases lifts
      obtain ⟨rfl, _⟩ := List.cons.inj same
      simp [begins, isMinus] at starts
  | compared before isOperator compares after =>
      cases lifts
      rw [List.append_assoc] at same
      obtain ⟨rfl, rfl⟩ := sole before same (ended.of_le (by decide))
        (endsBefore_cons.mpr (ends_comparison isOperator compares).1)
      obtain rfl := List.append_cancel_left same
      simp [ends_comparison isOperator compares] at ended
  | _ => cases lifts

theorem SolePhrase.compared {first second : List Lexeme} {sign : Lexeme} {operator : BinaryOp}
    {left right : Expr} (isOperator : sign.token = .binary operator)
    (compares : operator ∈ operators .comparison) (soleLeft : SolePhrase .sum first left)
    (soleRight : SolePhrase .sum second right) :
    SolePhrase .comparison (first ++ sign :: second)
      (.binary operator left right (left.span.cover right.span)) := by
  intro others rest remaining other again same ended endedAgain
  rw [List.append_assoc] at same
  cases again with
  | chain joins => cases joins
  | lift lifts inner =>
      cases lifts
      obtain ⟨rfl, rfl⟩ := soleLeft inner same
        (endsBefore_cons.mpr (ends_comparison isOperator compares).1)
        (endedAgain.of_le (by decide))
      obtain rfl := List.append_cancel_left same
      simp [ends_comparison isOperator compares] at endedAgain
  | compared before isOperatorAgain comparesAgain after =>
      rw [List.append_assoc] at same
      obtain ⟨rfl, rfl⟩ := soleLeft before same
        (endsBefore_cons.mpr (ends_comparison isOperator compares).1)
        (endsBefore_cons.mpr (ends_comparison isOperatorAgain comparesAgain).1)
      obtain ⟨rfl, sameRest⟩ := List.cons.inj (List.append_cancel_left same)
      obtain rfl : operator = _ := by simpa [isOperator] using isOperatorAgain
      obtain ⟨rfl, rfl⟩ := soleRight after sameRest (ended.of_le (by decide))
        (endedAgain.of_le (by decide))
      exact ⟨rfl, rfl⟩

theorem SolePhrase.not {sign : Lexeme} {lexemes : List Lexeme} {operand : Expr}
    (isNot : sign.token = .not) (sole : SolePhrase .negation lexemes operand) :
    SolePhrase .negation (sign :: lexemes)
      (.unary .not operand (sign.span.cover operand.span)) := by
  intro others rest remaining other again same ended endedAgain
  cases again with
  | chain joins => cases joins
  | lift lifts inner =>
      cases lifts
      obtain ⟨first, tail, rfl, starts⟩ := inner.head
      obtain ⟨rfl, _⟩ := List.cons.inj same
      simp [begins, isNot] at starts
  | not isNotAgain inner =>
      obtain ⟨rfl, sameRest⟩ := List.cons.inj same
      obtain ⟨rfl, rfl⟩ := sole inner sameRest ended endedAgain
      exact ⟨rfl, rfl⟩

theorem SolePhrase.minus {sign : Lexeme} {lexemes : List Lexeme} {operand : Expr}
    (isMinus : sign.token = .minus) (sole : SolePhrase .unary lexemes operand) :
    SolePhrase .unary (sign :: lexemes)
      (.unary .negate operand (sign.span.cover operand.span)) := by
  intro others rest remaining other again same ended endedAgain
  cases again with
  | chain joins => cases joins
  | lift lifts inner =>
      cases lifts
      obtain ⟨first, tail, rfl, starts⟩ := inner.head
      obtain ⟨rfl, _⟩ := List.cons.inj same
      simp [begins, isMinus] at starts
  | minus isMinusAgain inner =>
      obtain ⟨rfl, sameRest⟩ := List.cons.inj same
      obtain ⟨rfl, rfl⟩ := sole inner sameRest ended endedAgain
      exact ⟨rfl, rfl⟩

theorem SolePhrase.literal {lexeme : Lexeme} {value : Value}
    (isLiteral : lexeme.token = .literal value) :
    SolePhrase .primary [lexeme] (.literal lexeme.source value lexeme.span) := by
  intro others rest remaining other again same ended endedAgain
  cases again with
  | chain joins => cases joins
  | lift lifts => cases lifts
  | literal isLiteralAgain => simp_all
  | _ => simp_all

theorem SolePhrase.member {lexeme : Lexeme} {path : String}
    (isName : lexeme.token = .identifier path) :
    SolePhrase .primary [lexeme] (.member path lexeme.span) := by
  intro others rest remaining other again same ended endedAgain
  cases again with
  | chain joins => cases joins
  | lift lifts => cases lifts
  | member isNameAgain => simp_all
  | callEmpty isNameAgain opens closes =>
      obtain ⟨rfl, rfl⟩ := List.cons.inj same
      simp [ends, opens] at ended
  | call isNameAgain opens inner closes =>
      obtain ⟨rfl, rfl⟩ := List.cons.inj same
      simp [ends, opens] at ended
  | _ => simp_all

theorem SolePhrase.callEmpty {lexeme opening closing : Lexeme} {name : String}
    (isName : lexeme.token = .identifier name) (opens : opening.token = .openParen)
    (closes : closing.token = .closeParen) :
    SolePhrase .primary [lexeme, opening, closing]
      (.call name [] (lexeme.span.cover closing.span)) := by
  intro others rest remaining other again same ended endedAgain
  cases again with
  | chain joins => cases joins
  | lift lifts => cases lifts
  | member isNameAgain =>
      obtain ⟨rfl, rfl⟩ := List.cons.inj same
      simp [ends, opens] at endedAgain
  | call isNameAgain opensAgain inner closesAgain =>
      -- no argument begins with the closing parenthesis
      obtain ⟨first, tail, rfl, starts⟩ := inner.head
      simp only [List.cons_append, List.nil_append, List.cons.injEq] at same
      obtain ⟨rfl, rfl, rfl, _⟩ := same
      simp [begins, closes] at starts
  | _ => simp_all

theorem SolePhrase.call {lexeme opening closing : Lexeme} {name : String}
    {lexemes : List Lexeme} {arguments : List Expr} (isName : lexeme.token = .identifier name)
    (opens : opening.token = .openParen) (inner : Arguments lexemes arguments)
    (closes : closing.token = .closeParen) (sole : SoleArguments lexemes arguments) :
    SolePhrase .primary (lexeme :: opening :: (lexemes ++ [closing]))
      (.call name arguments (lexeme.span.cover closing.span)) := by
  intro others rest remaining other again same ended endedAgain
  cases again with
  | chain joins => cases joins
  | lift lifts => cases lifts
  | member isNameAgain =>
      obtain ⟨rfl, rfl⟩ := List.cons.inj same
      simp [ends, opens] at endedAgain
  | callEmpty isNameAgain opensAgain closesAgain =>
      obtain ⟨first, tail, rfl, starts⟩ := inner.head
      simp only [List.cons_append, List.nil_append, List.cons.injEq] at same
      obtain ⟨rfl, rfl, rfl, _⟩ := same
      simp [begins, closesAgain] at starts
  | call isNameAgain opensAgain innerAgain closesAgain =>
      simp only [List.cons_append, List.append_assoc, List.nil_append, List.cons.injEq] at same
      obtain ⟨rfl, rfl, same⟩ := same
      obtain ⟨rfl, rfl⟩ := sole innerAgain same closes closesAgain
      obtain ⟨rfl, _⟩ := List.cons.inj (List.append_cancel_left same)
      simp_all
  | _ => simp_all

theorem SolePhrase.paren {opening closing : Lexeme} {lexemes : List Lexeme} {inside : Expr}
    (opens : opening.token = .openParen) (closes : closing.token = .closeParen)
    (sole : SolePhrase .disjunction lexemes inside) :
    SolePhrase .primary (opening :: (lexemes ++ [closing]))
      (.paren inside (opening.span.cover closing.span)) := by
  intro others rest remaining other again same ended endedAgain
  cases again with
  | chain joins => cases joins
  | lift lifts => cases lifts
  | paren opensAgain innerAgain closesAgain =>
      simp only [List.cons_append, List.append_assoc, List.nil_append, List.cons.injEq] at same
      obtain ⟨rfl, same⟩ := same
      obtain ⟨rfl, rfl⟩ := sole innerAgain same (by simp [ends, closes])
        (by simp [ends, closesAgain])
      obtain ⟨rfl, _⟩ := List.cons.inj (List.append_cancel_left same)
      exact ⟨rfl, rfl⟩
  | _ => simp_all

theorem SoleArguments.last {lexemes : List Lexeme} {argument : Expr}
    (sole : SolePhrase .disjunction lexemes argument) : SoleArguments lexemes [argument] := by
  intro others rest remaining otherArguments closing otherClosing again same closes closesAgain
  cases again with
  | last innerAgain =>
      obtain ⟨rfl, rfl⟩ := sole innerAgain same (by simp [ends, closes])
        (by simp [ends, closesAgain])
      exact ⟨rfl, rfl⟩
  | more innerAgain divides tail =>
      rw [List.append_assoc] at same
      obtain ⟨rfl, rfl⟩ := sole innerAgain same (by simp [ends, closes]) (by simp [ends, divides])
      obtain ⟨rfl, _⟩ := List.cons.inj (List.append_cancel_left same)
      simp [closes] at divides

theorem SoleArguments.more {lexemes last : List Lexeme} {comma : Lexeme} {argument : Expr}
    {arguments : List Expr} (divides : comma.token = .comma)
    (sole : SolePhrase .disjunction lexemes argument) (soleTail : SoleArguments last arguments) :
    SoleArguments (lexemes ++ comma :: last) (argument :: arguments) := by
  intro others rest remaining otherArguments closing otherClosing again same closes closesAgain
  rw [List.append_assoc] at same
  cases again with
  | last innerAgain =>
      obtain ⟨rfl, rfl⟩ := sole innerAgain same (by simp [ends, divides])
        (by simp [ends, closesAgain])
      obtain ⟨rfl, _⟩ := List.cons.inj (List.append_cancel_left same)
      simp [divides] at closesAgain
  | more innerAgain dividesAgain tailAgain =>
      rw [List.append_assoc] at same
      obtain ⟨rfl, rfl⟩ := sole innerAgain same (by simp [ends, divides])
        (by simp [ends, dividesAgain])
      obtain ⟨rfl, sameRest⟩ := List.cons.inj (List.append_cancel_left same)
      obtain ⟨rfl, rfl⟩ := soleTail tailAgain sameRest closes closesAgain
      exact ⟨rfl, rfl⟩

mutual

theorem Derives.sole {layer : Layer} {lexemes : List Lexeme} {whole : Expr} :
    Derives layer lexemes whole → SolePhrase layer lexemes whole
  | .chain joins operand tail => .chain joins tail operand.sole tail.sole
  | .lift lifts inner => .lift lifts inner inner.sole
  | .not isNot inner => .not isNot inner.sole
  | .compared before isOperator compares after =>
      .compared isOperator compares before.sole after.sole
  | .minus isMinus inner => .minus isMinus inner.sole
  | .literal isLiteral => .literal isLiteral
  | .member isName => .member isName
  | .callEmpty isName opens closes => .callEmpty isName opens closes
  | .call isName opens inner closes => .call isName opens inner closes inner.sole
  | .paren opens inner closes => .paren opens closes inner.sole

theorem Tail.sole {tier : Tier} {below : Layer} {left whole : Expr} {lexemes : List Lexeme} :
    Tail tier below left lexemes whole → SoleTail tier below left lexemes whole
  | .done => .done
  | .more isOperator inTier operand tail => .more isOperator inTier tail operand.sole tail.sole

theorem Arguments.sole {lexemes : List Lexeme} {arguments : List Expr} :
    Arguments lexemes arguments → SoleArguments lexemes arguments
  | .last inner => .last inner.sole
  | .more inner divides tail => .more divides inner.sole tail.sole

end

/-- The grammar is unambiguous. -/
theorem Derives.unique {layer : Layer} {lexemes : List Lexeme} {whole other : Expr}
    (derived : Derives layer lexemes whole) (again : Derives layer lexemes other) :
    whole = other := by
  have atEnd : EndsBefore layer [] := by simp [EndsBefore]
  have same : lexemes ++ [] = lexemes ++ [] := rfl
  exact (derived.sole again same atEnd atEnd).2

end QueryClause.Grammar
