import QueryClause.Expr
import QueryClause.Lexeme

/-!
# The grammar of expressions

The grammar has eight layers, each built from the next tighter one.

    disjunction := conjunction ('or' conjunction)*
    conjunction := negation ('and' negation)*
    negation    := 'not' negation | comparison
    comparison  := sum [('eq' | 'ne' | 'lt' | 'le' | 'gt' | 'ge') sum]
    sum         := product (('add' | 'sub') product)*
    product     := unary (('mul' | 'div' | 'mod') unary)*
    unary       := '-' unary | primary
    primary     := literal | name | name '(' [disjunction (',' disjunction)*] ')'
                 | '(' disjunction ')'

A derivation relates a sequence of lexemes to its tree. Repetitions group to the
left, and spans and written forms come from the lexemes.
-/

namespace QueryClause.Grammar

/-- The layers of the grammar, from the loosest to the tightest. -/
inductive Layer where
  | disjunction | conjunction | negation | comparison | sum | product | unary | primary
  deriving DecidableEq, Repr

/-- The operators that divide the operands of a tier. -/
def operators : Tier → List BinaryOp
  | .disjunction => [.or]
  | .conjunction => [.and]
  | .comparison => [.eq, .ne, .lt, .le, .gt, .ge]
  | .sum => [.add, .sub]
  | .product => [.mul, .div, .mod]

theorem mem_operators {operator : BinaryOp} {tier : Tier} :
    operator ∈ operators tier ↔ operator.tier = tier := by
  cases operator <;> cases tier <;> decide

/-- The layers that are chains: operators of a tier stand between operands of a
tighter layer. -/
inductive Joins : Layer → Tier → Layer → Prop where
  | disjunction : Joins .disjunction .disjunction .conjunction
  | conjunction : Joins .conjunction .conjunction .negation
  | sum : Joins .sum .sum .product
  | product : Joins .product .product .unary

/-- The layers that hold the phrases of a tighter layer as they are. -/
inductive Lifts : Layer → Layer → Prop where
  | negation : Lifts .negation .comparison
  | comparison : Lifts .comparison .sum
  | unary : Lifts .unary .primary

mutual

/-- The tree that the grammar gives to the lexemes of a layer. -/
inductive Derives : Layer → List Lexeme → Expr → Prop where
  | chain {layer below : Layer} {tier : Tier} {first rest : List Lexeme} {left whole : Expr}
      (joins : Joins layer tier below) (operand : Derives below first left)
      (tail : Tail tier below left rest whole) :
      Derives layer (first ++ rest) whole
  | lift {layer below : Layer} {lexemes : List Lexeme} {whole : Expr}
      (lifts : Lifts layer below) (inner : Derives below lexemes whole) :
      Derives layer lexemes whole
  | not {sign : Lexeme} {lexemes : List Lexeme} {operand : Expr}
      (isNot : sign.token = .not) (inner : Derives .negation lexemes operand) :
      Derives .negation (sign :: lexemes)
        (.unary .not operand (sign.span.cover operand.span))
  | compared {first second : List Lexeme} {sign : Lexeme} {operator : BinaryOp}
      {left right : Expr} (before : Derives .sum first left)
      (isOperator : sign.token = .binary operator) (compares : operator ∈ operators .comparison)
      (after : Derives .sum second right) :
      Derives .comparison (first ++ sign :: second)
        (.binary operator left right (left.span.cover right.span))
  | minus {sign : Lexeme} {lexemes : List Lexeme} {operand : Expr}
      (isMinus : sign.token = .minus) (inner : Derives .unary lexemes operand) :
      Derives .unary (sign :: lexemes)
        (.unary .negate operand (sign.span.cover operand.span))
  | literal {lexeme : Lexeme} {value : Value} (isLiteral : lexeme.token = .literal value) :
      Derives .primary [lexeme] (.literal lexeme.source value lexeme.span)
  | member {lexeme : Lexeme} {path : String} (isName : lexeme.token = .identifier path) :
      Derives .primary [lexeme] (.member path lexeme.span)
  | callEmpty {lexeme opening closing : Lexeme} {name : String}
      (isName : lexeme.token = .identifier name) (opens : opening.token = .openParen)
      (closes : closing.token = .closeParen) :
      Derives .primary [lexeme, opening, closing]
        (.call name [] (lexeme.span.cover closing.span))
  | call {lexeme opening closing : Lexeme} {name : String} {lexemes : List Lexeme}
      {arguments : List Expr} (isName : lexeme.token = .identifier name)
      (opens : opening.token = .openParen) (inner : Arguments lexemes arguments)
      (closes : closing.token = .closeParen) :
      Derives .primary (lexeme :: opening :: (lexemes ++ [closing]))
        (.call name arguments (lexeme.span.cover closing.span))
  | paren {opening closing : Lexeme} {lexemes : List Lexeme} {inside : Expr}
      (opens : opening.token = .openParen) (inner : Derives .disjunction lexemes inside)
      (closes : closing.token = .closeParen) :
      Derives .primary (opening :: (lexemes ++ [closing]))
        (.paren inside (opening.span.cover closing.span))

/-- How a chain goes on after the tree `left` of the operands before. -/
inductive Tail : Tier → Layer → Expr → List Lexeme → Expr → Prop where
  | done {tier : Tier} {below : Layer} {left : Expr} : Tail tier below left [] left
  | more {tier : Tier} {below : Layer} {left right whole : Expr} {sign : Lexeme}
      {operator : BinaryOp} {lexemes rest : List Lexeme}
      (isOperator : sign.token = .binary operator) (inTier : operator ∈ operators tier)
      (operand : Derives below lexemes right)
      (tail : Tail tier below (.binary operator left right (left.span.cover right.span))
        rest whole) :
      Tail tier below left (sign :: (lexemes ++ rest)) whole

/-- Expressions divided by commas. -/
inductive Arguments : List Lexeme → List Expr → Prop where
  | last {lexemes : List Lexeme} {argument : Expr}
      (inner : Derives .disjunction lexemes argument) : Arguments lexemes [argument]
  | more {lexemes rest : List Lexeme} {comma : Lexeme} {argument : Expr} {others : List Expr}
      (inner : Derives .disjunction lexemes argument) (divides : comma.token = .comma)
      (tail : Arguments rest others) :
      Arguments (lexemes ++ comma :: rest) (argument :: others)

end

/-! ## First and following lexemes -/

/-- Whether a token can begin a layer. -/
def begins : Layer → Token → Bool
  | _, .literal _ | _, .identifier _ | _, .openParen => true
  | layer, .minus => layer != .primary
  | layer, .not => layer == .disjunction || layer == .conjunction || layer == .negation
  | _, _ => false

/-- The place of a tier, counted from the loosest. -/
def tierRank : Tier → Nat
  | .disjunction => 0
  | .conjunction => 1
  | .comparison => 2
  | .sum => 3
  | .product => 4

/-- The number of tiers whose operators do not belong to a layer. -/
def layerRank : Layer → Nat
  | .disjunction => 0
  | .conjunction => 1
  | .negation | .comparison => 2
  | .sum => 3
  | .product => 4
  | .unary | .primary => 5

/-- Whether a token after a layer leaves the layer as it is. An operator may be too
loose to go on with it, and a parenthesis would turn a name into a call. -/
def ends : Layer → Token → Bool
  | _, .openParen => false
  | layer, .binary operator => tierRank operator.tier < layerRank layer
  | _, _ => true

/-- What follows a layer leaves the layer as it is. -/
def EndsBefore (layer : Layer) (rest : List Lexeme) : Prop :=
  ∀ lexeme ∈ rest.head?, ends layer lexeme.token = true

theorem Joins.layerRank_eq {layer below : Layer} {tier : Tier} (joins : Joins layer tier below) :
    layerRank layer = tierRank tier := by
  cases joins <;> rfl

theorem Joins.tierRank_lt {layer below : Layer} {tier : Tier} (joins : Joins layer tier below) :
    tierRank tier < layerRank below := by
  cases joins <;> decide

/-- What can begin an operand of a chain can begin the chain. -/
theorem Joins.begins {layer below : Layer} {tier : Tier} {token : Token}
    (joins : Joins layer tier below) (starts : begins below token = true) :
    begins layer token = true := by
  cases joins <;> cases token <;> simp_all [Grammar.begins]

theorem Lifts.layerRank_le {layer below : Layer} (lifts : Lifts layer below) :
    layerRank layer ≤ layerRank below := by
  cases lifts <;> decide

theorem Lifts.begins {layer below : Layer} {token : Token} (lifts : Lifts layer below)
    (starts : begins below token = true) : begins layer token = true := by
  cases lifts <;> cases token <;> simp_all [Grammar.begins]

/-- What ends a looser layer ends a tighter one. -/
theorem ends_of_le {layer below : Layer} {token : Token}
    (tighter : layerRank layer ≤ layerRank below) (ended : ends layer token = true) :
    ends below token = true := by
  cases token <;> simp_all [ends]
  omega

theorem EndsBefore.of_le {layer below : Layer} {rest : List Lexeme}
    (ended : EndsBefore layer rest) (tighter : layerRank layer ≤ layerRank below) :
    EndsBefore below rest :=
  fun lexeme mem => ends_of_le tighter (ended lexeme mem)

@[simp]
theorem endsBefore_cons {layer : Layer} {lexeme : Lexeme} {rest : List Lexeme} :
    EndsBefore layer (lexeme :: rest) ↔ ends layer lexeme.token = true := by
  simp [EndsBefore]

/-- Every derivation takes a first lexeme that can begin its layer. -/
theorem Derives.head {layer : Layer} {lexemes : List Lexeme} {whole : Expr} :
    Derives layer lexemes whole →
      ∃ first rest, lexemes = first :: rest ∧ begins layer first.token = true
  | .chain joins operand _ => by
      obtain ⟨first, rest, rfl, starts⟩ := operand.head
      exact ⟨first, _, rfl, joins.begins starts⟩
  | .lift lifts inner => by
      obtain ⟨first, rest, rfl, starts⟩ := inner.head
      exact ⟨first, rest, rfl, lifts.begins starts⟩
  | .compared before _ _ _ => by
      obtain ⟨first, rest, rfl, starts⟩ := before.head
      exact ⟨first, _, rfl, Lifts.comparison.begins starts⟩
  | .not isNot _ => ⟨_, _, rfl, by simp [begins, isNot]⟩
  | .minus isMinus _ => ⟨_, _, rfl, by simp [begins, isMinus]⟩
  | .literal isLiteral => ⟨_, _, rfl, by simp [begins, isLiteral]⟩
  | .member isName => ⟨_, _, rfl, by simp [begins, isName]⟩
  | .callEmpty isName _ _ => ⟨_, _, rfl, by simp [begins, isName]⟩
  | .call isName _ _ _ => ⟨_, _, rfl, by simp [begins, isName]⟩
  | .paren opens _ _ => ⟨_, _, rfl, by simp [begins, opens]⟩

theorem Arguments.head {lexemes : List Lexeme} {arguments : List Expr} :
    Arguments lexemes arguments →
      ∃ first rest, lexemes = first :: rest ∧ begins .disjunction first.token = true
  | .last inner => inner.head
  | .more inner _ _ => by
      obtain ⟨first, rest, rfl, starts⟩ := inner.head
      exact ⟨first, _, rfl, starts⟩

/-- A chain goes on with an operator of its tier, so what follows its operand ends
the operand. -/
theorem Tail.endsBefore {layer below : Layer} {tier : Tier} {left whole : Expr}
    {lexemes rest : List Lexeme} (joins : Joins layer tier below)
    (tail : Tail tier below left lexemes whole) (ended : EndsBefore layer rest) :
    EndsBefore below (lexemes ++ rest) := by
  cases tail with
  | done =>
      refine ended.of_le ?_
      have := joins.tierRank_lt
      have := joins.layerRank_eq
      omega
  | more isOperator inTier operand tail =>
      simpa [ends, isOperator, mem_operators.mp inTier] using joins.tierRank_lt

/-- A chain goes on where another one ends. -/
theorem Tail.append {tier : Tier} {below : Layer} {left middle whole : Expr}
    {lexemes rest : List Lexeme} : Tail tier below left lexemes middle →
      Tail tier below middle rest whole → Tail tier below left (lexemes ++ rest) whole
  | .done, later => later
  | .more isOperator inTier operand tail, later => by
      rw [List.cons_append, List.append_assoc]
      exact .more isOperator inTier operand (tail.append later)

/-- How a chain goes on does not depend on the operands before. -/
theorem Tail.exists_after {tier : Tier} {below : Layer} {left whole : Expr}
    {lexemes : List Lexeme} (other : Expr) : Tail tier below left lexemes whole →
      ∃ result, Tail tier below other lexemes result
  | .done => ⟨other, .done⟩
  | .more isOperator inTier operand tail => by
      obtain ⟨result, later⟩ := tail.exists_after _
      exact ⟨result, .more isOperator inTier operand later⟩

/-! ## Heights and lengths -/

/-- A chain is at least as tall as its first operand. -/
theorem Tail.height_le {tier : Tier} {below : Layer} {left whole : Expr}
    {lexemes : List Lexeme} : Tail tier below left lexemes whole → left.height ≤ whole.height
  | .done => Nat.le_refl _
  | .more _ _ _ tail => by
      have joined := tail.height_le
      simp only [Expr.height] at joined
      omega

/-- Every argument takes at least one lexeme. -/
theorem Arguments.length_le {lexemes : List Lexeme} {arguments : List Expr} :
    Arguments lexemes arguments → arguments.length ≤ lexemes.length
  | .last inner => by
      obtain ⟨_, _, rfl, _⟩ := inner.head
      simp
  | .more _ _ tail => by
      have others := tail.length_le
      simp only [List.length_append, List.length_cons]
      omega

end QueryClause.Grammar
