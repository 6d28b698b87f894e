import QueryClause.Expr
import QueryClause.ParseError

/-!
# Parsing expressions

The parser holds one lexeme ahead of its cursor and fetches the next when it
takes that one. Binary operators of one tier group to the left, comparisons do
not chain, `not` binds looser than comparisons, and the minus sign binds tightest.

A parser can be used again after an error. When the lexeme to fetch is faulty,
the lexeme held stays, while the cursor has moved past the fault.

Nesting is counted where the grammar refers back to itself: inside parentheses,
in arguments, and under `not` and the minus sign. A count that reaches `maxDepth`
is refused, and so is a tree taller than `maxDepth`.
-/

namespace QueryClause

/-- A place between two lexemes of a text, with the lexeme ahead and the number of
nestings the place is inside. -/
structure Parser where
  cursor : Cursor
  current : Lexeme
  depth : Nat
  deriving DecidableEq

namespace Parser

/-- A step of parsing, which moves the parser whether it succeeds or fails. -/
abbrev Action := EStateM ParseError Parser

def start (text : String) : Except ParseError Parser :=
  match (Cursor.start text).next with
  | (.ok lexeme, cursor) => .ok ⟨cursor, lexeme, 0⟩
  | (.error error, _) => .error (.lexical error)

def advance : Action Lexeme := fun parser =>
  match parser.cursor.next with
  | (.ok lexeme, cursor) => .ok parser.current { parser with cursor := cursor, current := lexeme }
  | (.error error, cursor) => .error (.lexical error) { parser with cursor := cursor }

def peek : Action Token := do
  return (← get).current.token

def refuse {α : Type} (expected : Expectation) : Action α := do
  let lexeme := (← get).current
  throw (.unexpectedToken expected lexeme.token lexeme.span)

/-- Takes the lexeme ahead, which has to have the token, and tells its span. -/
def expect (token : Token) (expected : Expectation) : Action Span := do
  if (← peek) = token then return (← advance).span else refuse expected

def openParen : Action Span :=
  expect .openParen .openParen

def closeParen : Action Span :=
  expect .closeParen .closeParen

/-- Goes one nesting further in, unless the count has reached `maxDepth`. -/
def enter : Action Unit := fun parser =>
  if parser.depth < maxDepth then .ok () { parser with depth := parser.depth + 1 }
  else .error (.tooDeep parser.current.span) parser

def leave (parser : Parser) : Parser :=
  { parser with depth := parser.depth - 1 }

/-- Runs an action one nesting further in, and goes back whether it succeeds or fails. -/
def nested (inner : Action Expr) : Action Expr := do
  enter
  try inner finally modify leave

/-- Accepts a tree that is not too tall. -/
def node (expression : Expr) : Action Expr :=
  if expression.height ≤ maxDepth then return expression else throw (.tooDeep expression.span)

def join (operator : BinaryOp) (left right : Expr) : Action Expr :=
  node (.binary operator left right (left.span.cover right.span))

def operator? (tier : Tier) : Action (Option BinaryOp) := do
  match ← peek with
  | .binary operator =>
      if operator.tier = tier then
        let _ ← advance
        return some operator
      else return none
  | _ => return none

/-- Goes on with operators of a tier and their right operands, after the operand
`left`. Every step makes the tree taller, so `maxDepth` steps are enough. -/
def chainFrom (tier : Tier) (operand : Action Expr) : Nat → Expr → Action Expr
  | 0, left => return left
  | steps + 1, left => do
      match ← operator? tier with
      | some operator => chainFrom tier operand steps (← join operator left (← operand))
      | none => return left

def chain (tier : Tier) (operand : Action Expr) : Action Expr := do
  chainFrom tier operand maxDepth (← operand)

def argumentsFrom (argument : Action Expr) : Nat → Action (List Expr)
  | 0 => return []
  | count + 1 => do
      let first ← argument
      if (← peek) = .comma then
        let _ ← advance
        return first :: (← argumentsFrom argument count)
      else return [first]

/-- The arguments up to a closing parenthesis, if there are any. Each takes at
least one character. -/
def arguments (argument : Action Expr) : Action (List Expr) := do
  if (← peek) = .closeParen then return []
  else argumentsFrom argument ((← get).cursor.rest.length + 1)

/-- The actions that the grammar refers back to, one nesting further in. -/
structure Inner where
  expression : Action Expr
  negation : Action Expr
  unary : Action Expr

/-- A call behind its name, which had the span. -/
def call (inner : Inner) (name : String) (span : Span) : Action Expr := do
  let _ ← openParen
  let arguments ← arguments (nested inner.expression)
  let close ← closeParen
  node (.call name arguments (span.cover close))

def primary (inner : Inner) : Action Expr := do
  let lexeme := (← get).current
  match lexeme.token with
  | .literal value =>
      let _ ← advance
      return .literal lexeme.source value lexeme.span
  | .identifier name =>
      let _ ← advance
      if (← peek) = .openParen then call inner name lexeme.span
      else return .member name lexeme.span
  | .openParen =>
      let _ ← advance
      let expression ← nested inner.expression
      let close ← closeParen
      node (.paren expression (lexeme.span.cover close))
  | _ => refuse .expression

def unary (inner : Inner) : Action Expr := do
  if (← peek) = .minus then
    let sign ← advance
    let operand ← nested inner.unary
    node (.unary .negate operand (sign.span.cover operand.span))
  else primary inner

def product (inner : Inner) : Action Expr :=
  chain .product (unary inner)

def sum (inner : Inner) : Action Expr :=
  chain .sum (product inner)

def comparison (inner : Inner) : Action Expr := do
  let left ← sum inner
  match ← operator? .comparison with
  | some operator => join operator left (← sum inner)
  | none => return left

def negation (inner : Inner) : Action Expr := do
  if (← peek) = .not then
    let sign ← advance
    let operand ← nested inner.negation
    node (.unary .not operand (sign.span.cover operand.span))
  else comparison inner

def conjunction (inner : Inner) : Action Expr :=
  chain .conjunction (negation inner)

def disjunction (inner : Inner) : Action Expr :=
  chain .disjunction (conjunction inner)

def inner : Nat → Inner
  | 0 =>
      let refused : Action Expr := fun parser => .error (.tooDeep parser.current.span) parser
      ⟨refused, refused, refused⟩
  | prepared + 1 =>
      ⟨disjunction (inner prepared), negation (inner prepared), unary (inner prepared)⟩

/-- The inner actions at the place of a parser. They are prepared for one nesting more than `enter`
lets in, so it is `enter` that decides how deep a parser goes. -/
def innerAt (parser : Parser) : Inner :=
  inner (maxDepth + 1 - parser.depth)

/-- An expression, up to the first lexeme that cannot go on with it. -/
def expression : Action Expr := fun parser =>
  disjunction (innerAt parser) parser

def whole : Action Expr := do
  let expression ← expression
  if (← peek) = .endOfInput then return expression else refuse .operatorOrEnd

def outcome {α : Type} : EStateM.Result ParseError Parser α → Except ParseError α
  | .ok value _ => .ok value
  | .error error _ => .error error

end Parser

def parse (text : String) : Except ParseError Expr := do
  let parser ← Parser.start text
  Parser.outcome (Parser.whole parser)

end QueryClause
