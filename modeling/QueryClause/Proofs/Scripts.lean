import QueryClause.Proofs.ParserCompleteness

/-!
# Parsing in single steps

The result of an action does not tell which parsers it passed on its way. A script is an action
written out in the steps that make it up: it looks at the parser, takes the lexeme ahead, runs
another script one nesting further in, refuses a token or a height, or is done. A script runs as an
action, and it tells the parsers that it passes.

Every routine of the parser has a script with the same steps in the same order, and is the run of
that script. So what is to be shown of all runs of the parser is shown by induction on scripts.
-/

namespace QueryClause.Parser

open QueryClause.Grammar

/-- An action written out in steps. No step but `nest` changes the count of nestings. -/
inductive Script : Type → Type 1 where
  | done {α : Type} (value : α) : Script α
  | refuse {α : Type} (expected : Expectation) : Script α
  | tooDeep {α : Type} (span : Span) : Script α
  | look {α : Type} (rest : Parser → Script α) : Script α
  | take {α : Type} (rest : Lexeme → Script α) : Script α
  | nest {α : Type} (inner : Script Expr) (rest : Expr → Script α) : Script α

namespace Script

/-- A script and then another, which depends on the value of the first. -/
protected def bind {β : Type} : {α : Type} → Script α → (α → Script β) → Script β
  | _, .done value, next => next value
  | _, .refuse expected, _ => .refuse expected
  | _, .tooDeep span, _ => .tooDeep span
  | _, .look rest, next => .look fun parser => (rest parser).bind next
  | _, .take rest, next => .take fun lexeme => (rest lexeme).bind next
  | _, .nest inner rest, next => .nest inner fun tree => (rest tree).bind next

instance : Monad Script where
  pure := .done
  bind := Script.bind

/-- What a script does. -/
def run : {α : Type} → Script α → Action α
  | _, .done value => pure value
  | _, .refuse expected => Parser.refuse expected
  | _, .tooDeep span => throw (.tooDeep span)
  | _, .look rest => get >>= fun parser => (rest parser).run
  | _, .take rest => advance >>= fun lexeme => (rest lexeme).run
  | _, .nest inner rest => nested inner.run >>= fun tree => (rest tree).run

/-- The parsers that a script passes, from the one it begins at to the one it leaves. -/
def path : {α : Type} → Script α → Parser → List Parser
  | _, .done _, parser => [parser]
  | _, .refuse _, parser => [parser]
  | _, .tooDeep _, parser => [parser]
  | _, .look rest, parser => (rest parser).path parser
  | _, .take rest, parser =>
      match advance parser with
      | .ok lexeme next => parser :: (rest lexeme).path next
      | .error _ next => [parser, next]
  | _, .nest inner rest, parser =>
      match enter parser with
      | .ok _ entered =>
          match inner.run entered with
          | .ok tree last => parser :: (inner.path entered ++ (rest tree).path last.leave)
          | .error _ last => parser :: (inner.path entered ++ [last.leave])
      | .error _ last => [last]

/-! ## The actions as scripts

Each script is named for its action. -/

def peek : Script Token :=
  .look fun parser => .done parser.current.token

def advance : Script Lexeme :=
  .take .done

def nested (inner : Script Expr) : Script Expr :=
  .nest inner .done

def expect (token : Token) (expected : Expectation) : Script Span := do
  if (← peek) = token then return (← advance).span else .refuse expected

def openParen : Script Span :=
  expect .openParen .openParen

def closeParen : Script Span :=
  expect .closeParen .closeParen

def node (expression : Expr) : Script Expr :=
  if expression.height ≤ maxDepth then return expression else .tooDeep expression.span

def join (operator : BinaryOp) (left right : Expr) : Script Expr :=
  node (.binary operator left right (left.span.cover right.span))

def operator? (tier : Tier) : Script (Option BinaryOp) := do
  match ← peek with
  | .binary operator =>
      if operator.tier = tier then
        let _ ← advance
        return some operator
      else return none
  | _ => return none

def chainFrom (tier : Tier) (operand : Script Expr) : Nat → Expr → Script Expr
  | 0, left => return left
  | steps + 1, left => do
      match ← operator? tier with
      | some operator => chainFrom tier operand steps (← join operator left (← operand))
      | none => return left

def chain (tier : Tier) (operand : Script Expr) : Script Expr := do
  chainFrom tier operand maxDepth (← operand)

def argumentsFrom (argument : Script Expr) : Nat → Script (List Expr)
  | 0 => return []
  | count + 1 => do
      let first ← argument
      if (← peek) = .comma then
        let _ ← advance
        return first :: (← argumentsFrom argument count)
      else return [first]

def arguments (argument : Script Expr) : Script (List Expr) := do
  if (← peek) = .closeParen then return []
  else .look fun parser => argumentsFrom argument (parser.cursor.rest.length + 1)

/-- The scripts that the grammar refers back to, one nesting further in. -/
structure Inner where
  expression : Script Expr
  negation : Script Expr
  unary : Script Expr

/-- The inner actions that inner scripts run as. -/
def Inner.run (inner : Inner) : Parser.Inner :=
  ⟨inner.expression.run, inner.negation.run, inner.unary.run⟩

def call (inner : Inner) (name : String) (span : Span) : Script Expr := do
  let _ ← openParen
  let arguments ← arguments (nested inner.expression)
  let close ← closeParen
  node (.call name arguments (span.cover close))

def primary (inner : Inner) : Script Expr :=
  .look fun parser => do
    let lexeme := parser.current
    match lexeme.token with
    | .literal value =>
        let _ ← advance
        return .literal lexeme.source value lexeme.span
    | .identifier name =>
        let _ ← advance
        if (← peek) = .openParen then call inner name lexeme.span
        else return .member name lexeme.span
    | .openParen =>
        let _ ← advance
        let expression ← nested inner.expression
        let close ← closeParen
        node (.paren expression (lexeme.span.cover close))
    | _ => .refuse .expression

def unary (inner : Inner) : Script Expr := do
  if (← peek) = .minus then
    let sign ← advance
    let operand ← nested inner.unary
    node (.unary .negate operand (sign.span.cover operand.span))
  else primary inner

def product (inner : Inner) : Script Expr :=
  chain .product (unary inner)

def sum (inner : Inner) : Script Expr :=
  chain .sum (product inner)

def comparison (inner : Inner) : Script Expr := do
  let left ← sum inner
  match ← operator? .comparison with
  | some operator => join operator left (← sum inner)
  | none => return left

def negation (inner : Inner) : Script Expr := do
  if (← peek) = .not then
    let sign ← advance
    let operand ← nested inner.negation
    node (.unary .not operand (sign.span.cover operand.span))
  else comparison inner

def conjunction (inner : Inner) : Script Expr :=
  chain .conjunction (negation inner)

def disjunction (inner : Inner) : Script Expr :=
  chain .disjunction (conjunction inner)

def inner : Nat → Inner
  | 0 =>
      let refused : Script Expr := .look fun parser => .tooDeep parser.current.span
      ⟨refused, refused, refused⟩
  | prepared + 1 =>
      ⟨disjunction (inner prepared), negation (inner prepared), unary (inner prepared)⟩

/-- The script of a layer. -/
def ofLayer : Layer → Inner → Script Expr
  | .disjunction => disjunction
  | .conjunction => conjunction
  | .negation => negation
  | .comparison => comparison
  | .sum => sum
  | .product => product
  | .unary => unary
  | .primary => primary

/-- A script with the inner scripts at the place of the parser. -/
def here (script : Inner → Script Expr) : Script Expr :=
  .look fun parser => script (inner (maxDepth + 1 - parser.depth))

def whole : Script Expr := do
  let expression ← here disjunction
  if (← peek) = .endOfInput then return expression else .refuse .operatorOrEnd

/-! ## The runs of the scripts -/

/-- Two scripts in turn run as two actions in turn. -/
theorem run_bind {α β : Type} {script : Script α} {next : α → Script β} {action : Action α}
    {rest : α → Action β} (first : script.run = action)
    (second : ∀ value, (next value).run = rest value) :
    (script >>= next).run = action >>= rest := by
  subst first
  change (script.bind next).run = _
  induction script with
  | done value => rw [Script.bind, run, pure_bind, second]
  | refuse expected => rfl
  | tooDeep span => rfl
  | look rest ih =>
      rw [Script.bind, run, run, bind_assoc]
      exact bind_congr fun parser => ih parser second
  | take rest ih =>
      rw [Script.bind, run, run, bind_assoc]
      exact bind_congr fun lexeme => ih lexeme second
  | nest inner rest _ ih =>
      rw [Script.bind, run, run, bind_assoc]
      exact bind_congr fun tree => ih tree second

theorem run_peek : peek.run = Parser.peek :=
  rfl

theorem run_advance : advance.run = Parser.advance :=
  bind_pure _

theorem run_nested (inner : Script Expr) : (nested inner).run = Parser.nested inner.run :=
  bind_pure _

theorem run_expect (token : Token) (expected : Expectation) :
    (expect token expected).run = Parser.expect token expected := by
  refine run_bind run_peek fun ahead => ?_
  split
  · exact run_bind run_advance fun _ => rfl
  · rfl

theorem run_node (expression : Expr) : (node expression).run = Parser.node expression := by
  unfold node Parser.node
  split <;> rfl

theorem run_operator? (tier : Tier) : (operator? tier).run = Parser.operator? tier := by
  refine run_bind run_peek fun token => ?_
  cases token with
  | binary operator =>
      dsimp only
      split
      · exact run_bind run_advance fun _ => rfl
      · rfl
  | _ => rfl

theorem run_chainFrom (tier : Tier) (operand : Script Expr) (steps : Nat) (left : Expr) :
    (chainFrom tier operand steps left).run = Parser.chainFrom tier operand.run steps left := by
  induction steps generalizing left with
  | zero => rfl
  | succ steps ih =>
      refine run_bind (run_operator? tier) fun found => ?_
      cases found with
      | none => rfl
      | some operator => exact run_bind rfl fun right => run_bind (run_node _) ih

theorem run_chain (tier : Tier) (operand : Script Expr) :
    (chain tier operand).run = Parser.chain tier operand.run :=
  run_bind rfl (run_chainFrom tier operand maxDepth)

theorem run_argumentsFrom (argument : Script Expr) (count : Nat) :
    (argumentsFrom argument count).run = Parser.argumentsFrom argument.run count := by
  induction count with
  | zero => rfl
  | succ count ih =>
      refine run_bind rfl fun first => run_bind run_peek fun token => ?_
      split
      · exact run_bind run_advance fun _ => run_bind ih fun _ => rfl
      · rfl

theorem run_arguments (argument : Script Expr) :
    (arguments argument).run = Parser.arguments argument.run := by
  refine run_bind run_peek fun token => ?_
  split
  · rfl
  · exact bind_congr fun parser => run_argumentsFrom argument _

variable (inner : Inner)

theorem run_call (name : String) (span : Span) :
    (call inner name span).run = Parser.call inner.run name span := by
  refine run_bind (run_expect _ _) fun _ => ?_
  refine run_bind ((run_arguments _).trans (congrArg _ (run_nested _))) fun arguments => ?_
  exact run_bind (run_expect _ _) fun _ => run_node _

theorem run_primary : (primary inner).run = Parser.primary inner.run := by
  refine bind_congr fun parser => ?_
  dsimp only
  cases parser.current.token with
  | literal value => exact run_bind run_advance fun _ => rfl
  | identifier name =>
      refine run_bind run_advance fun _ => run_bind run_peek fun token => ?_
      split
      · exact run_call inner name _
      · rfl
  | openParen =>
      refine run_bind run_advance fun _ => run_bind (run_nested _) fun tree => ?_
      exact run_bind (run_expect _ _) fun _ => run_node _
  | _ => rfl

theorem run_unary : (unary inner).run = Parser.unary inner.run := by
  refine run_bind run_peek fun token => ?_
  split
  · refine run_bind run_advance fun sign => ?_
    exact run_bind (run_nested _) fun _ => run_node _
  · exact run_primary inner

theorem run_product : (product inner).run = Parser.product inner.run := by
  rw [product, run_chain, run_unary, Parser.product]

theorem run_sum : (sum inner).run = Parser.sum inner.run := by
  rw [sum, run_chain, run_product, Parser.sum]

theorem run_comparison : (comparison inner).run = Parser.comparison inner.run := by
  refine run_bind (run_sum inner) fun left => run_bind (run_operator? _) fun found => ?_
  cases found with
  | none => rfl
  | some operator => exact run_bind (run_sum inner) fun _ => run_node _

theorem run_negation : (negation inner).run = Parser.negation inner.run := by
  refine run_bind run_peek fun token => ?_
  split
  · refine run_bind run_advance fun sign => ?_
    exact run_bind (run_nested _) fun _ => run_node _
  · exact run_comparison inner

theorem run_conjunction : (conjunction inner).run = Parser.conjunction inner.run := by
  rw [conjunction, run_chain, run_negation, Parser.conjunction]

theorem run_disjunction : (disjunction inner).run = Parser.disjunction inner.run := by
  rw [disjunction, run_chain, run_conjunction, Parser.disjunction]

theorem run_ofLayer (layer : Layer) : (ofLayer layer inner).run = action layer inner.run := by
  cases layer with
  | disjunction => exact run_disjunction inner
  | conjunction => exact run_conjunction inner
  | negation => exact run_negation inner
  | comparison => exact run_comparison inner
  | sum => exact run_sum inner
  | product => exact run_product inner
  | unary => exact run_unary inner
  | primary => exact run_primary inner

theorem run_inner (prepared : Nat) : (Script.inner prepared).run = Parser.inner prepared := by
  induction prepared with
  | zero => rfl
  | succ prepared ih =>
      rw [Script.inner, Inner.run, run_disjunction, run_negation, run_unary, ih, Parser.inner]

theorem run_here (script : Inner → Script Expr) (action : Parser.Inner → Action Expr)
    (runs : ∀ inner, (script inner).run = action inner.run) :
    (here script).run = fun parser => action (innerAt parser) parser := by
  funext parser
  change (script (Script.inner (maxDepth + 1 - parser.depth))).run parser = _
  rw [runs, run_inner, innerAt]

theorem run_whole : whole.run = Parser.whole := by
  refine run_bind (run_here _ _ run_disjunction) fun tree => run_bind run_peek fun token => ?_
  split <;> rfl

end Script

/-! ## The routines of the parser -/

/-- The routines that read an expression: one for each layer of the grammar, one for a call behind
its name, and one for a whole text. The loosest layer is that of `expression`. -/
inductive Routine where
  | reads (layer : Layer)
  | call (name : String) (span : Span)
  | whole

namespace Routine

/-- What a routine does, at whatever nesting the parser stands. -/
def action : Routine → Action Expr
  | .reads layer => fun parser => Parser.action layer (innerAt parser) parser
  | .call name span => fun parser => Parser.call (innerAt parser) name span parser
  | .whole => Parser.whole

/-- The steps of a routine. -/
def script : Routine → Script Expr
  | .reads layer => .here (.ofLayer layer)
  | .call name span => .here fun inner => .call inner name span
  | .whole => .whole

/-- A routine is the run of its script. -/
theorem run_script (routine : Routine) : routine.script.run = routine.action := by
  cases routine with
  | reads layer => exact Script.run_here _ _ fun inner => Script.run_ofLayer inner layer
  | call name span =>
      exact Script.run_here _ (fun inner => Parser.call inner name span) fun inner =>
        Script.run_call inner name span
  | whole => exact Script.run_whole

end Routine

end QueryClause.Parser
