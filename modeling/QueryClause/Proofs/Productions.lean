import QueryClause.Proofs.Unambiguity

/-!
# The production at the root of a phrase

A derivation reaches the root of its tree through layers that add nothing. What is left
is one production: the lexemes of the root itself, and the phrases of its children
between them. Every node of a tree is derived from a part of the lexemes, and a phrase of
any layer is an expression too.
-/

namespace QueryClause.Grammar

/-- The root of a tree, with the lexemes it is made of and the phrases of its children. -/
inductive Production : List Lexeme → Expr → Prop where
  | leaf {lexeme : Lexeme} {root : Expr} (bare : root.children = [])
      (same : root.span = lexeme.span) : Production [lexeme] root
  | unary {layer : Layer} {sign : Lexeme} {lexemes : List Lexeme} {operator : UnaryOp}
      {operand : Expr} (inner : Derives layer lexemes operand) :
      Production (sign :: lexemes) (.unary operator operand (sign.span.cover operand.span))
  | binary {before after : Layer} {sign : Lexeme} {first second : List Lexeme}
      {operator : BinaryOp} {left right : Expr} (derivedLeft : Derives before first left)
      (derivedRight : Derives after second right) :
      Production (first ++ sign :: second)
        (.binary operator left right (left.span.cover right.span))
  | callEmpty {lexeme opening closing : Lexeme} {name : String} :
      Production [lexeme, opening, closing] (.call name [] (lexeme.span.cover closing.span))
  | call {lexeme opening closing : Lexeme} {name : String} {lexemes : List Lexeme}
      {arguments : List Expr} (inner : Arguments lexemes arguments) :
      Production (lexeme :: opening :: (lexemes ++ [closing]))
        (.call name arguments (lexeme.span.cover closing.span))
  | paren {opening closing : Lexeme} {lexemes : List Lexeme} {inside : Expr}
      (inner : Derives .disjunction lexemes inside) :
      Production (opening :: (lexemes ++ [closing]))
        (.paren inside (opening.span.cover closing.span))

/-- One operand alone is a chain. -/
theorem Derives.alone {layer below : Layer} {tier : Tier} {lexemes : List Lexeme} {whole : Expr}
    (joins : Joins layer tier below) (derived : Derives below lexemes whole) :
    Derives layer lexemes whole := by
  have chained := Derives.chain joins derived .done
  rwa [List.append_nil] at chained

/-- A chain with one more operand is a chain. -/
theorem Derives.join {layer below : Layer} {tier : Tier} {first second : List Lexeme}
    {sign : Lexeme} {operator : BinaryOp} {left right : Expr} (joins : Joins layer tier below)
    (derived : Derives layer first left) (isOperator : sign.token = .binary operator)
    (inTier : operator ∈ operators tier) (operand : Derives below second right) :
    Derives layer (first ++ sign :: second)
      (.binary operator left right (left.span.cover right.span)) := by
  obtain ⟨start, rest, begin, rfl, derivedBegin, tail⟩ := derived.exists_tail joins
  have longer := tail.append (.more isOperator inTier operand .done)
  rw [List.append_nil] at longer
  rw [List.append_assoc]
  exact .chain joins derivedBegin longer

mutual

/-- Every phrase comes from a production at its root. -/
theorem Derives.production {layer : Layer} {lexemes : List Lexeme} {whole : Expr} :
    Derives layer lexemes whole → Production lexemes whole
  | .chain joins operand tail =>
      tail.production joins (operand.alone joins) operand.production
  | .lift _ inner => inner.production
  | .not _ inner => .unary inner
  | .compared before _ _ after => .binary before after
  | .minus _ inner => .unary inner
  | .literal _ => .leaf rfl rfl
  | .member _ => .leaf rfl rfl
  | .callEmpty _ _ _ => .callEmpty
  | .call _ _ inner _ => .call inner
  | .paren _ inner _ => .paren inner

-- The tree of the operands so far is a chain of its own, and becomes the left operand of
-- the next operator.
theorem Tail.production {layer below : Layer} {tier : Tier} {left whole : Expr}
    {first lexemes : List Lexeme} : Tail tier below left lexemes whole →
      Joins layer tier below → Derives layer first left → Production first left →
        Production (first ++ lexemes) whole
  | .done, _, _, produced => by rwa [List.append_nil]
  | .more isOperator inTier operand tail, joins, derived, _ => by
      have joined := derived.join joins isOperator inTier operand
      have whole := tail.production joins joined (.binary derived operand)
      rwa [List.append_assoc] at whole

end

/-- A chain that is a leaf has no operator. -/
theorem Tail.leaf_inv {tier : Tier} {below : Layer} {left whole : Expr} {lexemes : List Lexeme} :
    Tail tier below left lexemes whole → whole.children = [] → lexemes = [] ∧ left = whole
  | .done, _ => ⟨rfl, rfl⟩
  | .more _ _ _ tail, bare => by
      obtain ⟨rfl, rfl⟩ := tail.leaf_inv bare
      cases bare

/-- A leaf is a phrase on its own. -/
theorem Derives.leaf_inv {layer : Layer} {lexemes : List Lexeme} {whole : Expr} :
    Derives layer lexemes whole → whole.children = [] → Derives .primary lexemes whole
  | .chain _ operand tail, bare => by
      obtain ⟨rfl, rfl⟩ := tail.leaf_inv bare
      rw [List.append_nil]
      exact operand.leaf_inv bare
  | .lift _ inner, bare => inner.leaf_inv bare
  | .literal isLiteral, _ => .literal isLiteral
  | .member isName, _ => .member isName
  | .callEmpty isName opens closes, _ => .callEmpty isName opens closes
  | .call isName opens inner closes, _ => .call isName opens inner closes
  | .not .., bare | .compared .., bare | .minus .., bare | .paren .., bare => by cases bare

/-- A literal is derived from a lexeme of its own. -/
theorem Derives.literal_inv {layer : Layer} {lexemes : List Lexeme} {written : String}
    {value : Value} {place : Span} (derived : Derives layer lexemes (.literal written value place)) :
    ∃ lexeme, lexemes = [lexeme] ∧ lexeme.token = .literal value ∧ lexeme.source = written ∧
      lexeme.span = place := by
  cases derived.leaf_inv rfl with
  | chain joins => cases joins
  | lift lifts => cases lifts
  | literal isLiteral => exact ⟨_, rfl, isLiteral, rfl, rfl⟩

/-- A field is derived from a lexeme of its own. -/
theorem Derives.member_inv {layer : Layer} {lexemes : List Lexeme} {path : String} {place : Span}
    (derived : Derives layer lexemes (.member path place)) :
    ∃ lexeme, lexemes = [lexeme] ∧ lexeme.token = .identifier path ∧ lexeme.span = place := by
  cases derived.leaf_inv rfl with
  | chain joins => cases joins
  | lift lifts => cases lifts
  | member isName => exact ⟨_, rfl, isName, rfl⟩

/-- A phrase of any layer is an expression. -/
theorem Derives.loosen {layer : Layer} {lexemes : List Lexeme} {whole : Expr}
    (derived : Derives layer lexemes whole) : Derives .disjunction lexemes whole := by
  have ofNegation (inner : Derives .negation lexemes whole) :
      Derives .disjunction lexemes whole :=
    (inner.alone .conjunction).alone .disjunction
  have ofSum (inner : Derives .sum lexemes whole) : Derives .disjunction lexemes whole :=
    ofNegation (.lift .negation (.lift .comparison inner))
  have ofUnary (inner : Derives .unary lexemes whole) : Derives .disjunction lexemes whole :=
    ofSum ((inner.alone .product).alone .sum)
  cases layer with
  | disjunction => exact derived
  | conjunction => exact derived.alone .disjunction
  | negation => exact ofNegation derived
  | comparison => exact ofNegation (.lift .negation derived)
  | sum => exact ofSum derived
  | product => exact ofSum (derived.alone .sum)
  | unary => exact ofUnary derived
  | primary => exact ofUnary (.lift .unary derived)

/-! ## The phrases of nodes -/

/-- A tree is derived from a part of the lexemes. -/
def Holds (lexemes : List Lexeme) (node : Expr) : Prop :=
  ∃ before part after layer, lexemes = before ++ (part ++ after) ∧ Derives layer part node

namespace Holds

theorem self {layer : Layer} {lexemes : List Lexeme} {whole : Expr}
    (derived : Derives layer lexemes whole) : Holds lexemes whole :=
  ⟨[], lexemes, [], layer, by rw [List.append_nil, List.nil_append], derived⟩

theorem behind {lexemes : List Lexeme} {node : Expr} (holds : Holds lexemes node)
    (more : List Lexeme) : Holds (more ++ lexemes) node := by
  obtain ⟨before, part, after, layer, rfl, derived⟩ := holds
  exact ⟨more ++ before, part, after, layer, by rw [List.append_assoc], derived⟩

theorem ahead {lexemes : List Lexeme} {node : Expr} (holds : Holds lexemes node)
    (more : List Lexeme) : Holds (lexemes ++ more) node := by
  obtain ⟨before, part, after, layer, rfl, derived⟩ := holds
  exact ⟨before, part, after ++ more, layer, by simp only [List.append_assoc], derived⟩

end Holds

mutual

/-- Every node of a derived tree is derived from a part of the lexemes. -/
theorem holds_of_mem_preorder : (whole : Expr) → ∀ {layer : Layer} {lexemes : List Lexeme},
    Derives layer lexemes whole → ∀ node ∈ whole.preorder, Holds lexemes node
  | .member .., _, _, derived => by
      intro node mem
      obtain rfl := List.mem_singleton.mp mem
      exact .self derived
  | .literal .., _, _, derived => by
      intro node mem
      obtain rfl := List.mem_singleton.mp mem
      exact .self derived
  | .unary _ operand _, _, _, derived => by
      intro node mem
      rcases List.mem_cons.mp mem with rfl | below
      · exact .self derived
      · cases derived.production with
        | leaf bare => cases bare
        | unary inner => exact (holds_of_mem_preorder operand inner node below).behind [_]
  | .binary _ left right _, _, _, derived => by
      intro node mem
      rw [Expr.preorder, List.cons_append, List.mem_cons, List.mem_append] at mem
      rcases mem with rfl | inLeft | inRight
      · exact .self derived
      · cases derived.production with
        | leaf bare => cases bare
        | binary derivedLeft _ => exact (holds_of_mem_preorder left derivedLeft node inLeft).ahead _
      · cases derived.production with
        | leaf bare => cases bare
        | binary _ derivedRight =>
            exact ((holds_of_mem_preorder right derivedRight node inRight).behind [_]).behind _
  | .call _ arguments _, _, _, derived => by
      intro node mem
      rcases List.mem_cons.mp mem with rfl | below
      · exact .self derived
      · cases derived.production with
        | leaf bare =>
            obtain rfl : arguments = [] := bare
            cases below
        | callEmpty => cases below
        | call inner =>
            exact ((holds_of_mem_preorderAll arguments inner node below).ahead [_]).behind [_, _]
  | .paren inside _, _, _, derived => by
      intro node mem
      rcases List.mem_cons.mp mem with rfl | below
      · exact .self derived
      · cases derived.production with
        | leaf bare => cases bare
        | paren inner =>
            exact ((holds_of_mem_preorder inside inner node below).ahead [_]).behind [_]

theorem holds_of_mem_preorderAll : (arguments : List Expr) → ∀ {lexemes : List Lexeme},
    Arguments lexemes arguments → ∀ node ∈ Expr.preorderAll arguments, Holds lexemes node
  | [], _, derived => by cases derived
  | first :: rest, _, derived => by
      intro node mem
      rw [Expr.preorderAll, List.mem_append] at mem
      cases derived with
      | last inner =>
          rcases mem with inFirst | inRest
          · exact holds_of_mem_preorder first inner node inFirst
          · cases inRest
      | more inner _ tail =>
          rcases mem with inFirst | inRest
          · exact (holds_of_mem_preorder first inner node inFirst).ahead _
          · exact ((holds_of_mem_preorderAll rest tail node inRest).behind [_]).behind _

end

end QueryClause.Grammar
