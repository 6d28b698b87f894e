import QueryClause.Proofs.ParserSoundness
import QueryClause.Proofs.Relabel
import QueryClause.Proofs.Unambiguity

/-!
# What the parser cannot miss

Every tree that the grammar derives is returned by the parser, unless the tree is so
tall that the parser refuses it as too deep. A layer is left where the token ahead
cannot go on with it.
-/

namespace QueryClause

open QueryClause.Grammar

theorem Expr.height_pos (expression : Expr) : 0 < expression.height := by
  cases expression <;> simp [Expr.height]

namespace Parser

/-! ## Lexemes that are about to be taken -/

namespace Takes

theorem split {parser last : Parser} {first second : List Lexeme}
    (takes : Takes parser (first ++ second) last) :
    ∃ middle, Takes parser first middle ∧ Takes middle second last := by
  induction first generalizing parser with
  | nil => exact ⟨parser, .done, takes⟩
  | cons lexeme others ih =>
      cases takes with
      | step found inside takes =>
          obtain ⟨middle, before, behind⟩ := ih takes
          exact ⟨middle, .step found inside before, behind⟩

/-- The first of the lexemes is ahead, and advancing takes it. -/
theorem uncons {parser last : Parser} {lexeme : Lexeme} {lexemes : List Lexeme}
    (takes : Takes parser (lexeme :: lexemes) last) :
    parser.current = lexeme ∧
      ∃ next, advance parser = .ok lexeme next ∧ next.depth = parser.depth ∧
        Takes next lexemes last := by
  cases takes with
  | @step _ _ cursor next _ found _ takes =>
      exact ⟨rfl, { parser with cursor := cursor, current := next }, by simp [advance, found],
        rfl, takes⟩

/-- The lexeme ahead is the first to be taken, or the one ahead afterwards. -/
theorem head?_append {parser last : Parser} {lexemes : List Lexeme}
    (takes : Takes parser lexemes last) :
    (lexemes ++ [last.current]).head? = some parser.current := by
  cases takes <;> rfl

theorem ends_current {parser last : Parser} {lexemes : List Lexeme} {layer : Layer}
    (takes : Takes parser lexemes last) (ended : EndsBefore layer (lexemes ++ [last.current])) :
    ends layer parser.current.token = true :=
  ended _ takes.head?_append

/-- Every lexeme after the one ahead takes at least one character. -/
theorem length_le {parser last : Parser} {lexemes : List Lexeme}
    (takes : Takes parser lexemes last) : lexemes.length ≤ parser.cursor.rest.length + 1 := by
  induction takes with
  | done => exact Nat.zero_le _
  | @step parser last cursor lexeme lexemes found inside takes ih =>
      by_cases ends : lexeme.token = .endOfInput
      · cases takes with
        | done => simp
        | step _ between _ => exact absurd ends between
      · have shorter := Cursor.length_rest_lt found ends
        simp only [List.length_cons] at ih ⊢
        omega

end Takes

/-! ## Success or a refusal of the height -/

/-- An action returns a value, or refuses as too deep what is too tall for the nesting
it stands in. -/
def Reaches {α : Type} (action : Action α) (parser : Parser) (value : α) (last : Parser)
    (height : Nat) : Prop :=
  action parser = .ok value last ∨
    ((∃ span stopped, action parser = .error (.tooDeep span) stopped) ∧
      maxDepth < parser.depth + height)

namespace Reaches

variable {α β : Type} {parser middle last : Parser} {value : α} {height : Nat}

theorem mono {action : Action α} {tall : Nat} (reaches : Reaches action parser value last height)
    (le : height ≤ tall) : Reaches action parser value last tall := by
  rcases reaches with returns | ⟨refuses, tooTall⟩
  · exact Or.inl returns
  · exact Or.inr ⟨refuses, by omega⟩

theorem bind {action : Action α} {rest : α → Action β} {result : β}
    (reaches : Reaches action parser value middle height) (same : middle.depth = parser.depth)
    (goesOn : action parser = .ok value middle → Reaches (rest value) middle result last height) :
    Reaches (action >>= rest) parser result last height := by
  rcases reaches with returns | ⟨⟨span, stopped, refuses⟩, tooTall⟩
  · rcases goesOn returns with ran | ⟨⟨span, stopped, refuses⟩, tooTall⟩
    · exact Or.inl (bind_eq_ok.mpr ⟨value, middle, returns, ran⟩)
    · refine Or.inr ⟨⟨span, stopped, ?_⟩, same ▸ tooTall⟩
      rw [bind_of_ok returns, refuses]
  · exact Or.inr ⟨⟨span, stopped, bind_of_error refuses⟩, tooTall⟩

/-- An action that returns goes on to what follows it. -/
theorem bind_ok {action : Action α} {rest : α → Action β} {result : β}
    (returns : action parser = .ok value middle) (same : middle.depth = parser.depth)
    (goesOn : Reaches (rest value) middle result last height) :
    Reaches (action >>= rest) parser result last height :=
  bind (Or.inl returns) same fun _ => goesOn

theorem node {expression : Expr} :
    Reaches (node expression) parser expression parser expression.height := by
  unfold Parser.node
  split
  · exact Or.inl rfl
  · rename_i tall
    exact Or.inr ⟨⟨_, _, rfl⟩, by omega⟩

end Reaches

/-! ## Layers -/

/-- The action of a layer. -/
def action : Layer → Inner → Action Expr
  | .disjunction => disjunction
  | .conjunction => conjunction
  | .negation => negation
  | .comparison => comparison
  | .sum => sum
  | .product => product
  | .unary => unary
  | .primary => primary

theorem innerAt_eq {parser other : Parser} (same : other.depth = parser.depth) :
    innerAt other = innerAt parser := by
  rw [innerAt, innerAt, same]

theorem action_sound (layer : Layer) (parser : Parser) :
    Sound layer (action layer (innerAt parser)) := by
  have sound : (innerAt parser).Sound := inner_sound _
  cases layer with
  | disjunction => exact disjunction_sound sound
  | conjunction => exact (negation_sound sound).chain .conjunction
  | negation => exact negation_sound sound
  | comparison => exact comparison_sound sound
  | sum => exact sum_sound sound
  | product => exact (unary_sound sound).chain .product
  | unary => exact unary_sound sound
  | primary => exact primary_sound sound

theorem action_eq_chain {layer below : Layer} {tier : Tier} (joins : Joins layer tier below)
    (inner : Inner) : action layer inner = chain tier (action below inner) := by
  cases joins <;> rfl

/-- A token that ends a chain is no operator of its tier. -/
theorem operator?_of_ends {layer : Layer} {tier : Tier} {parser : Parser}
    (rank : layerRank layer ≤ tierRank tier) (ended : ends layer parser.current.token = true) :
    operator? tier parser = .ok none parser := by
  refine operator?_of_absent fun operator ahead inTier => ?_
  rw [ahead, ends, decide_eq_true_iff, mem_operators.mp inTier] at ended
  omega

/-- The action of a layer reaches a tree after the lexemes, wherever they are ahead and
the layer ends behind them. -/
def Parses (layer : Layer) (lexemes : List Lexeme) (whole : Expr) : Prop :=
  ∀ ⦃parser last : Parser⦄, Takes parser lexemes last →
    ends layer last.current.token = true →
      Reaches (action layer (innerAt parser)) parser whole last whole.height

/-- One nesting further in, an inner action is that of its layer. -/
theorem Parses.nested {layer : Layer} {lexemes : List Lexeme} {whole : Expr}
    (parses : Parses layer lexemes whole) (back : Inner → Action Expr)
    (backs : ∀ prepared, back (inner (prepared + 1)) = action layer (inner prepared))
    {parser last : Parser} (takes : Takes parser lexemes last)
    (ended : ends layer last.current.token = true) :
    Reaches (nested (back (innerAt parser))) parser whole last (whole.height + 1) := by
  have positive := whole.height_pos
  cases enters : enter parser with
  | error error refused =>
      -- The nesting itself is refused, and what is nested has at least one node.
      obtain ⟨deep, rfl, rfl⟩ := enter_eq_error_iff.mp enters
      exact Or.inr ⟨⟨_, _, nested_of_refused enters⟩, by omega⟩
  | ok _ entered =>
      obtain ⟨shallow, rfl⟩ := enter_eq_ok_iff.mp enters
      have prepared : maxDepth + 1 - parser.depth = maxDepth + 1 - (parser.depth + 1) + 1 := by
        omega
      rw [innerAt, prepared, backs]
      have deeper := takes.setDepth (parser.depth + 1)
      rcases parses deeper ended with returns | ⟨⟨span, stopped, refuses⟩, tooTall⟩
      · have back := nested_of_ok enters returns
        rw [leave_raised takes.depth_eq] at back
        exact Or.inl back
      · exact Or.inr ⟨⟨_, _, nested_of_error enters refuses⟩, by simp only at tooTall; omega⟩

/-- A chain after the operand `left` reaches a tree, wherever enough steps are left. -/
def ParsesTail (tier : Tier) (below : Layer) (left : Expr) (lexemes : List Lexeme)
    (whole : Expr) : Prop :=
  ∀ ⦃layer : Layer⦄ ⦃parser last : Parser⦄ (steps : Nat), Joins layer tier below →
    Takes parser lexemes last → ends layer last.current.token = true →
      left.height ≤ maxDepth → maxDepth < steps + left.height →
        Reaches (chainFrom tier (action below (innerAt parser)) steps left) parser whole last
          whole.height

theorem ParsesTail.done {tier : Tier} {below : Layer} {left : Expr} :
    ParsesTail tier below left [] left := by
  intro layer parser last steps joins takes ended _ _
  cases takes
  cases steps with
  | zero => exact Or.inl rfl
  | succ steps =>
      have absent := operator?_of_ends (Nat.le_of_eq joins.layerRank_eq) ended
      exact .bind_ok absent rfl (Or.inl rfl)

theorem ParsesTail.more {tier : Tier} {below : Layer} {left right whole : Expr} {sign : Lexeme}
    {operator : BinaryOp} {lexemes rest : List Lexeme}
    (isOperator : sign.token = .binary operator) (inTier : operator ∈ operators tier)
    (operand : Parses below lexemes right)
    (tail : Tail tier below (.binary operator left right (left.span.cover right.span)) rest whole)
    (parsesTail : ParsesTail tier below
      (.binary operator left right (left.span.cover right.span)) rest whole) :
    ParsesTail tier below left (sign :: (lexemes ++ rest)) whole := by
  intro layer parser last steps joins takes ended low enough
  obtain ⟨rfl, next, advanced, same, takesNext⟩ := takes.uncons
  obtain ⟨middle, takesOperand, takesRest⟩ := takesNext.split
  have joinedLe := tail.height_le
  simp only [Expr.height] at joinedLe
  cases steps with
  | zero =>
      -- Without a step left, `left` would be too tall already.
      omega
  | succ steps =>
      have present : operator? tier parser = .ok (some operator) next := by
        rw [operator?_of_present isOperator inTier, bind_of_ok advanced]
        rfl
      have operandEnds : ends below middle.current.token = true :=
        takesRest.ends_current (tail.endsBefore joins (endsBefore_cons.mpr ended))
      have reachesRight := operand takesOperand operandEnds
      rw [innerAt_eq same] at reachesRight
      refine .bind_ok present same ?_
      refine .bind (reachesRight.mono (by omega)) takesOperand.depth_eq fun _ => ?_
      refine .bind (Reaches.node.mono tail.height_le) rfl fun built => ?_
      have reachesWhole := parsesTail steps joins takesRest ended (node_eq_ok built).2.2
        (by simp only [Expr.height]; omega)
      rwa [innerAt_eq (takesOperand.depth_eq.trans same)] at reachesWhole

theorem Parses.chain {layer below : Layer} {tier : Tier} {first rest : List Lexeme}
    {left whole : Expr} (joins : Joins layer tier below) (operand : Parses below first left)
    (tail : Tail tier below left rest whole) (parsesTail : ParsesTail tier below left rest whole) :
    Parses layer (first ++ rest) whole := by
  intro parser last takes ended
  obtain ⟨middle, takesOperand, takesRest⟩ := takes.split
  have operandEnds : ends below middle.current.token = true :=
    takesRest.ends_current (tail.endsBefore joins (endsBefore_cons.mpr ended))
  have positive := left.height_pos
  rw [action_eq_chain joins]
  refine .bind ((operand takesOperand operandEnds).mono tail.height_le) takesOperand.depth_eq
    fun returns => ?_
  obtain ⟨_, _, _, low⟩ := action_sound below parser returns
  have reachesWhole := parsesTail maxDepth joins takesRest ended low (by omega)
  rwa [innerAt_eq takesOperand.depth_eq] at reachesWhole

theorem Parses.lift {layer below : Layer} {lexemes : List Lexeme} {whole : Expr}
    (lifts : Lifts layer below) (derived : Derives below lexemes whole)
    (inner : Parses below lexemes whole) : Parses layer lexemes whole := by
  intro parser last takes ended
  obtain ⟨first, rest, rfl, starts⟩ := derived.head
  obtain ⟨rfl, _⟩ := takes.uncons
  have reaches := inner takes (ends_of_le lifts.layerRank_le ended)
  cases lifts with
  | negation =>
      have notNot : parser.current.token ≠ .not := by
        intro isNot
        simp [begins, isNot] at starts
      exact .bind_ok rfl rfl (by rwa [if_neg notNot])
  | comparison =>
      refine .bind reaches takes.depth_eq fun _ => ?_
      exact .bind_ok (operator?_of_ends (Nat.le_refl _) ended) rfl (Or.inl rfl)
  | unary =>
      have notMinus : parser.current.token ≠ .minus := by
        intro isMinus
        simp [begins, isMinus] at starts
      exact .bind_ok rfl rfl (by rwa [if_neg notMinus])

theorem Parses.compared {first second : List Lexeme} {sign : Lexeme} {operator : BinaryOp}
    {left right : Expr} (before : Parses .sum first left)
    (isOperator : sign.token = .binary operator) (compares : operator ∈ operators .comparison)
    (after : Parses .sum second right) :
    Parses .comparison (first ++ sign :: second)
      (.binary operator left right (left.span.cover right.span)) := by
  intro parser last takes ended
  obtain ⟨middle, takesFirst, takesRest⟩ := takes.split
  obtain ⟨rfl, next, advanced, same, takesSecond⟩ := takesRest.uncons
  have leftEnds : ends .sum middle.current.token = true := by
    simp [ends, isOperator, mem_operators.mp compares, tierRank, layerRank]
  have present : operator? .comparison middle = .ok (some operator) next := by
    rw [operator?_of_present isOperator compares, bind_of_ok advanced]
    rfl
  have reachesLeft := before takesFirst leftEnds
  have reachesRight := after takesSecond (ends_of_le (by decide) ended)
  rw [innerAt_eq (same.trans takesFirst.depth_eq)] at reachesRight
  refine .bind (reachesLeft.mono (by simp only [Expr.height]; omega)) takesFirst.depth_eq
    fun _ => ?_
  refine .bind_ok present same ?_
  refine .bind (reachesRight.mono (by simp only [Expr.height]; omega)) takesSecond.depth_eq
    fun _ => ?_
  exact .node

theorem Parses.not {sign : Lexeme} {lexemes : List Lexeme} {operand : Expr}
    (isNot : sign.token = .not) (inner : Parses .negation lexemes operand) :
    Parses .negation (sign :: lexemes)
      (.unary .not operand (sign.span.cover operand.span)) := by
  intro parser last takes ended
  obtain ⟨rfl, next, advanced, same, takesOperand⟩ := takes.uncons
  have reaches := inner.nested Inner.negation (fun _ => rfl) takesOperand ended
  rw [innerAt_eq same] at reaches
  refine .bind_ok rfl rfl ?_
  rw [if_pos isNot]
  refine .bind_ok advanced same ?_
  exact .bind reaches takesOperand.depth_eq fun _ => .node

theorem Parses.minus {sign : Lexeme} {lexemes : List Lexeme} {operand : Expr}
    (isMinus : sign.token = .minus) (inner : Parses .unary lexemes operand) :
    Parses .unary (sign :: lexemes)
      (.unary .negate operand (sign.span.cover operand.span)) := by
  intro parser last takes ended
  obtain ⟨rfl, next, advanced, same, takesOperand⟩ := takes.uncons
  have reaches := inner.nested Inner.unary (fun _ => rfl) takesOperand ended
  rw [innerAt_eq same] at reaches
  refine .bind_ok rfl rfl ?_
  rw [if_pos isMinus]
  refine .bind_ok advanced same ?_
  exact .bind reaches takesOperand.depth_eq fun _ => .node

/-! ## Primary expressions -/

theorem expect_of_advance {parser next : Parser} {lexeme : Lexeme} {token : Token}
    {expected : Expectation} (ahead : parser.current.token = token)
    (advanced : advance parser = .ok lexeme next) :
    expect token expected parser = .ok lexeme.span next := by
  rw [expect_of_ahead ahead, bind_of_ok advanced]
  rfl

theorem Takes.closeParen_eq {parser last : Parser} {closing : Lexeme}
    (takes : Takes parser [closing] last) (closes : closing.token = .closeParen) :
    closeParen parser = .ok closing.span last := by
  obtain ⟨rfl, next, advanced, _, rest⟩ := takes.uncons
  cases rest
  exact expect_of_advance closes advanced

theorem Parses.literal {lexeme : Lexeme} {value : Value}
    (isLiteral : lexeme.token = .literal value) :
    Parses .primary [lexeme] (.literal lexeme.source value lexeme.span) := by
  intro parser last takes _
  obtain ⟨rfl, next, advanced, _, rest⟩ := takes.uncons
  cases rest
  left
  rw [action, primary_of_literal isLiteral, bind_of_ok advanced]
  rfl

theorem Parses.member {lexeme : Lexeme} {path : String}
    (isName : lexeme.token = .identifier path) :
    Parses .primary [lexeme] (.member path lexeme.span) := by
  intro parser last takes ended
  obtain ⟨rfl, next, advanced, _, rest⟩ := takes.uncons
  cases rest
  have noCall : last.current.token ≠ .openParen := by
    intro opens
    simp [ends, opens] at ended
  left
  rw [action, primary_of_name isName, bind_of_ok advanced, peek_bind, if_neg noCall]
  rfl

/-- The arguments of a call are reached before their closing parenthesis. -/
def ParsesArguments (lexemes : List Lexeme) (found : List Expr) : Prop :=
  ∀ ⦃parser last : Parser⦄ (count : Nat), Takes parser lexemes last →
    last.current.token = .closeParen → found.length ≤ count →
      Reaches (argumentsFrom (nested (innerAt parser).expression) count) parser found last
        (Expr.greatestHeight found + 1)

theorem ParsesArguments.last {lexemes : List Lexeme} {argument : Expr}
    (inner : Parses .disjunction lexemes argument) : ParsesArguments lexemes [argument] := by
  intro parser last count takes closes enough
  cases count with
  | zero => simp at enough
  | succ count =>
      have ended : ends .disjunction last.current.token = true := by simp [ends, closes]
      have reaches := inner.nested Inner.expression (fun _ => rfl) takes ended
      have tall : argument.height + 1 ≤ Expr.greatestHeight [argument] + 1 := by
        simp [Expr.greatestHeight]
      refine .bind (reaches.mono tall) takes.depth_eq fun _ => ?_
      refine .bind_ok rfl rfl ?_
      rw [if_neg (by simp [closes])]
      exact Or.inl rfl

theorem ParsesArguments.more {lexemes rest : List Lexeme} {comma : Lexeme} {argument : Expr}
    {others : List Expr} (inner : Parses .disjunction lexemes argument)
    (divides : comma.token = .comma) (tail : ParsesArguments rest others) :
    ParsesArguments (lexemes ++ comma :: rest) (argument :: others) := by
  intro parser last count takes closes enough
  obtain ⟨middle, takesFirst, takesRest⟩ := takes.split
  obtain ⟨rfl, next, advanced, same, takesOthers⟩ := takesRest.uncons
  cases count with
  | zero => simp at enough
  | succ count =>
      have ended : ends .disjunction middle.current.token = true := by simp [ends, divides]
      have reachesFirst := inner.nested Inner.expression (fun _ => rfl) takesFirst ended
      have reachesOthers := tail count takesOthers closes (by simpa using enough)
      rw [innerAt_eq (same.trans takesFirst.depth_eq)] at reachesOthers
      refine .bind (reachesFirst.mono (by simp only [Expr.greatestHeight]; omega))
        takesFirst.depth_eq fun _ => ?_
      refine .bind_ok rfl rfl ?_
      rw [if_pos divides]
      refine .bind_ok advanced same ?_
      refine .bind (reachesOthers.mono (by simp only [Expr.greatestHeight]; omega))
        takesOthers.depth_eq fun _ => ?_
      exact Or.inl rfl

theorem Parses.callEmpty {lexeme opening closing : Lexeme} {name : String}
    (isName : lexeme.token = .identifier name) (opens : opening.token = .openParen)
    (closes : closing.token = .closeParen) :
    Parses .primary [lexeme, opening, closing]
      (.call name [] (lexeme.span.cover closing.span)) := by
  intro parser last takes _
  obtain ⟨rfl, next, advanced, same, takesRest⟩ := takes.uncons
  obtain ⟨rfl, inside, advancedOpen, sameOpen, takesClose⟩ := takesRest.uncons
  obtain ⟨ahead, _⟩ := takesClose.uncons
  have empty (argument : Action Expr) : arguments argument inside = .ok [] inside := by
    unfold arguments
    rw [peek_bind, ahead, if_pos closes]
    rfl
  left
  rw [action, primary_of_name isName, bind_of_ok advanced, peek_bind, if_pos opens, Parser.call,
    openParen, bind_of_ok (expect_of_advance opens advancedOpen), bind_of_ok (empty _),
    bind_of_ok (takesClose.closeParen_eq closes)]
  rfl

theorem Parses.call {lexeme opening closing : Lexeme} {name : String} {lexemes : List Lexeme}
    {found : List Expr} (isName : lexeme.token = .identifier name)
    (opens : opening.token = .openParen) (derived : Arguments lexemes found)
    (inner : ParsesArguments lexemes found) (closes : closing.token = .closeParen) :
    Parses .primary (lexeme :: opening :: (lexemes ++ [closing]))
      (.call name found (lexeme.span.cover closing.span)) := by
  intro parser last takes _
  obtain ⟨rfl, next, advanced, same, takesRest⟩ := takes.uncons
  obtain ⟨rfl, inside, advancedOpen, sameOpen, takesInside⟩ := takesRest.uncons
  obtain ⟨before, takesArguments, takesClose⟩ := takesInside.split
  obtain ⟨rfl, _⟩ := takesClose.uncons
  have some : inside.current.token ≠ .closeParen := by
    obtain ⟨first, rest, rfl, starts⟩ := derived.head
    obtain ⟨rfl, _⟩ := takesArguments.uncons
    intro isClose
    simp [begins, isClose] at starts
  have enough : found.length ≤ inside.cursor.rest.length + 1 :=
    Nat.le_trans derived.length_le takesArguments.length_le
  have reaches := inner _ takesArguments closes enough
  rw [innerAt_eq (sameOpen.trans same)] at reaches
  have reachesAll : Reaches (arguments (Parser.nested (innerAt parser).expression)) inside found
      before (Expr.greatestHeight found + 1) := by
    refine .bind_ok rfl rfl ?_
    rw [if_neg some]
    exact .bind_ok rfl rfl reaches
  unfold Reaches
  rw [action, primary_of_name isName]
  refine Reaches.bind_ok advanced same ?_
  refine .bind_ok rfl rfl ?_
  rw [if_pos opens]
  refine .bind_ok (expect_of_advance opens advancedOpen) sameOpen ?_
  refine .bind reachesAll takesArguments.depth_eq fun _ => ?_
  exact .bind_ok (takesClose.closeParen_eq closes) takesClose.depth_eq .node

theorem Parses.paren {opening closing : Lexeme} {lexemes : List Lexeme} {whole : Expr}
    (opens : opening.token = .openParen) (inner : Parses .disjunction lexemes whole)
    (closes : closing.token = .closeParen) :
    Parses .primary (opening :: (lexemes ++ [closing]))
      (.paren whole (opening.span.cover closing.span)) := by
  intro parser last takes _
  obtain ⟨rfl, inside, advanced, same, takesInside⟩ := takes.uncons
  obtain ⟨before, takesWhole, takesClose⟩ := takesInside.split
  obtain ⟨rfl, _⟩ := takesClose.uncons
  have ended : ends .disjunction before.current.token = true := by simp [ends, closes]
  have reaches := inner.nested Inner.expression (fun _ => rfl) takesWhole ended
  rw [innerAt_eq same] at reaches
  unfold Reaches
  rw [action, primary_of_open opens]
  refine Reaches.bind_ok advanced same ?_
  refine .bind reaches takesWhole.depth_eq fun _ => ?_
  exact .bind_ok (takesClose.closeParen_eq closes) takesClose.depth_eq .node

/-! ## Derivations -/

mutual

/-- Every derived tree is reached by the action of its layer. -/
theorem parses_of_derives {layer : Layer} {lexemes : List Lexeme} {whole : Expr} :
    Derives layer lexemes whole → Parses layer lexemes whole
  | .chain joins operand tail =>
      .chain joins (parses_of_derives operand) tail (parsesTail_of_tail tail)
  | .lift lifts inner => .lift lifts inner (parses_of_derives inner)
  | .not isNot inner => .not isNot (parses_of_derives inner)
  | .compared before isOperator compares after =>
      .compared (parses_of_derives before) isOperator compares (parses_of_derives after)
  | .minus isMinus inner => .minus isMinus (parses_of_derives inner)
  | .literal isLiteral => .literal isLiteral
  | .member isName => .member isName
  | .callEmpty isName opens closes => .callEmpty isName opens closes
  | .call isName opens inner closes =>
      .call isName opens inner (parsesArguments_of_arguments inner) closes
  | .paren opens inner closes => .paren opens (parses_of_derives inner) closes

theorem parsesTail_of_tail {tier : Tier} {below : Layer} {left whole : Expr}
    {lexemes : List Lexeme} :
    Tail tier below left lexemes whole → ParsesTail tier below left lexemes whole
  | .done => .done
  | .more isOperator inTier operand tail =>
      .more isOperator inTier (parses_of_derives operand) tail (parsesTail_of_tail tail)

theorem parsesArguments_of_arguments {lexemes : List Lexeme} {found : List Expr} :
    Arguments lexemes found → ParsesArguments lexemes found
  | .last inner => .last (parses_of_derives inner)
  | .more inner divides tail =>
      .more (parses_of_derives inner) divides (parsesArguments_of_arguments tail)

end

/-! ## Whole texts -/

/-- The lexemes that a parser takes are those of a walk. -/
theorem Takes.exists_walk {cursor : Cursor} {parser last : Parser} {lexemes : List Lexeme}
    (takes : Takes parser lexemes last)
    (stands : cursor.next = (.ok parser.current, parser.cursor)) :
    ∃ final, Cursor.Walk cursor lexemes final ∧ final.next = (.ok last.current, last.cursor) := by
  induction takes generalizing cursor with
  | done => exact ⟨cursor, .done, stands⟩
  | step found inside _ ih =>
      obtain ⟨final, walk, ahead⟩ := ih found
      exact ⟨final, .step stands inside walk, ahead⟩

/-- The lexemes of a walk can be taken by a parser. -/
theorem takes_of_walk {cursor final after : Cursor} {lexeme : Lexeme} {lexemes : List Lexeme}
    (parser : Parser) (walk : Cursor.Walk cursor lexemes final)
    (ahead : final.next = (.ok lexeme, after))
    (stands : cursor.next = (.ok parser.current, parser.cursor)) :
    Takes parser lexemes ⟨after, lexeme, parser.depth⟩ := by
  induction walk generalizing parser with
  | done =>
      rw [ahead] at stands
      cases parser
      cases stands
      exact .done
  | @step cursor next last first lexemes found inside walk ih =>
      rw [stands] at found
      cases found
      have goesOn : ∃ second behind, parser.cursor.next = (.ok second, behind) := by
        cases walk with
        | done => exact ⟨_, _, ahead⟩
        | step found _ _ => exact ⟨_, _, found⟩
      obtain ⟨second, behind, found⟩ := goesOn
      have later := ih { parser with cursor := behind, current := second } ahead found
      exact .step found inside later

theorem start_eq_ok {text : String} {parser : Parser} (started : start text = .ok parser) :
    (Cursor.start text).next = (.ok parser.current, parser.cursor) ∧ parser.depth = 0 := by
  unfold start at started
  split at started
  · rename_i next
    cases started
    exact ⟨next, rfl⟩
  · cases started

theorem start_eq_error {text : String} {error : ParseError} (started : start text = .error error) :
    ∃ fault, error = .lexical fault ∧ (Cursor.start text).next.1 = .error fault := by
  unfold start at started
  split at started
  · cases started
  · rename_i fault cursor found
    cases started
    exact ⟨fault, rfl, by rw [found]⟩

theorem whole_eq_ok {parser last : Parser} {result : Expr} (ran : whole parser = .ok result last) :
    expression parser = .ok result last ∧ last.current.token = .endOfInput := by
  unfold whole at ran
  obtain ⟨value, middle, ranExpression, goesOn⟩ := bind_eq_ok.mp ran
  rw [peek_bind] at goesOn
  split at goesOn
  · rename_i ended
    obtain ⟨rfl, rfl⟩ := pure_eq_ok.mp goesOn
    exact ⟨ranExpression, ended⟩
  · cases goesOn

/-- A tree that is derived from the lexemes up to the end is reached as a whole. -/
theorem reaches_whole {parser last : Parser} {lexemes : List Lexeme} {result : Expr}
    (derived : Derives .disjunction lexemes result) (takes : Takes parser lexemes last)
    (ended : last.current.token = .endOfInput) :
    Reaches whole parser result last result.height := by
  have reaches := parses_of_derives derived takes (by simp [ends, ended])
  have reachesFirst : Reaches expression parser result last result.height := by
    unfold Reaches expression
    exact reaches
  refine .bind reachesFirst takes.depth_eq fun _ => ?_
  refine .bind_ok rfl rfl ?_
  rw [if_pos ended]
  exact Or.inl rfl

end Parser

/-- A text is refused for a fault in its first lexeme, or by the parser that starts there. -/
theorem parse_eq_error {text : String} {error : ParseError} (failed : parse text = .error error) :
    (∃ fault, error = .lexical fault ∧ (Cursor.start text).next.1 = .error fault) ∨
      ∃ parser last, (Cursor.start text).next = (.ok parser.current, parser.cursor) ∧
        Parser.whole parser = .error error last := by
  unfold parse at failed
  cases started : Parser.start text with
  | error reason =>
      rw [started] at failed
      cases failed
      exact .inl (Parser.start_eq_error started)
  | ok parser =>
      rw [started] at failed
      change Parser.outcome (Parser.whole parser) = .error error at failed
      cases ran : Parser.whole parser with
      | ok value last =>
          rw [ran] at failed
          cases failed
      | error reason last =>
          rw [ran] at failed
          cases failed
          exact .inr ⟨parser, last, (Parser.start_eq_ok started).1, ran⟩

/-- A tree that is parsed is derived from the lexemes of the text, and is not too tall. -/
theorem exists_derives_of_parse {text : String} {result : Expr} (parsed : parse text = .ok result) :
    ∃ found, lexed text = .ok found ∧ Derives .disjunction found result ∧
      result.height ≤ maxDepth := by
  unfold parse at parsed
  cases started : Parser.start text with
  | error error =>
      rw [started] at parsed
      cases parsed
  | ok parser =>
      rw [started] at parsed
      change Parser.outcome (Parser.whole parser) = .ok result at parsed
      obtain ⟨stands, _⟩ := Parser.start_eq_ok started
      cases ran : Parser.whole parser with
      | error error last =>
          rw [ran] at parsed
          cases parsed
      | ok value last =>
          rw [ran] at parsed
          cases parsed
          obtain ⟨ranExpression, ended⟩ := Parser.whole_eq_ok ran
          obtain ⟨lexemes, takes, derived, low⟩ := Parser.expression_sound ranExpression
          obtain ⟨final, walk, ahead⟩ := takes.exists_walk stands
          exact ⟨lexemes, lexed_eq_ok_iff.mpr ⟨final, walk, Cursor.blank_of_next ahead ended⟩,
            derived, low⟩

/-- A tree that is derived from the lexemes of a text is parsed, or refused as too deep
because it is too tall. -/
theorem parse_of_derives {text : String} {found : List Lexeme} {whole : Expr}
    (lexes : lexed text = .ok found) (derived : Derives .disjunction found whole) :
    parse text = .ok whole ∨
      ((∃ span, parse text = .error (.tooDeep span)) ∧ maxDepth < whole.height) := by
  obtain ⟨final, walk, blank⟩ := lexed_eq_ok_iff.mp lexes
  obtain ⟨first, rest, rfl, _⟩ := derived.head
  cases walk with
  | @step _ after _ _ _ found inside walk =>
      have started : Parser.start text = .ok ⟨after, first, 0⟩ := by
        rw [Parser.start, found]
      have takes := Parser.takes_of_walk ⟨after, first, 0⟩
        (.step found inside walk) (Cursor.next_of_blank blank) found
      have parse_eq : parse text = Parser.outcome (Parser.whole ⟨after, first, 0⟩) := by
        rw [parse, started]
        rfl
      rw [parse_eq]
      rcases Parser.reaches_whole derived takes rfl with
        returns | ⟨⟨span, stopped, refuses⟩, tooTall⟩
      · rw [returns]
        exact Or.inl rfl
      · rw [refuses]
        exact Or.inr ⟨⟨span, rfl⟩, by simpa using tooTall⟩

theorem derives_of_parse {text : String} {found : List Lexeme} {whole : Expr}
    (lexes : lexed text = .ok found) (parsed : parse text = .ok whole) :
    Derives .disjunction found whole ∧ whole.height ≤ maxDepth := by
  obtain ⟨same, lexesSame, derived⟩ := exists_derives_of_parse parsed
  rw [lexes] at lexesSame
  cases lexesSame
  exact derived

/-- A text whose lexemes agree with those of a parsed text up to a labeling is parsed to a
tree that agrees up to the labeling. -/
theorem exists_parse_of_labeled {label : Labeling} {text other : String}
    {found others : List Lexeme} {whole : Expr} (lexes : lexed text = .ok found)
    (parsed : parse text = .ok whole) (lexesOther : lexed other = .ok others)
    (same : others.map (Lexeme.labeled label) = found.map (Lexeme.labeled label)) :
    ∃ tree, parse other = .ok tree ∧ tree.relabel label = whole.relabel label := by
  obtain ⟨derived, low⟩ := derives_of_parse lexes parsed
  obtain ⟨tree, derivedTree, alike⟩ := derived.transport same
  rcases parse_of_derives lexesOther derivedTree with parsedTree | ⟨_, tall⟩
  · exact ⟨tree, parsedTree, alike⟩
  · rw [Expr.height_eq_of_relabel alike] at tall
    exact absurd tall (Nat.not_lt.mpr low)

/-- The parser returns exactly the trees that the grammar derives from the lexemes of the
text and that are at most 128 nodes tall. A text has at most one such tree, a taller one
is refused as too deep, and a text with a lexical fault is not parsed. -/
theorem parse_exact (text : String) :
    (∀ found, lexed text = .ok found →
      (∀ whole, parse text = .ok whole ↔
        Derives .disjunction found whole ∧ whole.height ≤ 128) ∧
      (∀ whole other, Derives .disjunction found whole → Derives .disjunction found other →
        whole = other) ∧
      ∀ whole, Derives .disjunction found whole → 128 < whole.height →
        ∃ span, parse text = .error (.tooDeep span)) ∧
    ∀ fault, lexed text = .error fault → ∃ error, parse text = .error error := by
  refine ⟨fun found lexes => ⟨fun whole => ⟨?_, ?_⟩, fun whole other => Derives.unique, ?_⟩, ?_⟩
  · exact derives_of_parse lexes
  · rintro ⟨derived, low⟩
    rcases parse_of_derives lexes derived with parsed | ⟨_, tall⟩
    · exact parsed
    · exact absurd tall (Nat.not_lt.mpr low)
  · intro whole derived tall
    rcases parse_of_derives lexes derived with parsed | ⟨refused, _⟩
    · exact absurd tall (Nat.not_lt.mpr (derives_of_parse lexes parsed).2)
    · exact refused
  · intro fault faulty
    cases parsed : parse text with
    | error error => exact ⟨error, rfl⟩
    | ok whole =>
        obtain ⟨found, lexes, _⟩ := exists_derives_of_parse parsed
        rw [faulty] at lexes
        cases lexes

theorem parse_exact_not :
    lexed "not a" = .ok [⟨.not, ⟨0, 3⟩, "not"⟩, ⟨.identifier "a", ⟨4, 5⟩, "a"⟩] ∧
      parse "not a" = .ok (.unary .not (.member "a" ⟨4, 5⟩) ⟨0, 5⟩) := by
  have lexes : lexed "not a" = .ok [⟨.not, ⟨0, 3⟩, "not"⟩, ⟨.identifier "a", ⟨4, 5⟩, "a"⟩] :=
    lexed_of_toOption (by decide +kernel)
  have name : Derives .comparison [⟨.identifier "a", ⟨4, 5⟩, "a"⟩] (.member "a" ⟨4, 5⟩) :=
    .lift .comparison (.chain .sum (.chain .product (.lift .unary (.member rfl)) .done) .done)
  refine ⟨lexes, (((parse_exact "not a").1 _ lexes).1 _).mpr ⟨?_, by decide⟩⟩
  exact .chain .disjunction (.chain .conjunction (.not rfl (.lift .negation name)) .done) .done

end QueryClause
