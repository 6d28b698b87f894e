import QueryClause.Parser
import QueryClause.Proofs.Grammar
import QueryClause.Proofs.Walk

/-!
# What the parser accepts

Whatever a parsing action returns is derived from exactly the lexemes that the action
took, and it is not too tall. Each action has one lemma, from the steps over single
lexemes up to the layers of the grammar.
-/

namespace QueryClause.Parser

open QueryClause.Grammar

/-- One parser is reached from another by taking lexemes at the same nesting. -/
inductive Takes : Parser → List Lexeme → Parser → Prop where
  | done {parser : Parser} : Takes parser [] parser
  | step {parser last : Parser} {cursor : Cursor} {lexeme : Lexeme} {lexemes : List Lexeme}
      (found : parser.cursor.next = (.ok lexeme, cursor))
      (inside : parser.current.token ≠ .endOfInput)
      (takes : Takes { parser with cursor := cursor, current := lexeme } lexemes last) :
      Takes parser (parser.current :: lexemes) last

namespace Takes

theorem append {parser middle last : Parser} {first second : List Lexeme}
    (takes : Takes parser first middle) (more : Takes middle second last) :
    Takes parser (first ++ second) last := by
  induction takes with
  | done => exact more
  | step found inside _ ih => exact .step found inside (ih more)

theorem depth_eq {parser last : Parser} {lexemes : List Lexeme}
    (takes : Takes parser lexemes last) : last.depth = parser.depth := by
  induction takes with
  | done => rfl
  | step _ _ _ ih => exact ih

theorem setDepth {parser last : Parser} {lexemes : List Lexeme} (depth : Nat)
    (takes : Takes parser lexemes last) :
    Takes { parser with depth := depth } lexemes { last with depth := depth } := by
  induction takes with
  | done => exact .done
  | @step parser last cursor lexeme lexemes found inside _ ih =>
      exact @step { parser with depth := depth } _ cursor lexeme lexemes found inside ih

theorem leave {parser last : Parser} {lexemes : List Lexeme}
    (takes : Takes { parser with depth := parser.depth + 1 } lexemes last) :
    Takes parser lexemes last.leave := by
  have back := takes.setDepth parser.depth
  have same : last.depth - 1 = parser.depth := by
    rw [takes.depth_eq]
    rfl
  rw [Parser.leave, same]
  exact back

theorem length_rest_le {parser last : Parser} {lexemes : List Lexeme}
    (takes : Takes parser lexemes last) :
    last.cursor.rest.length ≤ parser.cursor.rest.length := by
  induction takes with
  | done => exact Nat.le_refl _
  | step found _ _ ih => exact Nat.le_trans ih (Cursor.length_rest_le found)

/-- Lexemes before another lexeme make the rest of the text shorter. -/
theorem length_rest_lt {parser last : Parser} {lexemes : List Lexeme}
    (takes : Takes parser lexemes last) (some : lexemes ≠ [])
    (inside : last.current.token ≠ .endOfInput) :
    last.cursor.rest.length < parser.cursor.rest.length := by
  cases takes with
  | done => exact absurd rfl some
  | @step _ _ cursor lexeme others found _ takes =>
      have later := takes.length_rest_le
      have between : lexeme.token ≠ .endOfInput := by
        cases takes with
        | done => exact inside
        | step _ between _ => exact between
      have shorter := Cursor.length_rest_lt found between
      exact Nat.lt_of_le_of_lt later shorter

end Takes

/-! ## Steps over single lexemes -/

section Monad

variable {α β : Type} {parser last : Parser}

theorem bind_eq_ok {action : Action α} {rest : α → Action β} {result : β} :
    (action >>= rest) parser = .ok result last ↔
      ∃ value middle, action parser = .ok value middle ∧ rest value middle = .ok result last := by
  change EStateM.bind action rest parser = _ ↔ _
  unfold EStateM.bind
  cases action parser with
  | error error middle => simp
  | ok value middle =>
      constructor
      · intro ran
        exact ⟨value, middle, rfl, ran⟩
      · rintro ⟨_, _, same, ran⟩
        cases same
        exact ran

theorem bind_of_ok {action : Action α} {rest : α → Action β} {value : α} {middle : Parser}
    (ran : action parser = .ok value middle) : (action >>= rest) parser = rest value middle := by
  change EStateM.bind action rest parser = _
  rw [EStateM.bind, ran]

theorem bind_of_error {action : Action α} {rest : α → Action β} {error : ParseError}
    (ran : action parser = .error error last) : (action >>= rest) parser = .error error last := by
  change EStateM.bind action rest parser = _
  rw [EStateM.bind, ran]

theorem pure_eq_ok {value result : α} :
    (pure value : Action α) parser = .ok result last ↔ value = result ∧ parser = last := by
  change EStateM.Result.ok value parser = _ ↔ _
  simp

theorem peek_bind {rest : Token → Action β} :
    (peek >>= rest) parser = rest parser.current.token parser :=
  rfl

theorem get_bind {rest : Parser → Action β} : (get >>= rest) parser = rest parser parser :=
  rfl

theorem refuse_eq {expected : Expectation} :
    (refuse expected : Action α) parser =
      .error (.unexpectedToken expected parser.current.token parser.current.span) parser :=
  rfl

theorem advance_eq_ok {lexeme : Lexeme} (advanced : advance parser = .ok lexeme last) :
    lexeme = parser.current ∧ ∃ next cursor, parser.cursor.next = (.ok next, cursor) ∧
      last = { parser with cursor := cursor, current := next } := by
  unfold advance at advanced
  split at advanced
  · rename_i next cursor found
    simp only [EStateM.Result.ok.injEq] at advanced
    exact ⟨advanced.1.symm, next, cursor, found, advanced.2.symm⟩
  · cases advanced

end Monad

/-- Advancing takes the lexeme ahead, which is not the end of the text. -/
theorem takes_of_advance {parser last : Parser} {lexeme : Lexeme}
    (advanced : advance parser = .ok lexeme last) (inside : parser.current.token ≠ .endOfInput) :
    lexeme = parser.current ∧ Takes parser [parser.current] last := by
  obtain ⟨same, next, cursor, found, rfl⟩ := advance_eq_ok advanced
  exact ⟨same, .step found inside .done⟩

theorem expect_of_ahead {parser : Parser} {token : Token} {expected : Expectation}
    (ahead : parser.current.token = token) :
    expect token expected parser = (advance >>= fun lexeme => pure lexeme.span) parser := by
  unfold expect
  rw [peek_bind, if_pos ahead]

theorem takes_of_expect {parser last : Parser} {token : Token} {expected : Expectation}
    {span : Span} (inside : token ≠ .endOfInput)
    (ran : expect token expected parser = .ok span last) :
    ∃ lexeme, lexeme.token = token ∧ span = lexeme.span ∧ Takes parser [lexeme] last := by
  by_cases ahead : parser.current.token = token
  · rw [expect_of_ahead ahead] at ran
    obtain ⟨lexeme, middle, advanced, returned⟩ := bind_eq_ok.mp ran
    obtain ⟨rfl, rfl⟩ := pure_eq_ok.mp returned
    obtain ⟨rfl, takes⟩ := takes_of_advance advanced (by rwa [ahead])
    exact ⟨_, ahead, rfl, takes⟩
  · unfold expect at ran
    rw [peek_bind, if_neg ahead] at ran
    cases ran

theorem node_eq_ok {parser last : Parser} {expression result : Expr}
    (built : node expression parser = .ok result last) :
    result = expression ∧ last = parser ∧ expression.height ≤ maxDepth := by
  unfold node at built
  split at built
  · rename_i low
    obtain ⟨rfl, rfl⟩ := pure_eq_ok.mp built
    exact ⟨rfl, rfl, low⟩
  · cases built

/-- An operator of the tier is ahead, or none is. -/
theorem operator_present_or_absent (token : Token) (tier : Tier) :
    (∃ operator, token = .binary operator ∧ operator ∈ operators tier) ∨
      ∀ operator, token = .binary operator → operator ∉ operators tier := by
  by_cases present : ∃ operator, token = .binary operator ∧ operator ∈ operators tier
  · exact Or.inl present
  · exact Or.inr fun operator isOperator inTier => present ⟨operator, isOperator, inTier⟩

theorem operator?_of_absent {parser : Parser} {tier : Tier}
    (absent : ∀ operator, parser.current.token = .binary operator → operator ∉ operators tier) :
    operator? tier parser = .ok none parser := by
  unfold operator?
  rw [peek_bind]
  cases ahead : parser.current.token with
  | binary operator =>
      have other : operator.tier ≠ tier := mt mem_operators.mpr (absent operator ahead)
      exact congrFun (if_neg other) parser
  | _ => rfl

theorem operator?_of_present {parser : Parser} {tier : Tier} {operator : BinaryOp}
    (present : parser.current.token = .binary operator) (inTier : operator ∈ operators tier) :
    operator? tier parser = (advance >>= fun _ => pure (some operator)) parser := by
  unfold operator?
  rw [peek_bind, present]
  exact congrFun (if_pos (mem_operators.mp inTier)) parser

/-- Either no operator of the tier is ahead and nothing is taken, or one is taken. -/
theorem operator?_eq_ok {parser last : Parser} {tier : Tier} {found : Option BinaryOp}
    (ran : operator? tier parser = .ok found last) :
    (found = none ∧ last = parser) ∨
      ∃ operator, found = some operator ∧ parser.current.token = .binary operator ∧
        operator ∈ operators tier ∧ Takes parser [parser.current] last := by
  rcases operator_present_or_absent parser.current.token tier with
    ⟨operator, present, inTier⟩ | absent
  · rw [operator?_of_present present inTier] at ran
    obtain ⟨lexeme, middle, advanced, returned⟩ := bind_eq_ok.mp ran
    obtain ⟨rfl, rfl⟩ := pure_eq_ok.mp returned
    have takes := takes_of_advance advanced (by simp [present])
    exact Or.inr ⟨operator, rfl, present, inTier, takes.2⟩
  · rw [operator?_of_absent absent] at ran
    cases ran
    exact Or.inl ⟨rfl, rfl⟩

/-! ## Going further in and out -/

section Nesting

variable {parser entered last : Parser} {action : Action Expr} {expression : Expr}
  {error : ParseError}

theorem enter_eq_ok_iff :
    enter parser = .ok () entered ↔
      parser.depth < maxDepth ∧ entered = { parser with depth := parser.depth + 1 } := by
  unfold enter
  split
  · rename_i shallow
    simp [shallow, eq_comm]
  · rename_i deep
    simp [deep]

theorem enter_eq_error_iff :
    enter parser = .error error last ↔
      maxDepth ≤ parser.depth ∧ error = .tooDeep parser.current.span ∧ last = parser := by
  unfold enter
  split
  · rename_i shallow
    simp [Nat.not_le.mpr shallow]
  · rename_i deep
    simp [Nat.not_lt.mp deep, eq_comm]

theorem leave_raised {depth : Nat} (same : last.depth = depth) :
    ({ last with depth := depth + 1 } : Parser).leave = last := by
  subst same
  rfl

/-- The nesting is left whichever way the action ends. -/
theorem nested_of_entered (enters : enter parser = .ok () entered) :
    nested action parser =
      match action entered with
      | .ok expression last => .ok expression last.leave
      | .error error last => .error error last.leave := by
  unfold nested
  rw [bind_of_ok enters]
  simp only [tryFinally, tryFinally', Functor.map, EStateM.map]
  cases action entered <;> rfl

theorem nested_of_ok (enters : enter parser = .ok () entered)
    (ran : action entered = .ok expression last) :
    nested action parser = .ok expression last.leave := by
  rw [nested_of_entered enters, ran]

theorem nested_of_error (enters : enter parser = .ok () entered)
    (ran : action entered = .error error last) :
    nested action parser = .error error last.leave := by
  rw [nested_of_entered enters, ran]

theorem nested_of_refused (refused : enter parser = .error error last) :
    nested action parser = .error error last :=
  bind_of_error refused

/-- What holds of a nested action: it is refused on the way in, or it ends as its action ends
further in. -/
theorem nested_elim {motive : EStateM.Result ParseError Parser Expr → Prop}
    (refuses : ∀ {error last}, enter parser = .error error last → motive (.error error last))
    (returns : ∀ {entered expression final}, enter parser = .ok () entered →
      action entered = .ok expression final → motive (.ok expression final.leave))
    (fails : ∀ {entered error final}, enter parser = .ok () entered →
      action entered = .error error final → motive (.error error final.leave)) :
    motive (nested action parser) := by
  cases enters : enter parser with
  | error error last =>
      rw [nested_of_refused enters]
      exact refuses enters
  | ok _ entered =>
      cases ran : action entered with
      | ok expression final =>
          rw [nested_of_ok enters ran]
          exact returns enters ran
      | error error final =>
          rw [nested_of_error enters ran]
          exact fails enters ran

theorem nested_eq_ok (ran : nested action parser = .ok expression last) :
    ∃ entered final, enter parser = .ok () entered ∧ action entered = .ok expression final ∧
      last = final.leave := by
  revert ran
  refine nested_elim (motive := fun result => result = .ok expression last → _) ?_ ?_ ?_
  · intro error stopped _ ran
    cases ran
  · intro entered found final enters ranInner ran
    cases ran
    exact ⟨entered, final, enters, ranInner, rfl⟩
  · intro entered error final _ _ ran
    cases ran

end Nesting

/-! ## Layers -/

/-- What an action returns is derived in a layer from the lexemes it took. -/
def Sound (layer : Layer) (action : Action Expr) : Prop :=
  ∀ ⦃parser last : Parser⦄ ⦃result : Expr⦄, action parser = .ok result last →
    ∃ lexemes, Takes parser lexemes last ∧ Derives layer lexemes result ∧
      result.height ≤ maxDepth

theorem Sound.nested {layer : Layer} {action : Action Expr} (sound : Sound layer action) :
    Sound layer (nested action) := by
  intro parser last result ran
  obtain ⟨entered, final, enters, ranInner, rfl⟩ := nested_eq_ok ran
  obtain ⟨_, rfl⟩ := enter_eq_ok_iff.mp enters
  obtain ⟨lexemes, takes, derived, low⟩ := sound ranInner
  exact ⟨lexemes, takes.leave, derived, low⟩

theorem tail_of_chainFrom {below : Layer} {tier : Tier} {operand : Action Expr}
    (sound : Sound below operand) {steps : Nat}
    {left result : Expr} {parser last : Parser} (low : left.height ≤ maxDepth)
    (ran : chainFrom tier operand steps left parser = .ok result last) :
    ∃ lexemes, Takes parser lexemes last ∧ Tail tier below left lexemes result ∧
      result.height ≤ maxDepth := by
  induction steps generalizing left parser with
  | zero =>
      obtain ⟨rfl, rfl⟩ := pure_eq_ok.mp ran
      exact ⟨[], .done, .done, low⟩
  | succ steps ih =>
      unfold chainFrom at ran
      obtain ⟨found, middle, looked, goesOn⟩ := bind_eq_ok.mp ran
      rcases operator?_eq_ok looked with ⟨rfl, rfl⟩ | ⟨operator, rfl, isOperator, inTier, takes⟩
      · obtain ⟨rfl, rfl⟩ := pure_eq_ok.mp goesOn
        exact ⟨[], .done, .done, low⟩
      · obtain ⟨right, next, ranOperand, joins⟩ := bind_eq_ok.mp goesOn
        obtain ⟨joined, same, built, ranRest⟩ := bind_eq_ok.mp joins
        obtain ⟨rfl, rfl, lowJoined⟩ := node_eq_ok built
        obtain ⟨lexemes, takesOperand, derived, _⟩ := sound ranOperand
        obtain ⟨rest, takesRest, tail, lowResult⟩ := ih lowJoined ranRest
        exact ⟨parser.current :: (lexemes ++ rest),
          takes.append (takesOperand.append takesRest),
          .more isOperator inTier derived tail, lowResult⟩

theorem Sound.chain {layer below : Layer} {tier : Tier} {operand : Action Expr}
    (joins : Joins layer tier below) (sound : Sound below operand) :
    Sound layer (chain tier operand) := by
  intro parser last result ran
  obtain ⟨left, middle, ranOperand, goesOn⟩ := bind_eq_ok.mp ran
  obtain ⟨first, takesFirst, derived, low⟩ := sound ranOperand
  obtain ⟨rest, takesRest, tail, lowResult⟩ := tail_of_chainFrom sound low goesOn
  exact ⟨_, takesFirst.append takesRest, .chain joins derived tail, lowResult⟩

theorem arguments_of_argumentsFrom {argument : Action Expr} (sound : Sound .disjunction argument)
    {count : Nat} {parser last : Parser} {found : List Expr}
    (enough : parser.cursor.rest.length < count)
    (ran : argumentsFrom argument count parser = .ok found last) :
    ∃ lexemes, Takes parser lexemes last ∧ Arguments lexemes found := by
  induction count generalizing parser found with
  | zero => exact absurd enough (Nat.not_lt_zero _)
  | succ count ih =>
      unfold argumentsFrom at ran
      obtain ⟨first, middle, ranFirst, goesOn⟩ := bind_eq_ok.mp ran
      obtain ⟨lexemes, takes, derived, _⟩ := sound ranFirst
      rw [peek_bind] at goesOn
      split at goesOn
      · rename_i divides
        have inside : middle.current.token ≠ .endOfInput := by simp [divides]
        obtain ⟨comma, next, advanced, ranRest⟩ := bind_eq_ok.mp goesOn
        obtain ⟨others, final, ranOthers, returned⟩ := bind_eq_ok.mp ranRest
        obtain ⟨rfl, rfl⟩ := pure_eq_ok.mp returned
        obtain ⟨_, takesComma⟩ := takes_of_advance advanced inside
        have nonempty : lexemes ≠ [] := by
          obtain ⟨_, _, rfl, _⟩ := derived.head
          exact List.cons_ne_nil _ _
        -- The argument took a character before the comma, so the count is not used up.
        have shorter := takes.length_rest_lt nonempty inside
        have afterComma := takesComma.length_rest_le
        obtain ⟨rest, takesRest, tail⟩ := ih (by omega) ranOthers
        exact ⟨lexemes ++ middle.current :: rest,
          takes.append (takesComma.append takesRest), .more derived divides tail⟩
      · obtain ⟨rfl, rfl⟩ := pure_eq_ok.mp goesOn
        exact ⟨lexemes, takes, .last derived⟩

/-- Either a closing parenthesis is ahead and there are no arguments, or there are some. -/
theorem arguments_eq_ok {argument : Action Expr} (sound : Sound .disjunction argument)
    {parser last : Parser} {found : List Expr}
    (ran : arguments argument parser = .ok found last) :
    (found = [] ∧ last = parser) ∨ ∃ lexemes, Takes parser lexemes last ∧ Arguments lexemes found := by
  unfold arguments at ran
  rw [peek_bind] at ran
  split at ran
  · obtain ⟨rfl, rfl⟩ := pure_eq_ok.mp ran
    exact Or.inl ⟨rfl, rfl⟩
  · rw [get_bind] at ran
    exact Or.inr (arguments_of_argumentsFrom sound (Nat.lt_succ_self _) ran)

/-! ## The four kinds of primary expressions -/

section Primary

variable {inner : Inner} {parser : Parser}

theorem primary_of_literal {value : Value} (isLiteral : parser.current.token = .literal value) :
    primary inner parser =
      (advance >>= fun _ =>
        pure (.literal parser.current.source value parser.current.span)) parser := by
  unfold primary
  rw [get_bind, isLiteral]

theorem primary_of_name {name : String} (isName : parser.current.token = .identifier name) :
    primary inner parser =
      (advance >>= fun _ => peek >>= fun token =>
        if token = .openParen then call inner name parser.current.span
        else pure (.member name parser.current.span)) parser := by
  unfold primary
  rw [get_bind, isName]

theorem primary_of_open (opens : parser.current.token = .openParen) :
    primary inner parser =
      (advance >>= fun _ => nested inner.expression >>= fun expression =>
        closeParen >>= fun close =>
          node (.paren expression (parser.current.span.cover close))) parser := by
  unfold primary
  rw [get_bind, opens]

theorem primary_of_other (other : begins .primary parser.current.token = false) :
    primary inner parser =
      .error (.unexpectedToken .expression parser.current.token parser.current.span) parser := by
  unfold primary
  rw [get_bind]
  cases ahead : parser.current.token with
  | literal value => simp [begins, ahead] at other
  | identifier name => simp [begins, ahead] at other
  | openParen => simp [begins, ahead] at other
  | _ => exact refuse_eq.trans (by rw [ahead])

end Primary

/-- The inner actions are those of their layers. -/
structure Inner.Sound (inner : Inner) : Prop where
  expression : Parser.Sound .disjunction inner.expression
  negation : Parser.Sound .negation inner.negation
  unary : Parser.Sound .unary inner.unary

section Layers

variable {inner : Inner}

/-- A call is derived from the lexeme of its name and the lexemes that were taken. -/
theorem call_sound (sound : inner.Sound) {parser last : Parser} {lexeme : Lexeme} {name : String}
    {result : Expr} (isName : lexeme.token = .identifier name)
    (ran : call inner name lexeme.span parser = .ok result last) :
    ∃ lexemes, Takes parser lexemes last ∧ Derives .primary (lexeme :: lexemes) result ∧
      result.height ≤ maxDepth := by
  obtain ⟨_, next, ranOpen, ranRest⟩ := bind_eq_ok.mp ran
  obtain ⟨found, before, ranArguments, closesNext⟩ := bind_eq_ok.mp ranRest
  obtain ⟨span, final, ranClose, built⟩ := bind_eq_ok.mp closesNext
  obtain ⟨opening, opens, _, takesOpen⟩ := takes_of_expect (by decide) ranOpen
  obtain ⟨closing, closes, rfl, takesClose⟩ := takes_of_expect (by decide) ranClose
  obtain ⟨rfl, rfl, low⟩ := node_eq_ok built
  rcases arguments_eq_ok sound.expression.nested ranArguments with
    ⟨rfl, rfl⟩ | ⟨lexemes, takes, derived⟩
  · exact ⟨[opening, closing], takesOpen.append takesClose, .callEmpty isName opens closes, low⟩
  · exact ⟨opening :: (lexemes ++ [closing]), takesOpen.append (takes.append takesClose),
      .call isName opens derived closes, low⟩

theorem primary_sound (sound : inner.Sound) : Sound .primary (primary inner) := by
  intro parser last result ran
  cases ahead : parser.current.token with
  | literal value =>
      rw [primary_of_literal ahead] at ran
      obtain ⟨lexeme, middle, advanced, returned⟩ := bind_eq_ok.mp ran
      obtain ⟨rfl, rfl⟩ := pure_eq_ok.mp returned
      obtain ⟨_, takes⟩ := takes_of_advance advanced (by simp [ahead])
      exact ⟨_, takes, .literal ahead, by simp [Expr.height, maxDepth]⟩
  | identifier name =>
      rw [primary_of_name ahead] at ran
      obtain ⟨lexeme, middle, advanced, goesOn⟩ := bind_eq_ok.mp ran
      obtain ⟨_, takesName⟩ := takes_of_advance advanced (by simp [ahead])
      rw [peek_bind] at goesOn
      split at goesOn
      · obtain ⟨lexemes, takes, derived, low⟩ := call_sound sound ahead goesOn
        exact ⟨parser.current :: lexemes, takesName.append takes, derived, low⟩
      · obtain ⟨rfl, rfl⟩ := pure_eq_ok.mp goesOn
        exact ⟨_, takesName, .member ahead, by simp [Expr.height, maxDepth]⟩
  | openParen =>
      rw [primary_of_open ahead] at ran
      obtain ⟨opening, next, advancedOpen, ranRest⟩ := bind_eq_ok.mp ran
      obtain ⟨inside, before, ranInside, closesNext⟩ := bind_eq_ok.mp ranRest
      obtain ⟨span, final, ranClose, built⟩ := bind_eq_ok.mp closesNext
      obtain ⟨_, takesOpen⟩ := takes_of_advance advancedOpen (by simp [ahead])
      obtain ⟨lexemes, takes, derived, _⟩ := sound.expression.nested ranInside
      obtain ⟨closing, closes, rfl, takesClose⟩ := takes_of_expect (by decide) ranClose
      obtain ⟨rfl, rfl, low⟩ := node_eq_ok built
      exact ⟨parser.current :: (lexemes ++ [closing]),
        takesOpen.append (takes.append takesClose), .paren ahead derived closes, low⟩
  | _ =>
      rw [primary_of_other (by simp [begins, ahead])] at ran
      cases ran

theorem unary_sound (sound : inner.Sound) : Sound .unary (unary inner) := by
  intro parser last result ran
  unfold unary at ran
  rw [peek_bind] at ran
  split at ran
  · rename_i isMinus
    obtain ⟨sign, middle, advanced, ranRest⟩ := bind_eq_ok.mp ran
    obtain ⟨operand, next, ranOperand, built⟩ := bind_eq_ok.mp ranRest
    obtain ⟨rfl, takesSign⟩ := takes_of_advance advanced (by simp [isMinus])
    obtain ⟨lexemes, takes, derived, _⟩ := sound.unary.nested ranOperand
    obtain ⟨rfl, rfl, low⟩ := node_eq_ok built
    exact ⟨parser.current :: lexemes, takesSign.append takes, .minus isMinus derived, low⟩
  · obtain ⟨lexemes, takes, derived, low⟩ := primary_sound sound ran
    exact ⟨lexemes, takes, .lift .unary derived, low⟩

theorem sum_sound (sound : inner.Sound) : Sound .sum (sum inner) :=
  ((unary_sound sound).chain .product).chain .sum

theorem comparison_sound (sound : inner.Sound) : Sound .comparison (comparison inner) := by
  intro parser last result ran
  unfold comparison at ran
  obtain ⟨left, middle, ranLeft, goesOn⟩ := bind_eq_ok.mp ran
  obtain ⟨first, takesFirst, derivedLeft, low⟩ := sum_sound sound ranLeft
  obtain ⟨found, next, looked, ranRest⟩ := bind_eq_ok.mp goesOn
  rcases operator?_eq_ok looked with ⟨rfl, rfl⟩ | ⟨operator, rfl, isOperator, compares, takesSign⟩
  · obtain ⟨rfl, rfl⟩ := pure_eq_ok.mp ranRest
    exact ⟨first, takesFirst, .lift .comparison derivedLeft, low⟩
  · obtain ⟨right, final, ranRight, built⟩ := bind_eq_ok.mp ranRest
    obtain ⟨second, takesSecond, derivedRight, _⟩ := sum_sound sound ranRight
    obtain ⟨rfl, rfl, lowResult⟩ := node_eq_ok built
    exact ⟨first ++ middle.current :: second, takesFirst.append (takesSign.append takesSecond),
      .compared derivedLeft isOperator compares derivedRight, lowResult⟩

theorem negation_sound (sound : inner.Sound) : Sound .negation (negation inner) := by
  intro parser last result ran
  unfold negation at ran
  rw [peek_bind] at ran
  split at ran
  · rename_i isNot
    obtain ⟨sign, middle, advanced, ranRest⟩ := bind_eq_ok.mp ran
    obtain ⟨operand, next, ranOperand, built⟩ := bind_eq_ok.mp ranRest
    obtain ⟨rfl, takesSign⟩ := takes_of_advance advanced (by simp [isNot])
    obtain ⟨lexemes, takes, derived, _⟩ := sound.negation.nested ranOperand
    obtain ⟨rfl, rfl, low⟩ := node_eq_ok built
    exact ⟨parser.current :: lexemes, takesSign.append takes, .not isNot derived, low⟩
  · obtain ⟨lexemes, takes, derived, low⟩ := comparison_sound sound ran
    exact ⟨lexemes, takes, .lift .negation derived, low⟩

theorem disjunction_sound (sound : inner.Sound) : Sound .disjunction (disjunction inner) :=
  ((negation_sound sound).chain .conjunction).chain .disjunction

end Layers

/-- The inner actions are sound for however many nestings they are prepared. -/
theorem inner_sound (prepared : Nat) : (inner prepared).Sound := by
  induction prepared with
  | zero =>
      constructor <;> (intro parser last result ran; cases ran)
  | succ prepared ih => exact ⟨disjunction_sound ih, negation_sound ih, unary_sound ih⟩

/-- An expression that is parsed is derived from the lexemes that were taken. -/
theorem expression_sound : Sound .disjunction expression :=
  fun _ _ _ ran => disjunction_sound (inner_sound _) ran

end QueryClause.Parser
