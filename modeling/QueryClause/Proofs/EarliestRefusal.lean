import Mathlib
import QueryClause.Proofs.Lookahead
import QueryClause.Proofs.ParserCompleteness

/-!
# Where a text is refused

The parser refuses a token at the first place where no expression can go on: what it has
taken is the beginning of an expression, and with the token it is not. The same holds for
what it has taken before a lexical fault.

An action that reads a kind of phrase either takes a phrase that is settled by the lexeme
ahead, or fails where what it has taken is viable and blocked. That is shown for each action
from the actions it is made of.
-/

namespace QueryClause

open QueryClause.Grammar

namespace Parser

variable {α β : Type} {kind other first second : Phrases} {parser middle last : Parser}
  {taken : List Lexeme} {error : ParseError}

theorem bind_eq_error {action : Action α} {rest : α → Action β}
    (failed : (action >>= rest) parser = .error error last) :
    action parser = .error error last ∨
      ∃ value middle, action parser = .ok value middle ∧ rest value middle = .error error last := by
  cases ran : action parser with
  | error reason stopped =>
      rw [bind_of_error ran] at failed
      cases failed
      exact .inl rfl
  | ok value middle =>
      rw [bind_of_ok ran] at failed
      exact .inr ⟨value, middle, rfl, failed⟩

/-- What comes ahead after lexemes are taken tells what was ahead before. -/
theorem Takes.head?_eq (takes : Takes parser taken last) {remaining : List Lexeme}
    (begins : remaining.head? = some last.current) :
    (taken ++ remaining).head? = some parser.current := by
  cases takes with
  | done => exact begins
  | step => rfl

/-- Why an action that reads a kind of phrase fails: what it has taken begins a phrase, and
the token ahead cannot go on with it, or what is ahead is not a token. A phrase that is
refused for its height is not looked at. -/
def Explains (kind : Phrases) (parser : Parser) : ParseError → Prop
  | .unexpectedToken _ found span =>
      ∃ taken last, Takes parser taken last ∧ last.current.token = found ∧
        last.current.span = span ∧ kind.Viable taken ∧ kind.Blocked taken last.current
  | .lexical error =>
      ∃ taken last, Takes parser taken last ∧ last.current.token ≠ .endOfInput ∧
        last.cursor.next.1 = .error error ∧ kind.Viable (taken ++ [last.current])
  | .tooDeep _ => True

/-- An action takes a phrase of the kind that is settled by what is ahead, or its failure is
explained. -/
structure Reads (kind : Phrases) (action : Action α) (parser : Parser) : Prop where
  accepts : ∀ ⦃value : α⦄ ⦃last : Parser⦄, action parser = .ok value last →
    ∃ taken, Takes parser taken last ∧ kind.phrase taken ∧ kind.Settled taken last.current
  refuses : ∀ ⦃error : ParseError⦄ ⦃last : Parser⦄, action parser = .error error last →
    Explains kind parser error

/-! ## Rules for single actions -/

theorem Explains.chooses (chooses : kind.Chooses parser.current other)
    (explains : Explains other parser error) : Explains kind parser error := by
  cases error with
  | tooDeep => trivial
  | lexical =>
      obtain ⟨taken, last, takes, inside, faulty, more, held⟩ := explains
      exact ⟨taken, last, takes, inside, faulty, more, chooses.sound held⟩
  | unexpectedToken =>
      obtain ⟨taken, last, takes, isFound, stands, ⟨more, held⟩, blocked⟩ := explains
      refine ⟨taken, last, takes, isFound, stands, ⟨more, chooses.sound held⟩, ?_⟩
      intro lexemes rest remaining heldAgain followed begins same
      obtain ⟨heldOther, followedOther⟩ :=
        chooses.complete heldAgain followed (by rw [same]; exact takes.head?_eq begins)
      exact blocked heldOther followedOther begins same

/-- The lexeme ahead decides which kind of phrase is read. -/
theorem Reads.chooses {action : Action α} (chooses : kind.Chooses parser.current other)
    (reads : Reads other action parser) : Reads kind action parser where
  accepts value last ran := by
    obtain ⟨taken, takes, held, settled⟩ := reads.accepts ran
    refine ⟨taken, takes, chooses.sound held, ?_⟩
    intro lexemes rest remaining heldAgain followed begins same
    obtain ⟨heldOther, followedOther⟩ :=
      chooses.complete heldAgain followed (by rw [same]; exact takes.head?_eq begins)
    exact settled heldOther followedOther begins same
  refuses _ _ ran := (reads.refuses ran).chooses chooses

theorem reads_pure {value : α} (held : kind.phrase []) (settled : kind.Settled [] parser.current) :
    Reads kind (pure value : Action α) parser where
  accepts _ _ ran := by
    obtain ⟨-, rfl⟩ := pure_eq_ok.mp ran
    exact ⟨[], .done, held, settled⟩
  refuses _ _ ran := by cases ran

theorem reads_refuse {expected : Expectation} (blocked : kind.Blocked [] parser.current) :
    Reads kind (refuse expected : Action α) parser where
  accepts _ _ ran := by cases ran
  refuses _ _ ran := by
    cases ran
    exact ⟨[], parser, .done, rfl, rfl, kind.viable_nil, blocked⟩

theorem reads_advance {token : Token} (isToken : parser.current.token = token)
    (inside : token ≠ .endOfInput) : Reads (.one token) advance parser where
  accepts _ _ ran := by
    obtain ⟨-, takes⟩ := takes_of_advance ran (isToken ▸ inside)
    exact ⟨_, takes, ⟨_, isToken, rfl⟩, Phrases.settled_one⟩
  refuses error last ran := by
    unfold advance at ran
    split at ran
    · cases ran
    · rename_i fault cursor found
      cases ran
      refine ⟨[], parser, .done, isToken ▸ inside, by rw [found], ?_⟩
      exact Phrases.viable_of_phrase ⟨_, isToken, rfl⟩

theorem Reads.congr {action : Action α} (again : Action α)
    (same : action parser = again parser) (reads : Reads kind again parser) :
    Reads kind action parser where
  accepts _ _ ran := reads.accepts (same ▸ ran)
  refuses _ _ ran := reads.refuses (same ▸ ran)

/-- The token ahead decides which of two actions is taken. -/
theorem reads_if_peek {token : Token} {present absent : Action α}
    (readsPresent : parser.current.token = token → Reads kind present parser)
    (readsAbsent : parser.current.token ≠ token → Reads kind absent parser) :
    Reads kind (do if (← peek) = token then present else absent) parser := by
  by_cases isToken : parser.current.token = token
  · refine .congr present ?_ (readsPresent isToken)
    rw [peek_bind, if_pos isToken]
  · refine .congr absent ?_ (readsAbsent isToken)
    rw [peek_bind, if_neg isToken]

/-! ## Rules for actions one after the other -/

theorem Explains.seq (precedes : first.Precedes second) (explains : Explains first parser error) :
    Explains (first.seq second) parser error := by
  cases error with
  | tooDeep => trivial
  | lexical =>
      obtain ⟨taken, last, takes, inside, faulty, viable⟩ := explains
      exact ⟨taken, last, takes, inside, faulty, viable.seq⟩
  | unexpectedToken =>
      obtain ⟨taken, last, takes, isFound, stands, viable, blocked⟩ := explains
      exact ⟨taken, last, takes, isFound, stands, viable.seq, blocked.seq precedes⟩

theorem Explains.after (precedes : first.Precedes second) (takes : Takes parser taken middle)
    (held : first.phrase taken) (settled : first.Settled taken middle.current)
    (explains : Explains second middle error) : Explains (first.seq second) parser error := by
  cases error with
  | tooDeep => trivial
  | lexical =>
      obtain ⟨more, last, takesMore, inside, faulty, viable⟩ := explains
      refine ⟨taken ++ more, last, takes.append takesMore, inside, faulty, ?_⟩
      rw [List.append_assoc]
      exact Phrases.viable_seq_append held viable
  | unexpectedToken =>
      obtain ⟨more, last, takesMore, isFound, stands, viable, blocked⟩ := explains
      exact ⟨taken ++ more, last, takes.append takesMore, isFound, stands,
        Phrases.viable_seq_append held viable,
        settled.seq_blocked precedes blocked fun _ => takesMore.head?_eq⟩

/-- Two actions read a sequence. -/
theorem Reads.seq {action : Action α} {rest : α → Action β} (precedes : first.Precedes second)
    (reads : Reads first action parser)
    (goesOn : ∀ ⦃value : α⦄ ⦃middle : Parser⦄, action parser = .ok value middle →
      Reads second (rest value) middle) :
    Reads (first.seq second) (action >>= rest) parser where
  accepts result last ran := by
    obtain ⟨value, middle, ranFirst, ranRest⟩ := bind_eq_ok.mp ran
    obtain ⟨taken, takes, held, settled⟩ := reads.accepts ranFirst
    obtain ⟨more, takesMore, heldMore, settledMore⟩ := (goesOn ranFirst).accepts ranRest
    exact ⟨taken ++ more, takes.append takesMore, ⟨taken, more, held, heldMore, rfl⟩,
      settled.seq precedes settledMore fun _ => takesMore.head?_eq⟩
  refuses error last ran := by
    rcases bind_eq_error ran with failed | ⟨value, middle, ranFirst, failed⟩
    · exact (reads.refuses failed).seq precedes
    · obtain ⟨taken, takes, held, settled⟩ := reads.accepts ranFirst
      exact ((goesOn ranFirst).refuses failed).after precedes takes held settled

/-- An action that takes nothing, and fails for no other reason than the height of a tree. -/
def Still (action : Action α) : Prop :=
  ∀ parser, (∃ value, action parser = .ok value parser) ∨
    ∃ span, action parser = .error (.tooDeep span) parser

theorem still_pure (value : α) : Still (pure value) :=
  fun _ => .inl ⟨value, rfl⟩

theorem still_node (expression : Expr) : Still (node expression) := by
  intro parser
  unfold node
  split
  · exact .inl ⟨expression, rfl⟩
  · exact .inr ⟨expression.span, rfl⟩

/-- What takes nothing can follow an action. -/
theorem Reads.still {action : Action α} {rest : α → Action β} (reads : Reads kind action parser)
    (still : ∀ value, Still (rest value)) : Reads kind (action >>= rest) parser where
  accepts result last ran := by
    obtain ⟨value, middle, ranFirst, ranRest⟩ := bind_eq_ok.mp ran
    rcases still value middle with ⟨same, stays⟩ | ⟨span, fails⟩
    · rw [stays] at ranRest
      cases ranRest
      exact reads.accepts ranFirst
    · rw [fails] at ranRest
      cases ranRest
  refuses error last ran := by
    rcases bind_eq_error ran with failed | ⟨value, middle, ranFirst, failed⟩
    · exact reads.refuses failed
    · rcases still value middle with ⟨same, stays⟩ | ⟨span, fails⟩
      · rw [stays] at failed
        cases failed
      · rw [fails] at failed
        cases failed
        trivial

theorem Explains.setDepth {depth : Nat}
    (explains : Explains kind { parser with depth := depth } error) :
    Explains kind parser error := by
  cases error with
  | tooDeep => trivial
  | lexical =>
      obtain ⟨taken, last, takes, inside, faulty, viable⟩ := explains
      exact ⟨taken, { last with depth := parser.depth }, takes.setDepth parser.depth, inside,
        faulty, viable⟩
  | unexpectedToken =>
      obtain ⟨taken, last, takes, isFound, stands, viable, blocked⟩ := explains
      exact ⟨taken, { last with depth := parser.depth }, takes.setDepth parser.depth, isFound,
        stands, viable, blocked⟩

theorem Reads.nested {inner : Action Expr} (reads : ∀ parser, Reads kind inner parser) :
    Reads kind (nested inner) parser where
  accepts value last ran := by
    obtain ⟨entered, final, enters, ranInner, rfl⟩ := nested_eq_ok ran
    obtain ⟨_, rfl⟩ := enter_eq_ok_iff.mp enters
    obtain ⟨taken, takes, held, settled⟩ := (reads _).accepts ranInner
    exact ⟨taken, takes.leave, held, settled⟩
  refuses error last ran := by
    revert ran
    refine nested_elim (motive := fun result => result = .error error last → _) ?_ ?_ ?_
    · intro reason stopped refused ran
      cases ran
      obtain ⟨_, rfl, _⟩ := enter_eq_error_iff.mp refused
      trivial
    · intro entered found final _ _ ran
      cases ran
    · intro entered reason final enters ranInner ran
      cases ran
      obtain ⟨_, rfl⟩ := enter_eq_ok_iff.mp enters
      exact ((reads _).refuses ranInner).setDepth

/-! ## The actions of the parser -/

theorem reads_expect {token : Token} {expected : Expectation} (inside : token ≠ .endOfInput) :
    Reads (.one token) (expect token expected) parser := by
  unfold expect
  refine reads_if_peek (fun ahead => ?_) fun other => ?_
  · exact (reads_advance ahead inside).still fun _ => still_pure _
  · exact reads_refuse (Phrases.blocked_one other)

theorem reads_openParen : Reads (.one .openParen) openParen parser :=
  reads_expect (by decide)

theorem reads_closeParen : Reads (.one .closeParen) closeParen parser :=
  reads_expect (by decide)

/-- Nothing is known of a tree that is too tall. -/
theorem reads_node_bind {expression : Expr} {rest : Expr → Action α}
    (goesOn : expression.height ≤ maxDepth → Reads kind (rest expression) parser) :
    Reads kind (node expression >>= rest) parser := by
  by_cases low : expression.height ≤ maxDepth
  · refine .congr (rest expression) (bind_of_ok ?_) (goesOn low)
    rw [node, if_pos low]
    rfl
  · refine ⟨fun value last ran => ?_, fun error last ran => ?_⟩
    · obtain ⟨_, _, built, -⟩ := bind_eq_ok.mp ran
      exact absurd (node_eq_ok built).2.2 low
    · rw [bind_of_error (by rw [node, if_neg low]; rfl)] at ran
      cases ran
      trivial

section Operator

variable {operator : BinaryOp} {tier : Tier}

theorem reads_operator? (isOperator : parser.current.token = .binary operator)
    (inTier : operator ∈ operators tier) :
    Reads (.one (.binary operator)) (operator? tier) parser :=
  .congr _ (operator?_of_present isOperator inTier)
    ((reads_advance isOperator (by simp)).still fun _ => still_pure _)

theorem operator?_eq_some {found : Option BinaryOp}
    (isOperator : parser.current.token = .binary operator) (inTier : operator ∈ operators tier)
    (ran : operator? tier parser = .ok found last) : found = some operator := by
  rw [operator?_of_present isOperator inTier] at ran
  obtain ⟨_, _, -, returned⟩ := bind_eq_ok.mp ran
  exact (pure_eq_ok.mp returned).1.symm

end Operator

section Chain

variable {layer below : Layer} {tier : Tier} {operand : Action Expr}

/-- A chain goes on for as long as an operator of its tier is ahead. The tree grows with every
step, so that it is too tall before the steps are used up. -/
theorem reads_chainFrom (joins : Joins layer tier below)
    (reads : ∀ parser, Reads (.ofLayer below) operand parser) {steps : Nat} {left : Expr}
    (enough : maxDepth < steps + left.height) (low : left.height ≤ maxDepth) :
    Reads (.links layer tier below) (chainFrom tier operand steps left) parser := by
  induction steps generalizing left parser with
  | zero => omega
  | succ steps ih =>
      unfold chainFrom
      rcases operator_present_or_absent parser.current.token tier with
        ⟨operator, isOperator, inTier⟩ | absent
      · refine .chooses (Phrases.links_chooses joins isOperator inTier)
          (.seq (Phrases.one_precedes _ _) (reads_operator? isOperator inTier)
            fun found middle ran => ?_)
        obtain rfl := operator?_eq_some isOperator inTier ran
        refine .seq (Phrases.ofLayer_precedes_links joins) (reads middle) fun right next _ =>
          reads_node_bind fun lowJoined => ih ?_ lowJoined
        simp only [Expr.height]
        omega
      · exact .congr (pure left) (bind_of_ok (operator?_of_absent absent))
          (reads_pure (fun left => ⟨left, .done⟩) (Phrases.settled_links absent))

theorem reads_chain (joins : Joins layer tier below) (sound : Sound below operand)
    (reads : ∀ parser, Reads (.ofLayer below) operand parser) (parser : Parser) :
    Reads (.ofLayer layer) (chain tier operand) parser := by
  refine .chooses (Phrases.ofLayer_chooses_links joins)
    (.seq (Phrases.ofLayer_precedes_links joins) (reads parser) fun left middle ran => ?_)
  obtain ⟨_, _, _, low⟩ := sound ran
  have tall := left.height_pos
  exact reads_chainFrom joins reads (by omega) low

end Chain

/-! ## Primary expressions -/

section Arguments

variable {argument : Action Expr} (reads : ∀ parser, Reads (.ofLayer .disjunction) argument parser)

include reads

theorem reads_argumentsFrom {count : Nat} (enough : parser.cursor.rest.length < count) :
    Reads .someArguments (argumentsFrom argument count) parser := by
  induction count generalizing parser with
  | zero => exact absurd enough (Nat.not_lt_zero _)
  | succ count ih =>
      unfold argumentsFrom
      refine .chooses Phrases.someArguments_chooses
        (.seq Phrases.disjunction_precedes_moreArguments (reads parser) fun found middle ran => ?_)
      refine reads_if_peek (fun divides => ?_) fun other => ?_
      · refine .chooses (Phrases.moreArguments_chooses divides)
          (.seq (Phrases.one_precedes _ _) (reads_advance divides (by simp)) fun _ next comma =>
            Reads.still (ih ?_) fun _ => still_pure _)
        -- The argument took a character before the comma, so the count is not used up.
        have inside : middle.current.token ≠ .endOfInput := by simp [divides]
        obtain ⟨taken, takes, ⟨whole, derived⟩, -⟩ := (reads parser).accepts ran
        obtain ⟨start, others, rfl, -⟩ := derived.head
        have shorter := takes.length_rest_lt (List.cons_ne_nil _ _) inside
        have afterComma := (takes_of_advance comma inside).2.length_rest_le
        omega
      · exact reads_pure (.inl rfl) (Phrases.settled_moreArguments other)

theorem reads_arguments : Reads .arguments (arguments argument) parser := by
  unfold arguments
  refine reads_if_peek (fun closes => ?_) fun other => ?_
  · exact reads_pure (.inl rfl) (Phrases.settled_arguments closes)
  · exact .chooses (Phrases.arguments_chooses other)
      (.congr _ get_bind (reads_argumentsFrom reads (Nat.lt_succ_self _)))

end Arguments

/-- The inner actions read the phrases of their layers. -/
structure Inner.Reads (inner : Inner) : Prop where
  expression : ∀ parser, Parser.Reads (.ofLayer .disjunction) inner.expression parser
  negation : ∀ parser, Parser.Reads (.ofLayer .negation) inner.negation parser
  unary : ∀ parser, Parser.Reads (.ofLayer .unary) inner.unary parser

section Layers

variable {inner : Inner}

theorem reads_call (reads : inner.Reads) {name : String} {span : Span} :
    Reads ((Phrases.one .openParen).seq (Phrases.arguments.seq (.one .closeParen)))
      (call inner name span) parser :=
  .seq (Phrases.one_precedes _ _) reads_openParen fun _ _ _ =>
    .seq Phrases.arguments_precedes_close
      (reads_arguments fun _ => .nested reads.expression) fun _ _ _ =>
        reads_closeParen.still fun _ => still_node _

theorem reads_primary (reads : inner.Reads) (parser : Parser) :
    Reads (.ofLayer .primary) (primary inner) parser := by
  cases ahead : parser.current.token with
  | literal value =>
      exact .congr _ (primary_of_literal ahead) (.chooses (Phrases.primary_chooses_literal ahead)
        ((reads_advance ahead (by simp)).still fun _ => still_pure _))
  | identifier name =>
      refine .congr _ (primary_of_name ahead) (.chooses (Phrases.primary_chooses_name ahead)
        (.seq (Phrases.one_precedes _ _) (reads_advance ahead (by simp)) fun _ middle _ => ?_))
      refine reads_if_peek (fun opens => ?_) fun other => ?_
      · exact .chooses (Phrases.application_chooses opens) (reads_call reads)
      · exact reads_pure (.inl rfl) (Phrases.settled_application other)
  | openParen =>
      exact .congr _ (primary_of_open ahead) (.chooses (Phrases.primary_chooses_open ahead)
        (.seq (Phrases.one_precedes _ _) (reads_advance ahead (by simp)) fun _ _ _ =>
          .seq Phrases.disjunction_precedes_close (.nested reads.expression) fun _ _ _ =>
            reads_closeParen.still fun _ => still_node _))
  | _ =>
      have other : begins .primary parser.current.token = false := by simp [begins, ahead]
      exact .congr (refuse .expression) (primary_of_other other)
        (reads_refuse (Phrases.blocked_primary other))

/-- A sign and its operand, or a phrase of the layer below. -/
theorem reads_signed {layer below : Layer} {token : Token} {operand plain : Action Expr}
    {build : Lexeme → Expr → Expr} (signs : Phrases.Signs layer token below)
    (readsOperand : ∀ parser, Reads (.ofLayer layer) operand parser)
    (readsPlain : Reads (.ofLayer below) plain parser) :
    Reads (.ofLayer layer) (do
      if (← peek) = token then
        let sign ← advance
        let operand ← nested operand
        node (build sign operand)
      else plain) parser := by
  refine reads_if_peek (fun isSign => ?_) fun other => ?_
  · exact .chooses (Phrases.ofLayer_chooses_sign signs isSign)
      (.seq (Phrases.one_precedes _ _) (reads_advance isSign (by cases signs <;> simp))
        fun _ _ _ => Reads.still (.nested readsOperand) fun _ => still_node _)
  · exact .chooses (Phrases.ofLayer_chooses_below signs other) readsPlain

theorem reads_unary (reads : inner.Reads) (parser : Parser) :
    Reads (.ofLayer .unary) (unary inner) parser :=
  reads_signed .minus reads.unary (reads_primary reads parser)

theorem reads_sum (sound : inner.Sound) (reads : inner.Reads) (parser : Parser) :
    Reads (.ofLayer .sum) (sum inner) parser :=
  reads_chain .sum ((unary_sound sound).chain .product)
    (reads_chain .product (unary_sound sound) (reads_unary reads)) parser

theorem reads_comparison (sound : inner.Sound) (reads : inner.Reads) (parser : Parser) :
    Reads (.ofLayer .comparison) (comparison inner) parser := by
  unfold comparison
  refine .chooses Phrases.comparison_chooses
    (.seq Phrases.sum_precedes_compared (reads_sum sound reads parser) fun left middle _ => ?_)
  rcases operator_present_or_absent middle.current.token .comparison with
    ⟨operator, isOperator, compares⟩ | absent
  · refine .chooses (Phrases.compared_chooses isOperator compares)
      (.seq (Phrases.one_precedes _ _) (reads_operator? isOperator compares)
        fun found next ran => ?_)
    obtain rfl := operator?_eq_some isOperator compares ran
    exact (reads_sum sound reads next).still fun _ => still_node _
  · exact .congr (pure left) (bind_of_ok (operator?_of_absent absent))
      (reads_pure (.inl rfl) (Phrases.settled_compared absent))

theorem reads_negation (sound : inner.Sound) (reads : inner.Reads) (parser : Parser) :
    Reads (.ofLayer .negation) (negation inner) parser :=
  reads_signed .not reads.negation (reads_comparison sound reads parser)

theorem reads_disjunction (sound : inner.Sound) (reads : inner.Reads) (parser : Parser) :
    Reads (.ofLayer .disjunction) (disjunction inner) parser :=
  reads_chain .disjunction ((negation_sound sound).chain .conjunction)
    (reads_chain .conjunction (negation_sound sound) (reads_negation sound reads)) parser

end Layers

/-- The inner actions read their layers for however many nestings they are prepared. -/
theorem inner_reads (prepared : Nat) : (inner prepared).Reads := by
  induction prepared with
  | zero =>
      refine ⟨fun parser => ?_, fun parser => ?_, fun parser => ?_⟩
      all_goals
        refine ⟨fun _ _ ran => ?_, fun _ _ ran => ?_⟩
        · cases ran
        · cases ran
          trivial
  | succ prepared ih =>
      have sound := inner_sound prepared
      exact ⟨reads_disjunction sound ih, reads_negation sound ih, reads_unary ih⟩

theorem reads_expression (parser : Parser) : Reads (.ofLayer .disjunction) expression parser :=
  .congr (disjunction (innerAt parser)) rfl
    (reads_disjunction (inner_sound _) (inner_reads _) parser)

/-! ## The end of the text -/

/-- Nothing, at the end of the text. -/
def ending : Phrases where
  phrase lexemes := lexemes = []
  follow rest := ∀ lexeme ∈ rest.head?, lexeme.token = .endOfInput
  inhabited := ⟨[], rfl⟩

/-- An expression up to the end of the text. -/
def sentence : Phrases :=
  (Phrases.ofLayer .disjunction).seq ending

theorem reads_whole (parser : Parser) : Reads sentence whole parser := by
  have precedes : (Phrases.ofLayer .disjunction).Precedes ending := by
    rintro _ rest rfl followed lexeme first
    simp [ends, followed lexeme first]
  unfold whole
  refine .seq precedes (reads_expression parser) fun found middle _ => ?_
  refine reads_if_peek (fun _ => ?_) fun other => ?_
  · exact reads_pure rfl fun _ _ _ nothing _ _ _ => nothing
  · refine reads_refuse ?_
    rintro _ rest remaining rfl followed first rfl
    exact other (followed _ first)

theorem sentence_phrase_iff :
    sentence.phrase taken ↔ ∃ whole, Derives .disjunction taken whole := by
  constructor
  · rintro ⟨_, _, ⟨whole, derived⟩, rfl, rfl⟩
    rw [List.append_nil]
    exact ⟨whole, derived⟩
  · rintro ⟨whole, derived⟩
    exact ⟨taken, [], ⟨whole, derived⟩, rfl, (List.append_nil _).symm⟩

/-- Where the end of the text is blocked, the text is not an expression. -/
theorem not_sentence_of_blocked {ahead : Lexeme} (blocked : sentence.Blocked taken ahead)
    (ended : ahead.token = .endOfInput) : ¬sentence.phrase taken := by
  intro held
  refine blocked held (fun lexeme first => ?_) rfl (rfl : taken ++ [ahead] = taken ++ [ahead])
  cases first
  exact ended

theorem not_viable_of_blocked {ahead : Lexeme} (blocked : sentence.Blocked taken ahead) :
    ¬sentence.Viable (taken ++ [ahead]) := by
  rintro ⟨more, held⟩
  rw [List.append_assoc] at held
  refine @blocked _ [] (ahead :: more) held (fun _ none => ?_) rfl (List.append_nil _)
  cases none

end Parser

namespace Grammar

/-- The tokens of an expression. -/
def Sentence (tokens : List Token) : Prop :=
  ∃ lexemes whole, lexemes.map Lexeme.token = tokens ∧ Derives .disjunction lexemes whole

/-- The tokens that an expression begins with. -/
def ViablePrefix (tokens : List Token) : Prop :=
  ∃ more, Sentence (tokens ++ more)

/-- The labeling that makes all literals alike. -/
def veiled : Labeling := fun _ _ => ("", .null)

/-- Whether lexemes are an expression is a matter of their tokens. -/
theorem sentence_map_iff {lexemes : List Lexeme} :
    Sentence (lexemes.map Lexeme.token) ↔ ∃ whole, Derives .disjunction lexemes whole := by
  constructor
  · rintro ⟨others, whole, same, derived⟩
    have byToken : Lexeme.labeled veiled =
        (fun token => Lexeme.labeled veiled ⟨token, ⟨0, 0⟩, ""⟩) ∘ Lexeme.token := by
      funext lexeme
      cases lexeme with
      | mk token => cases token <;> rfl
    have alike : lexemes.map (Lexeme.labeled veiled) = others.map (Lexeme.labeled veiled) := by
      rw [byToken, ← List.map_map, ← List.map_map, same]
    obtain ⟨other, again, -⟩ := derived.transport alike
    exact ⟨other, again⟩
  · rintro ⟨whole, derived⟩
    exact ⟨lexemes, whole, rfl, derived⟩

theorem viablePrefix_map_iff {lexemes : List Lexeme} :
    ViablePrefix (lexemes.map Lexeme.token) ↔ Parser.sentence.Viable lexemes := by
  constructor
  · rintro ⟨tokens, held⟩
    -- Any lexemes will do for the tokens that are still to come.
    have written : tokens = (tokens.map fun token => ⟨token, ⟨0, 0⟩, ""⟩).map Lexeme.token := by
      simp [Function.comp_def]
    rw [written, ← List.map_append, sentence_map_iff] at held
    exact ⟨_, Parser.sentence_phrase_iff.mpr held⟩
  · rintro ⟨more, held⟩
    refine ⟨more.map Lexeme.token, ?_⟩
    rw [← List.map_append, sentence_map_iff]
    exact Parser.sentence_phrase_iff.mp held

end Grammar

/-! ## Refused texts -/

namespace Parser

variable {text : String} {parser last : Parser} {taken : List Lexeme}

/-- The lexemes that a parser takes are those of the text, up to the lexeme ahead. -/
theorem Takes.exists_lexemes_eq (takes : Takes parser taken last)
    (stands : (Cursor.start text).next = (.ok parser.current, parser.cursor)) :
    ∃ rest, lexemes text = taken.map .ok ++ .ok last.current :: rest := by
  obtain ⟨final, walk, ahead⟩ := takes.exists_walk stands
  obtain ⟨others, stop, walkOn, ends⟩ := Cursor.Walk.exists_last final
  rw [lexemes_eq (walk.append walkOn) ends, List.map_append, List.append_assoc]
  cases walkOn with
  | done => exact ⟨[], by rw [ahead]; rfl⟩
  | @step _ _ _ lexeme rest found _ _ =>
      rw [ahead] at found
      cases found
      exact ⟨_, rfl⟩

/-- The lexemes that a parser takes before a fault are those of the text. -/
theorem Takes.lexemes_eq_of_fault {error : LexError} (takes : Takes parser taken last)
    (stands : (Cursor.start text).next = (.ok parser.current, parser.cursor))
    (inside : last.current.token ≠ .endOfInput) (faulty : last.cursor.next.1 = .error error) :
    lexemes text = (taken ++ [last.current]).map .ok ++ [.error error] := by
  obtain ⟨final, walk, ahead⟩ := takes.exists_walk stands
  rw [lexemes_eq (walk.append (.step ahead inside .done)) (by rw [faulty]; rfl), faulty]

/-- A text is refused for a fault in its first lexeme, or for what its parser explains. -/
theorem exists_of_parse_error {error : ParseError} (failed : parse text = .error error) :
    (∃ fault, error = .lexical fault ∧ (Cursor.start text).next.1 = .error fault) ∨
      ∃ parser, (Cursor.start text).next = (.ok parser.current, parser.cursor) ∧
        Explains sentence parser error := by
  refine (parse_eq_error failed).imp_right ?_
  rintro ⟨parser, last, stands, ran⟩
  exact ⟨parser, stands, (reads_whole parser).refuses ran⟩

end Parser

/-- A text is refused at the first place where no expression can go on. Before a token that is
refused stand the tokens that an expression begins with; no expression begins with the token
as well, and where the end of the text is refused, the text before it is not an expression.
Before a lexical fault stand the tokens that an expression begins with. -/
theorem parse_refuses_earliest (text : String) :
    (∀ expected found span, parse text = .error (.unexpectedToken expected found span) →
      ∃ (before : List Lexeme) (lexeme : Lexeme) (rest : List (Except LexError Lexeme)),
        lexemes text = before.map .ok ++ .ok lexeme :: rest ∧
        lexeme.token = found ∧ lexeme.span = span ∧
        ViablePrefix (before.map Lexeme.token) ∧
        ¬ViablePrefix (before.map Lexeme.token ++ [found]) ∧
        (found = .endOfInput → ¬Sentence (before.map Lexeme.token))) ∧
    ∀ error, parse text = .error (.lexical error) →
      ∃ before : List Lexeme, lexemes text = before.map .ok ++ [.error error] ∧
        ViablePrefix (before.map Lexeme.token) := by
  constructor
  · intro expected found span failed
    rcases Parser.exists_of_parse_error failed with ⟨_, other, _⟩ |
      ⟨parser, stands, before, last, takes, rfl, rfl, viable, blocked⟩
    · cases other
    · obtain ⟨rest, whole⟩ := takes.exists_lexemes_eq stands
      refine ⟨before, last.current, rest, whole, rfl, rfl, viablePrefix_map_iff.mpr viable, ?_, ?_⟩
      · have refused := Parser.not_viable_of_blocked blocked
        rwa [← viablePrefix_map_iff, List.map_append] at refused
      · intro ended
        have refused := Parser.not_sentence_of_blocked blocked ended
        rwa [Parser.sentence_phrase_iff, ← sentence_map_iff] at refused
  · intro error failed
    rcases Parser.exists_of_parse_error failed with ⟨_, same, faulty⟩ |
      ⟨parser, stands, before, last, takes, inside, faulty, viable⟩
    · cases same
      have whole := lexemes_eq .done (by rw [faulty]; rfl)
      rw [faulty] at whole
      exact ⟨[], whole, viablePrefix_map_iff.mpr Parser.sentence.viable_nil⟩
    · exact ⟨_, takes.lexemes_eq_of_fault stands inside faulty, viablePrefix_map_iff.mpr viable⟩

/-- In `('a' 'b'` the second literal is refused. -/
theorem parse_refuses_earliest_literal :
    parse "('a' 'b'" =
        .error (.unexpectedToken .closeParen (.literal (.text "b")) ⟨5, 8⟩) ∧
      ∃ (before : List Lexeme) (lexeme : Lexeme) (rest : List (Except LexError Lexeme)),
        lexemes "('a' 'b'" = before.map .ok ++ .ok lexeme :: rest ∧ lexeme.span = ⟨5, 8⟩ ∧
        ViablePrefix (before.map Lexeme.token) ∧
        ¬ViablePrefix (before.map Lexeme.token ++ [.literal (.text "b")]) := by
  have failed : parse "('a' 'b'" =
      .error (.unexpectedToken .closeParen (.literal (.text "b")) ⟨5, 8⟩) := by cbv
  obtain ⟨before, lexeme, rest, whole, -, stands, viable, refused, -⟩ :=
    (parse_refuses_earliest "('a' 'b'").1 _ _ _ failed
  exact ⟨failed, before, lexeme, rest, whole, stands, viable, refused⟩

end QueryClause
