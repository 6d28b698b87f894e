import QueryClause.Proofs.Productions

/-!
# Phrases and the lexeme ahead

Reading a kind of phrase from left to right, one lexeme ahead decides how to go on. What has
been read is viable if a phrase begins with it. It is settled before the lexeme ahead if a
phrase there can be nothing else, and blocked if there can be no phrase at all.

The kinds of phrases of the grammar are taken apart into sequences, each for the lexemes ahead
that choose it.
-/

namespace QueryClause.Grammar

/-- A kind of phrase, and what may follow it. -/
structure Phrases where
  phrase : List Lexeme → Prop
  follow : List Lexeme → Prop
  inhabited : ∃ lexemes, phrase lexemes

namespace Phrases

variable {kind other first second : Phrases} {taken more : List Lexeme} {ahead next : Lexeme}

/-- Some phrase begins with the lexemes. -/
def Viable (kind : Phrases) (taken : List Lexeme) : Prop :=
  ∃ more, kind.phrase (taken ++ more)

/-- Before the lexeme ahead, the lexemes are the only phrase that can be followed. -/
def Settled (kind : Phrases) (taken : List Lexeme) (ahead : Lexeme) : Prop :=
  ∀ ⦃lexemes rest remaining : List Lexeme⦄, kind.phrase lexemes → kind.follow rest →
    remaining.head? = some ahead → lexemes ++ rest = taken ++ remaining → lexemes = taken

/-- No phrase that can be followed begins with the lexemes, or is a part of them, where the
lexeme ahead comes next. -/
def Blocked (kind : Phrases) (taken : List Lexeme) (ahead : Lexeme) : Prop :=
  ∀ ⦃lexemes rest remaining : List Lexeme⦄, kind.phrase lexemes → kind.follow rest →
    remaining.head? = some ahead → lexemes ++ rest ≠ taken ++ remaining

theorem viable_nil (kind : Phrases) : kind.Viable [] :=
  kind.inhabited

theorem viable_of_phrase (held : kind.phrase taken) : kind.Viable taken :=
  ⟨[], by rwa [List.append_nil]⟩

/-! ## Single tokens and sequences -/

/-- The phrases of a single token. -/
def one (token : Token) : Phrases where
  phrase lexemes := ∃ lexeme, lexeme.token = token ∧ lexemes = [lexeme]
  follow _ := True
  inhabited := ⟨[⟨token, ⟨0, 0⟩, ""⟩], _, rfl, rfl⟩

theorem settled_one {token : Token} {lexeme : Lexeme} : (one token).Settled [lexeme] ahead := by
  rintro _ rest remaining ⟨same, -, rfl⟩ - - whole
  obtain ⟨rfl, -⟩ := List.cons.inj whole
  rfl

theorem blocked_one {token : Token} (differs : ahead.token ≠ token) :
    (one token).Blocked [] ahead := by
  rintro _ rest remaining ⟨lexeme, isToken, rfl⟩ - begins rfl
  cases begins
  exact differs isToken

/-- A phrase of one kind, and then one of another. -/
def seq (first second : Phrases) : Phrases where
  phrase lexemes := ∃ before after, first.phrase before ∧ second.phrase after ∧
    lexemes = before ++ after
  follow := second.follow
  inhabited := by
    obtain ⟨before, heldBefore⟩ := first.inhabited
    obtain ⟨after, heldAfter⟩ := second.inhabited
    exact ⟨_, before, after, heldBefore, heldAfter, rfl⟩

/-- Every phrase of the second kind, with what may follow it, may follow the first kind. -/
def Precedes (first second : Phrases) : Prop :=
  ∀ ⦃lexemes rest : List Lexeme⦄, second.phrase lexemes → second.follow rest →
    first.follow (lexemes ++ rest)

theorem one_precedes (token : Token) (second : Phrases) : (one token).Precedes second :=
  fun _ _ _ _ => trivial

theorem Viable.seq (viable : first.Viable taken) : (first.seq second).Viable taken := by
  obtain ⟨rest, held⟩ := viable
  obtain ⟨after, heldAfter⟩ := second.inhabited
  exact ⟨rest ++ after, _, after, held, heldAfter, by rw [List.append_assoc]⟩

theorem viable_seq_append (held : first.phrase taken) (viable : second.Viable more) :
    (first.seq second).Viable (taken ++ more) := by
  obtain ⟨rest, heldAfter⟩ := viable
  exact ⟨rest, taken, _, held, heldAfter, by rw [List.append_assoc]⟩

theorem Blocked.seq (precedes : first.Precedes second) (blocked : first.Blocked taken ahead) :
    (first.seq second).Blocked taken ahead := by
  rintro _ rest remaining ⟨before, after, held, heldAfter, rfl⟩ followed begins whole
  rw [List.append_assoc] at whole
  exact blocked held (precedes heldAfter followed) begins whole

/-- A phrase of the first kind that is settled is what a sequence begins with. -/
theorem Settled.eq_of_seq (precedes : first.Precedes second) (settled : first.Settled taken ahead)
    {before after rest remaining : List Lexeme} (held : first.phrase before)
    (heldAfter : second.phrase after) (followed : second.follow rest)
    (begins : (more ++ remaining).head? = some ahead)
    (whole : before ++ after ++ rest = taken ++ more ++ remaining) :
    before = taken ∧ after ++ rest = more ++ remaining := by
  rw [List.append_assoc, List.append_assoc] at whole
  obtain rfl := settled held (precedes heldAfter followed) begins whole
  exact ⟨rfl, List.append_cancel_left whole⟩

theorem Settled.seq_blocked (precedes : first.Precedes second)
    (settled : first.Settled taken ahead) (blocked : second.Blocked more next)
    (begins : ∀ remaining : List Lexeme, remaining.head? = some next →
      (more ++ remaining).head? = some ahead) :
    (first.seq second).Blocked (taken ++ more) next := by
  rintro _ rest remaining ⟨before, after, held, heldAfter, rfl⟩ followed isNext whole
  obtain ⟨-, same⟩ := settled.eq_of_seq precedes held heldAfter followed
    (begins remaining isNext) whole
  exact blocked heldAfter followed isNext same

theorem Settled.seq (precedes : first.Precedes second) (settled : first.Settled taken ahead)
    (settledMore : second.Settled more next)
    (begins : ∀ remaining : List Lexeme, remaining.head? = some next →
      (more ++ remaining).head? = some ahead) :
    (first.seq second).Settled (taken ++ more) next := by
  rintro _ rest remaining ⟨before, after, held, heldAfter, rfl⟩ followed isNext whole
  obtain ⟨rfl, same⟩ := settled.eq_of_seq precedes held heldAfter followed
    (begins remaining isNext) whole
  rw [settledMore heldAfter followed isNext same]

/-- Where the lexeme ahead comes first, the phrases of a kind are those of another. -/
structure Chooses (kind : Phrases) (ahead : Lexeme) (other : Phrases) : Prop where
  sound : ∀ ⦃lexemes : List Lexeme⦄, other.phrase lexemes → kind.phrase lexemes
  complete : ∀ ⦃lexemes rest : List Lexeme⦄, kind.phrase lexemes → kind.follow rest →
    (lexemes ++ rest).head? = some ahead → other.phrase lexemes ∧ other.follow rest

/-- A phrase, or nothing. -/
def optional (kind : Phrases) (follow : List Lexeme → Prop) : Phrases where
  phrase lexemes := lexemes = [] ∨ kind.phrase lexemes
  follow := follow
  inhabited := ⟨[], .inl rfl⟩

section Optional

variable {follow : List Lexeme → Prop}

theorem settled_optional (absent : ∀ ⦃lexemes rest : List Lexeme⦄, kind.phrase lexemes →
    (lexemes ++ rest).head? ≠ some ahead) : (kind.optional follow).Settled [] ahead := by
  rintro lexemes rest remaining held - begins same
  rcases held with rfl | held
  · rfl
  · rw [List.nil_append] at same
    rw [← same] at begins
    exact absurd begins (absent held)

/-- A phrase is there where the lexeme ahead cannot follow. -/
theorem optional_chooses (present : ∀ ⦃rest : List Lexeme⦄, follow rest → rest.head? ≠ some ahead)
    (follows : ∀ ⦃rest : List Lexeme⦄, follow rest → kind.follow rest) :
    (kind.optional follow).Chooses ahead kind where
  sound := fun _ held => .inr held
  complete := by
    rintro lexemes rest (rfl | held) followed begins
    · exact absurd begins (present followed)
    · exact ⟨held, follows followed⟩

end Optional

theorem Chooses.trans (chooses : kind.Chooses ahead other) (again : other.Chooses ahead first) :
    kind.Chooses ahead first where
  sound := fun _ held => chooses.sound (again.sound held)
  complete := fun _ _ held followed begins =>
    let found := chooses.complete held followed begins
    again.complete found.1 found.2 begins

end Phrases

/-! ## The kinds of phrases of the grammar -/

/-- A literal can stand wherever an expression can. -/
theorem exists_phrase : (layer : Layer) → ∃ lexemes whole, Derives layer lexemes whole := by
  have primary : Derives .primary [⟨.literal .null, ⟨0, 0⟩, "null"⟩]
      (.literal "null" .null ⟨0, 0⟩) := .literal rfl
  have sum := ((Derives.lift .unary primary).alone .product).alone .sum
  have negation := Derives.lift .negation (.lift .comparison sum)
  intro layer
  cases layer with
  | disjunction => exact ⟨_, _, (negation.alone .conjunction).alone .disjunction⟩
  | conjunction => exact ⟨_, _, negation.alone .conjunction⟩
  | negation => exact ⟨_, _, negation⟩
  | comparison => exact ⟨_, _, .lift .comparison sum⟩
  | sum => exact ⟨_, _, sum⟩
  | product => exact ⟨_, _, (Derives.lift .unary primary).alone .product⟩
  | unary => exact ⟨_, _, .lift .unary primary⟩
  | primary => exact ⟨_, _, primary⟩

namespace Phrases

/-- The phrases of a layer. -/
def ofLayer (layer : Layer) : Phrases where
  phrase lexemes := ∃ whole, Derives layer lexemes whole
  follow := EndsBefore layer
  inhabited := exists_phrase layer

/-- How a chain can go on. -/
def links (layer : Layer) (tier : Tier) (below : Layer) : Phrases where
  phrase lexemes := ∀ left, ∃ whole, Tail tier below left lexemes whole
  follow := EndsBefore layer
  inhabited := ⟨[], fun left => ⟨left, .done⟩⟩

/-- A comparison operator and its right operand. -/
def compared : Phrases where
  phrase lexemes := ∃ sign operator second right, sign.token = .binary operator ∧
    operator ∈ operators .comparison ∧ Derives .sum second right ∧ lexemes = sign :: second
  follow := EndsBefore .sum
  inhabited := by
    obtain ⟨second, right, derived⟩ := exists_phrase .sum
    exact ⟨_, ⟨.binary .eq, ⟨0, 0⟩, "eq"⟩, .eq, second, right, rfl, by decide, derived, rfl⟩

/-- What follows begins with a closing parenthesis. -/
def Closes (rest : List Lexeme) : Prop :=
  ∀ lexeme ∈ rest.head?, lexeme.token = .closeParen

/-- One or more arguments. -/
def someArguments : Phrases where
  phrase lexemes := ∃ arguments, Arguments lexemes arguments
  follow := Closes
  inhabited := by
    obtain ⟨lexemes, whole, derived⟩ := exists_phrase .disjunction
    exact ⟨lexemes, _, .last derived⟩

/-- The arguments of a call, if there are any. -/
def arguments : Phrases :=
  someArguments.optional Closes

/-- The arguments after a comma, if there are more. -/
def moreArguments : Phrases :=
  ((one .comma).seq someArguments).optional Closes

/-- Arguments between parentheses, if a name is that of a function. -/
def application : Phrases :=
  ((one .openParen).seq (arguments.seq (one .closeParen))).optional (EndsBefore .primary)

variable {ahead : Lexeme} {layer below : Layer} {tier : Tier}

/-! ### Chains -/

theorem ofLayer_precedes_links (joins : Joins layer tier below) :
    (ofLayer below).Precedes (links layer tier below) := by
  intro lexemes rest held followed
  obtain ⟨whole, tail⟩ := held (.member "" ⟨0, 0⟩)
  exact tail.endsBefore joins followed

theorem ofLayer_chooses_links (joins : Joins layer tier below) :
    (ofLayer layer).Chooses ahead ((ofLayer below).seq (links layer tier below)) where
  sound := by
    rintro _ ⟨first, rest, ⟨left, derived⟩, held, rfl⟩
    obtain ⟨whole, tail⟩ := held left
    exact ⟨whole, .chain joins derived tail⟩
  complete := by
    rintro lexemes rest ⟨whole, derived⟩ followed -
    obtain ⟨first, last, left, rfl, operand, tail⟩ := derived.exists_tail joins
    exact ⟨⟨first, last, ⟨left, operand⟩, fun other => tail.exists_after other, rfl⟩, followed⟩

/-- No operator of its tier follows a chain. -/
theorem head?_ne_of_endsBefore {operator : BinaryOp} {rest : List Lexeme}
    (followed : EndsBefore layer rest) (isOperator : ahead.token = .binary operator)
    (inLayer : layerRank layer ≤ tierRank operator.tier) : rest.head? ≠ some ahead := by
  intro begins
  have ended := followed ahead begins
  simp only [ends, isOperator, decide_eq_true_eq] at ended
  omega

theorem links_chooses {operator : BinaryOp} (joins : Joins layer tier below)
    (isOperator : ahead.token = .binary operator) (inTier : operator ∈ operators tier) :
    (links layer tier below).Chooses ahead
      ((one (.binary operator)).seq ((ofLayer below).seq (links layer tier below))) where
  sound := by
    rintro _ ⟨_, _, ⟨sign, isSign, rfl⟩, ⟨first, rest, ⟨right, derived⟩, held, rfl⟩, rfl⟩ left
    obtain ⟨whole, tail⟩ := held (.binary operator left right (left.span.cover right.span))
    refine ⟨whole, ?_⟩
    rw [List.singleton_append]
    exact .more isSign inTier derived tail
  complete := by
    intro lexemes rest held followed begins
    obtain ⟨whole, tail⟩ := held (.member "" ⟨0, 0⟩)
    cases tail with
    | done =>
        refine absurd begins (head?_ne_of_endsBefore followed isOperator (Nat.le_of_eq ?_))
        rw [mem_operators.mp inTier, joins.layerRank_eq]
    | more isSign inTierAgain operand tail =>
        cases begins
        rw [isOperator] at isSign
        exact ⟨⟨[ahead], _, ⟨ahead, isOperator, rfl⟩,
          ⟨_, _, ⟨_, operand⟩, fun other => tail.exists_after other, rfl⟩, rfl⟩, followed⟩

theorem settled_links
    (absent : ∀ operator, ahead.token = .binary operator → operator ∉ operators tier) :
    (links layer tier below).Settled [] ahead := by
  intro lexemes rest remaining held _ begins same
  obtain ⟨whole, tail⟩ := held (.member "" ⟨0, 0⟩)
  cases tail with
  | done => rfl
  | more isSign inTier =>
      rw [List.nil_append] at same
      rw [← same] at begins
      cases begins
      exact absurd inTier (absent _ isSign)

/-! ### Comparisons -/

theorem sum_precedes_compared :
    (ofLayer .sum).Precedes (compared.optional (EndsBefore .comparison)) := by
  rintro _ rest (rfl | ⟨sign, operator, second, right, isOperator, compares, -, rfl⟩) followed
  · exact followed.of_le (by decide)
  · exact endsBefore_cons.mpr (ends_comparison isOperator compares).1

theorem comparison_chooses :
    (ofLayer .comparison).Chooses ahead
      ((ofLayer .sum).seq (compared.optional (EndsBefore .comparison))) where
  sound := by
    rintro _ ⟨first, _, ⟨left, before⟩, rfl |
      ⟨sign, operator, second, right, isOperator, compares, after, rfl⟩, rfl⟩
    · rw [List.append_nil]
      exact ⟨left, .lift .comparison before⟩
    · exact ⟨_, .compared before isOperator compares after⟩
  complete := by
    rintro lexemes rest ⟨whole, derived⟩ followed -
    refine ⟨?_, followed⟩
    cases derived with
    | chain joins => cases joins
    | lift lifts inner =>
        cases lifts
        exact ⟨lexemes, [], ⟨whole, inner⟩, .inl rfl, by rw [List.append_nil]⟩
    | compared before isOperator compares after =>
        exact ⟨_, _, ⟨_, before⟩, .inr ⟨_, _, _, _, isOperator, compares, after, rfl⟩, rfl⟩

theorem compared_chooses {operator : BinaryOp} (isOperator : ahead.token = .binary operator)
    (compares : operator ∈ operators .comparison) :
    (compared.optional (EndsBefore .comparison)).Chooses ahead
      ((one (.binary operator)).seq (ofLayer .sum)) := by
  refine (optional_chooses ?_ fun rest followed => followed.of_le (by decide)).trans ⟨?_, ?_⟩
  · intro rest followed
    exact head?_ne_of_endsBefore followed isOperator (by rw [mem_operators.mp compares]; decide)
  · rintro _ ⟨_, second, ⟨sign, isSign, rfl⟩, ⟨right, derived⟩, rfl⟩
    exact ⟨sign, operator, second, right, isSign, compares, derived, rfl⟩
  · rintro _ rest ⟨sign, other, second, right, -, -, derived, rfl⟩ followed begins
    cases begins
    exact ⟨⟨[ahead], second, ⟨ahead, isOperator, rfl⟩, ⟨right, derived⟩, rfl⟩, followed⟩

theorem settled_compared
    (absent : ∀ operator, ahead.token = .binary operator → operator ∉ operators .comparison) :
    (compared.optional (EndsBefore .comparison)).Settled [] ahead := by
  refine settled_optional ?_
  rintro _ rest ⟨sign, operator, second, right, isOperator, compares, -, rfl⟩ begins
  cases begins
  exact absent operator isOperator compares

/-! ### Signs -/

/-- The layers in which a sign can stand before a phrase of the same layer. -/
inductive Signs : Layer → Token → Layer → Prop where
  | not : Signs .negation .not .comparison
  | minus : Signs .unary .minus .primary

theorem Signs.exists_derives {token : Token} (signs : Signs layer token below) {sign : Lexeme}
    {lexemes : List Lexeme} {operand : Expr} (isSign : sign.token = token)
    (derived : Derives layer lexemes operand) : ∃ whole, Derives layer (sign :: lexemes) whole := by
  cases signs with
  | not => exact ⟨_, .not isSign derived⟩
  | minus => exact ⟨_, .minus isSign derived⟩

/-- A phrase of such a layer has a sign, or belongs to the layer below. -/
theorem Signs.cases {token : Token} (signs : Signs layer token below) {lexemes : List Lexeme}
    {whole : Expr} (derived : Derives layer lexemes whole) :
    (∃ sign rest operand, sign.token = token ∧ lexemes = sign :: rest ∧
      Derives layer rest operand) ∨ Derives below lexemes whole := by
  cases signs with
  | not =>
      cases derived with
      | chain joins => cases joins
      | not isSign inner => exact .inl ⟨_, _, _, isSign, rfl, inner⟩
      | lift lifts inner =>
          cases lifts
          exact .inr inner
  | minus =>
      cases derived with
      | chain joins => cases joins
      | minus isSign inner => exact .inl ⟨_, _, _, isSign, rfl, inner⟩
      | lift lifts inner =>
          cases lifts
          exact .inr inner

theorem Signs.lifts {token : Token} (signs : Signs layer token below) : Lifts layer below := by
  cases signs <;> constructor

theorem Signs.begins_eq_false {token : Token} (signs : Signs layer token below) :
    begins below token = false := by
  cases signs <;> rfl

theorem ofLayer_chooses_sign {token : Token} (signs : Signs layer token below)
    (isSign : ahead.token = token) :
    (ofLayer layer).Chooses ahead ((one token).seq (ofLayer layer)) where
  sound := by
    rintro _ ⟨_, lexemes, ⟨sign, isSign, rfl⟩, ⟨operand, derived⟩, rfl⟩
    exact signs.exists_derives isSign derived
  complete := by
    rintro lexemes rest ⟨whole, derived⟩ followed first
    refine ⟨?_, followed⟩
    rcases signs.cases derived with ⟨sign, others, operand, isAgain, rfl, inner⟩ | inner
    · exact ⟨[sign], others, ⟨sign, isAgain, rfl⟩, ⟨operand, inner⟩, rfl⟩
    · obtain ⟨start, others, rfl, starts⟩ := inner.head
      cases first
      rw [isSign, signs.begins_eq_false] at starts
      cases starts

theorem ofLayer_chooses_below {token : Token} (signs : Signs layer token below)
    (absent : ahead.token ≠ token) : (ofLayer layer).Chooses ahead (ofLayer below) where
  sound := by
    rintro lexemes ⟨whole, derived⟩
    exact ⟨whole, .lift signs.lifts derived⟩
  complete := by
    rintro lexemes rest ⟨whole, derived⟩ followed first
    rcases signs.cases derived with ⟨sign, others, operand, isSign, rfl, -⟩ | inner
    · cases first
      exact absurd isSign absent
    · exact ⟨⟨whole, inner⟩, EndsBefore.of_le followed signs.lifts.layerRank_le⟩

/-! ### Primary expressions -/

theorem primary_chooses_literal {value : Value} (isLiteral : ahead.token = .literal value) :
    (ofLayer .primary).Chooses ahead (one (.literal value)) where
  sound := by
    rintro _ ⟨lexeme, isToken, rfl⟩
    exact ⟨_, .literal isToken⟩
  complete := by
    rintro lexemes rest ⟨whole, derived⟩ - first
    refine ⟨?_, trivial⟩
    cases derived with
    | chain joins => cases joins
    | lift lifts => cases lifts
    | _ =>
        cases first
        simp_all [one]

theorem primary_chooses_name {name : String} (isName : ahead.token = .identifier name) :
    (ofLayer .primary).Chooses ahead ((one (.identifier name)).seq application) where
  sound := by
    rintro _ ⟨_, _, ⟨lexeme, isToken, rfl⟩, rfl |
      ⟨_, _, ⟨opening, opens, rfl⟩, ⟨_, _, rfl | ⟨arguments, derived⟩, ⟨closing, closes, rfl⟩, rfl⟩,
        rfl⟩, rfl⟩
    · exact ⟨_, .member isToken⟩
    · exact ⟨_, .callEmpty isToken opens closes⟩
    · exact ⟨_, .call isToken opens derived closes⟩
  complete := by
    rintro lexemes rest ⟨whole, derived⟩ followed first
    refine ⟨?_, followed⟩
    cases derived with
    | chain joins => cases joins
    | lift lifts => cases lifts
    | member isToken =>
        cases first
        exact ⟨[ahead], [], ⟨ahead, isName, rfl⟩, .inl rfl, rfl⟩
    | callEmpty isToken opens closes =>
        cases first
        exact ⟨[ahead], _, ⟨ahead, isName, rfl⟩,
          .inr ⟨[_], _, ⟨_, opens, rfl⟩, ⟨[], [_], .inl rfl, ⟨_, closes, rfl⟩, rfl⟩, rfl⟩, rfl⟩
    | call isToken opens inner closes =>
        cases first
        exact ⟨[ahead], _, ⟨ahead, isName, rfl⟩,
          .inr ⟨[_], _, ⟨_, opens, rfl⟩, ⟨_, [_], .inr ⟨_, inner⟩, ⟨_, closes, rfl⟩, rfl⟩, rfl⟩,
          rfl⟩
    | _ =>
        cases first
        simp_all

theorem primary_chooses_open (opens : ahead.token = .openParen) :
    (ofLayer .primary).Chooses ahead
      ((one .openParen).seq ((ofLayer .disjunction).seq (one .closeParen))) where
  sound := by
    rintro _ ⟨_, _, ⟨opening, opens, rfl⟩,
      ⟨lexemes, _, ⟨inside, derived⟩, ⟨closing, closes, rfl⟩, rfl⟩, rfl⟩
    exact ⟨_, .paren opens derived closes⟩
  complete := by
    rintro lexemes rest ⟨whole, derived⟩ - first
    refine ⟨?_, trivial⟩
    cases derived with
    | chain joins => cases joins
    | lift lifts => cases lifts
    | paren opensAgain inner closes =>
        cases first
        exact ⟨[ahead], _, ⟨ahead, opens, rfl⟩, ⟨_, [_], ⟨_, inner⟩, ⟨_, closes, rfl⟩, rfl⟩, rfl⟩
    | _ =>
        cases first
        simp_all

theorem blocked_primary (other : begins .primary ahead.token = false) :
    (ofLayer .primary).Blocked [] ahead := by
  rintro lexemes rest remaining ⟨whole, derived⟩ - first rfl
  obtain ⟨start, others, rfl, starts⟩ := derived.head
  cases first
  rw [other] at starts
  cases starts

/-! ### Arguments -/

theorem application_chooses (opens : ahead.token = .openParen) :
    application.Chooses ahead ((one .openParen).seq (arguments.seq (one .closeParen))) := by
  refine optional_chooses (fun rest followed first => ?_) fun _ _ => trivial
  have ended := followed ahead first
  simp [ends, opens] at ended

theorem settled_application (absent : ahead.token ≠ .openParen) :
    application.Settled [] ahead := by
  refine settled_optional ?_
  rintro _ rest ⟨_, _, ⟨opening, opens, rfl⟩, -, rfl⟩ first
  cases first
  exact absent opens

theorem disjunction_precedes_close : (ofLayer .disjunction).Precedes (one .closeParen) := by
  rintro _ rest ⟨closing, closes, rfl⟩ -
  exact endsBefore_cons.mpr (by simp [ends, closes])

theorem arguments_precedes_close : arguments.Precedes (one .closeParen) := by
  rintro _ rest ⟨closing, closes, rfl⟩ - lexeme first
  cases first
  exact closes

theorem arguments_chooses (absent : ahead.token ≠ .closeParen) :
    arguments.Chooses ahead someArguments :=
  optional_chooses (fun _ followed first => absent (followed ahead first))
    fun _ followed => followed

theorem settled_arguments (closes : ahead.token = .closeParen) : arguments.Settled [] ahead := by
  refine settled_optional ?_
  rintro lexemes rest ⟨found, derived⟩ first
  obtain ⟨start, others, rfl, starts⟩ := derived.head
  cases first
  simp [begins, closes] at starts

theorem disjunction_precedes_moreArguments :
    (ofLayer .disjunction).Precedes moreArguments := by
  rintro _ rest (rfl | ⟨_, _, ⟨comma, divides, rfl⟩, -, rfl⟩) followed
  · intro lexeme first
    simp [ends, followed lexeme first]
  · exact endsBefore_cons.mpr (by simp [ends, divides])

theorem someArguments_chooses :
    someArguments.Chooses ahead ((ofLayer .disjunction).seq moreArguments) where
  sound := by
    rintro _ ⟨first, _, ⟨argument, derived⟩, rfl |
      ⟨_, rest, ⟨comma, divides, rfl⟩, ⟨others, tail⟩, rfl⟩, rfl⟩
    · rw [List.append_nil]
      exact ⟨_, .last derived⟩
    · exact ⟨_, .more derived divides tail⟩
  complete := by
    rintro lexemes rest ⟨found, derived⟩ followed -
    refine ⟨?_, followed⟩
    cases derived with
    | last inner => exact ⟨lexemes, [], ⟨_, inner⟩, .inl rfl, by rw [List.append_nil]⟩
    | more inner divides tail =>
        exact ⟨_, _, ⟨_, inner⟩, .inr ⟨[_], _, ⟨_, divides, rfl⟩, ⟨_, tail⟩, rfl⟩, rfl⟩

theorem moreArguments_chooses (divides : ahead.token = .comma) :
    moreArguments.Chooses ahead ((one .comma).seq someArguments) := by
  refine optional_chooses (fun rest followed first => ?_) fun _ followed => followed
  have closes := followed ahead first
  rw [divides] at closes
  cases closes

theorem settled_moreArguments (absent : ahead.token ≠ .comma) :
    moreArguments.Settled [] ahead := by
  refine settled_optional ?_
  rintro _ rest ⟨_, _, ⟨comma, divides, rfl⟩, -, rfl⟩ first
  cases first
  exact absent divides

end Phrases

end QueryClause.Grammar
