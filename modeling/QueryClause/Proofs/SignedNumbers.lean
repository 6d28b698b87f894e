import QueryClause.Proofs.Productions
import QueryClause.Proofs.RoundTrip

/-!
# A minus sign before a number

A minus sign that is written straight before a number becomes part of it: the two are read as
the number of the opposite sign. Trees in which such signs and numbers are already one have
the same canonical text, and the grammar still derives them.
-/

namespace QueryClause

open QueryClause.Grammar

/-! ## The number of the opposite sign -/

namespace Decimal

/-- The decimal of the opposite sign. -/
def negated (decimal : Decimal) : Decimal where
  coefficient := -decimal.coefficient
  scale := decimal.scale
  magnitude_lt := by rw [Int.natAbs_neg]; exact decimal.magnitude_lt
  scale_le := decimal.scale_le

theorem ofParts?_neg (coefficient : Int) (scale : Nat) :
    ofParts? (-coefficient) scale = (ofParts? coefficient scale).map negated := by
  simp only [ofParts?, Int.natAbs_neg]
  split <;> rfl

theorem moveLeft?_negated (decimal : Decimal) (places : Nat) :
    decimal.negated.moveLeft? places = (decimal.moveLeft? places).map negated :=
  ofParts?_neg _ _

theorem moveRight?_negated (decimal : Decimal) (places : Nat) :
    decimal.negated.moveRight? places = (decimal.moveRight? places).map negated := by
  simp only [moveRight?, negated, Int.neg_mul, ofParts?_neg]
  split
  · rfl
  · split <;> rfl

section Readers

variable {chars : List Char} (digit : Numeral.beginsWithDigit chars = true)

include digit

theorem readPlain?_minus : readPlain? ('-' :: chars) = (readPlain? chars).map negated := by
  have plain : readPlain? chars =
      readWhole 0 false chars >>= fun parts => ofParts? parts.1 parts.2 := by
    unfold readPlain?
    split
    · cases digit
    · rfl
  rw [plain, readPlain?]
  cases readWhole 0 false chars with
  | none => rfl
  | some parts => exact ofParts?_neg _ _

theorem readScientific?_minus :
    readScientific? ('-' :: chars) = (readScientific? chars).map negated := by
  have front :
      Numeral.beginsWithDigit (chars.takeWhile fun char => !isExponentMark char) = true := by
    cases chars with
    | nil => cases digit
    | cons char rest =>
        have noMark : isExponentMark char = false := by
          simp only [isExponentMark, Bool.or_eq_false_iff, beq_eq_false_iff_ne]
          constructor <;> rintro rfl <;> cases digit
        rwa [List.takeWhile_cons_of_pos (by simp [noMark])]
  have drops : ('-' :: chars).dropWhile (fun char => !isExponentMark char) =
      chars.dropWhile fun char => !isExponentMark char := rfl
  have takes : ('-' :: chars).takeWhile (fun char => !isExponentMark char) =
      '-' :: chars.takeWhile fun char => !isExponentMark char := rfl
  rw [readScientific?, readScientific?, drops, takes, readPlain?_minus front]
  cases chars.dropWhile fun char => !isExponentMark char with
  | nil => rfl
  | cons mark exponent =>
      cases readPlain? (chars.takeWhile fun char => !isExponentMark char) with
      | none => rfl
      | some base =>
          simp only [Option.map_some, Option.bind_eq_bind, Option.bind_some]
          split
          · rename_i digits
            cases readExponentDigits? digits with
            | none => rfl
            | some places => exact moveLeft?_negated base places
          · cases readExponentDigits? exponent with
            | none => rfl
            | some places => exact moveRight?_negated base places

theorem read?_minus : read? ('-' :: chars) = (read? chars).map negated := by
  rw [read?, read?, readPlain?_minus digit, readScientific?_minus digit]
  cases readPlain? chars <;> rfl

end Readers

end Decimal

theorem Numeral.value?_minus {numeral : Numeral} (digit : beginsWithDigit numeral.chars = true) :
    ({ numeral with chars := '-' :: numeral.chars } : Numeral).value? =
      numeral.value?.map Decimal.negated := by
  unfold value?
  split
  · exact Decimal.readScientific?_minus digit
  · exact Decimal.read?_minus digit

theorem Numeral.read_minus {chars : List Char} (digit : beginsWithDigit chars = true) :
    read ('-' :: chars) = { read chars with chars := '-' :: (read chars).chars } := by
  have unsigned : readSign chars = ([], chars) := by
    unfold readSign
    split
    · cases digit
    · rfl
  have signed : readSign ('-' :: chars) = (['-'], chars) := rfl
  simp only [read, unsigned, signed]
  simp

/-- A number behind a minus sign is the number of the opposite sign. -/
theorem Scanned.signed {written : List Char} {decimal : Decimal}
    (scanned : Scanned written (.literal (.number decimal)) [])
    (digit : Numeral.beginsWithDigit written = true) :
    Scanned ('-' :: written) (.literal (.number decimal.negated)) [] := by
  generalize isNumber : Token.literal (.number decimal) = token at scanned
  generalize atEnd : ([] : List Char) = rest at scanned ⊢
  cases scanned with
  | @number numeral _ starts undated read valued =>
      cases isNumber
      refine @Scanned.number { numeral with chars := '-' :: numeral.chars } _ ?_ ?_ ?_ ?_
      · exact digit
      · exact DateTime.read?_minus _
      · have bare : numeral.chars ++ numeral.rest = numeral.chars := by
          rw [← atEnd, List.append_nil]
        change Numeral.read ('-' :: (numeral.chars ++ numeral.rest)) = _
        rw [bare] at read ⊢
        rw [Numeral.read_minus digit, read]
      · rw [Numeral.value?_minus digit, valued]
        rfl
  | keyword reserved =>
      subst isNumber
      cases isReserved_of_keyword? reserved
  | _ => cases isNumber

/-! ## Trees with the signs of numbers inside -/

namespace Expr

/-- A tree behind a minus sign, which becomes part of a number. -/
def signed (span : Span) : Expr → Expr
  | .literal written (.number decimal) place =>
      if Numeral.beginsWithDigit written.toList then
        .literal ("-" ++ written) (.number decimal.negated) span
      else .unary .negate (.literal written (.number decimal) place) span
  | operand => .unary .negate operand span

mutual

/-- The tree in which every minus sign before a number is part of it. -/
def fused : Expr → Expr
  | .member path span => .member path span
  | .literal written value span => .literal written value span
  | .unary .not operand span => .unary .not operand.fused span
  | .unary .negate operand span => operand.fused.signed span
  | .binary operator left right span => .binary operator left.fused right.fused span
  | .call name arguments span => .call name (fusedAll arguments) span
  | .paren inner span => .paren inner.fused span

def fusedAll : List Expr → List Expr
  | [] => []
  | first :: rest => first.fused :: fusedAll rest

end

/-- Whether a node is a minus sign whose operand is a number that begins with a digit. -/
def negatesNumber : Expr → Bool
  | .unary .negate (.literal written (.number _) _) _ => Numeral.beginsWithDigit written.toList
  | _ => false

/-- A sign becomes part of a number, or stands before any other operand. -/
theorem signed_cases (operand : Expr) (span : Span) :
    (∃ written decimal place, operand = .literal written (.number decimal) place ∧
      Numeral.beginsWithDigit written.toList = true ∧
      operand.signed span = .literal ("-" ++ written) (.number decimal.negated) span) ∨
    ((Expr.unary .negate operand span).negatesNumber = false ∧
      operand.signed span = .unary .negate operand span) := by
  unfold signed
  split
  · rename_i written decimal place
    split
    · rename_i digit
      exact .inl ⟨written, decimal, place, rfl, digit, rfl⟩
    · rename_i noDigit
      exact .inr ⟨Bool.eq_false_iff.mpr noDigit, rfl⟩
  · rename_i noNumber
    refine .inr ⟨?_, rfl⟩
    unfold negatesNumber
    split
    · rename_i same
      cases same
      exact absurd rfl (noNumber _ _ _)
    · rfl

theorem span_signed (operand : Expr) (span : Span) : (operand.signed span).span = span := by
  rcases operand.signed_cases span with ⟨_, _, _, _, _, same⟩ | ⟨_, same⟩ <;> rw [same] <;> rfl

theorem span_fused (expression : Expr) : expression.fused.span = expression.span := by
  cases expression with
  | unary operator operand span =>
      cases operator with
      | not => rfl
      | negate => exact span_signed _ _
  | _ => rfl

theorem fused_binary (operator : BinaryOp) (left right : Expr) :
    (Expr.binary operator left right (left.span.cover right.span)).fused =
      .binary operator left.fused right.fused (left.fused.span.cover right.fused.span) := by
  rw [fused, span_fused, span_fused]

theorem spelled_writing_signed (operand : Expr) (span : Span) :
    spelled (operand.signed span).writing = '-' :: spelled operand.writing := by
  rcases operand.signed_cases span with ⟨written, _, _, rfl, _, same⟩ | ⟨_, same⟩ <;> rw [same]
  · simp [writing]
  · rfl

theorem height_signed_le (operand : Expr) (span : Span) :
    (operand.signed span).height ≤ operand.height + 1 := by
  rcases operand.signed_cases span with ⟨_, _, _, rfl, _, same⟩ | ⟨_, same⟩ <;> rw [same]
  · simp [height]
  · exact Nat.le_refl _

mutual

/-- No sign is left before a number. -/
theorem negatesNumber_fused : (whole : Expr) →
    ∀ node ∈ whole.fused.preorder, node.negatesNumber = false
  | .member .. => by simp [fused, preorder, negatesNumber]
  | .literal .. => by simp [fused, preorder, negatesNumber]
  | .unary .not operand _ => by
      simpa [fused, preorder, negatesNumber] using negatesNumber_fused operand
  | .unary .negate operand span => by
      have below := negatesNumber_fused operand
      rw [fused]
      rcases operand.fused.signed_cases span with ⟨_, _, _, _, _, same⟩ | ⟨free, same⟩ <;> rw [same]
      · simp [preorder, negatesNumber]
      · simp only [preorder, List.forall_mem_cons]
        exact ⟨free, below⟩
  | .binary _ left right _ => by
      have inLeft := negatesNumber_fused left
      have inRight := negatesNumber_fused right
      simp only [fused, preorder, List.cons_append, List.forall_mem_cons, List.forall_mem_append]
      exact ⟨rfl, inLeft, inRight⟩
  | .call _ arguments _ => by
      simpa [fused, preorder, negatesNumber] using negatesNumber_fusedAll arguments
  | .paren inner _ => by
      simpa [fused, preorder, negatesNumber] using negatesNumber_fused inner

theorem negatesNumber_fusedAll : (arguments : List Expr) →
    ∀ node ∈ preorderAll (fusedAll arguments), node.negatesNumber = false
  | [] => by simp [fusedAll, preorderAll]
  | first :: rest => by
      have inFirst := negatesNumber_fused first
      have inRest := negatesNumber_fusedAll rest
      simp only [fusedAll, preorderAll, List.forall_mem_append]
      exact ⟨inFirst, inRest⟩

end

mutual

/-- The canonical text does not tell whether a sign is part of a number. -/
theorem spelled_writing_fused : (expression : Expr) →
    spelled expression.fused.writing = spelled expression.writing
  | .member .. => rfl
  | .literal .. => rfl
  | .unary .not operand _ => by
      simp [fused, writing, spelled_writing_fused operand]
  | .unary .negate operand _ => by
      rw [fused, spelled_writing_signed, spelled_writing_fused operand]
      rfl
  | .binary _ left right _ => by
      simp [fused, writing, spelled_writing_fused left, spelled_writing_fused right]
  | .call _ arguments _ => by
      simp [fused, writing, spelled_writingAll_fused arguments]
  | .paren inner _ => by
      simp [fused, writing, spelled_writing_fused inner]

theorem spelled_writingAll_fused : (arguments : List Expr) →
    spelled (writingAll (fusedAll arguments)) = spelled (writingAll arguments)
  | [] => rfl
  | [only] => by
      rw [fusedAll, fusedAll, writingAll, writingAll, spelled_writing_fused only]
  | first :: second :: rest => by
      have others := spelled_writingAll_fused (second :: rest)
      rw [fusedAll] at others
      rw [fusedAll, fusedAll, writingAll, writingAll, spelled_append, spelled_append, spelled_word,
        spelled_word, spelled_blank, spelled_blank, spelled_writing_fused first, others]

end

mutual

theorem height_fused_le : (expression : Expr) → expression.fused.height ≤ expression.height
  | .member .. => Nat.le_refl _
  | .literal .. => Nat.le_refl _
  | .unary .not operand _ => by
      have below := height_fused_le operand
      simp only [fused, height]
      omega
  | .unary .negate operand span => by
      have below := height_fused_le operand
      have sign := height_signed_le operand.fused span
      simp only [fused, height]
      omega
  | .binary _ left right _ => by
      have inLeft := height_fused_le left
      have inRight := height_fused_le right
      simp only [fused, height]
      omega
  | .call _ arguments _ => by
      have below := greatestHeight_fusedAll_le arguments
      simp only [fused, height]
      omega
  | .paren inner _ => by
      have below := height_fused_le inner
      simp only [fused, height]
      omega

theorem greatestHeight_fusedAll_le : (arguments : List Expr) →
    greatestHeight (fusedAll arguments) ≤ greatestHeight arguments
  | [] => Nat.le_refl _
  | first :: rest => by
      have inFirst := height_fused_le first
      have inRest := greatestHeight_fusedAll_le rest
      simp only [fusedAll, greatestHeight]
      omega

end

end Expr

/-! ## Derivations -/

namespace Grammar

/-- A sign before a phrase derives the tree behind the sign. -/
theorem Derives.signed {sign : Lexeme} {lexemes : List Lexeme} {operand : Expr}
    (isMinus : sign.token = .minus)
    (isolated : sign.Plain ∧ Scanned sign.source.toList sign.token [])
    (derived : Derives .unary lexemes operand) (others : Isolated lexemes) :
    ∃ found, Derives .unary found (operand.signed (sign.span.cover operand.span)) ∧
      Isolated found := by
  rcases operand.signed_cases (sign.span.cover operand.span) with
    ⟨written, decimal, place, rfl, digit, same⟩ | ⟨_, same⟩
  · obtain ⟨lexeme, rfl, isNumber, rfl, -⟩ := derived.literal_inv
    have scanned := (isolated_singleton.mp others).2
    rw [isNumber] at scanned
    rw [same]
    refine ⟨[⟨.literal (.number decimal.negated), _, "-" ++ lexeme.source⟩],
      .lift .unary (.literal rfl),
      isolated_singleton.mpr ⟨by simp [Lexeme.Plain, Token.spelling?], ?_⟩⟩
    simpa using scanned.signed digit
  · rw [same]
    exact ⟨sign :: lexemes, .minus isMinus derived, isolated_cons.mpr ⟨isolated, others⟩⟩

mutual

/-- The grammar derives the tree in which signs are part of numbers. -/
theorem Derives.fused {layer : Layer} {lexemes : List Lexeme} {whole : Expr} :
    Derives layer lexemes whole → Isolated lexemes →
      ∃ others, Derives layer others whole.fused ∧ Isolated others
  | .chain joins operand tail, isolated => by
      rw [isolated_append] at isolated
      obtain ⟨first, derived, isolatedFirst⟩ := operand.fused isolated.1
      obtain ⟨rest, derivedTail, isolatedRest⟩ := tail.fused isolated.2
      exact ⟨first ++ rest, .chain joins derived derivedTail,
        isolated_append.mpr ⟨isolatedFirst, isolatedRest⟩⟩
  | .lift lifts inner, isolated => by
      obtain ⟨others, derived, isolatedOthers⟩ := inner.fused isolated
      exact ⟨others, .lift lifts derived, isolatedOthers⟩
  | .not isNot inner, isolated => by
      rw [isolated_cons] at isolated
      obtain ⟨others, derived, isolatedOthers⟩ := inner.fused isolated.2
      rw [Expr.fused, ← Expr.span_fused]
      exact ⟨_, .not isNot derived, isolated_cons.mpr ⟨isolated.1, isolatedOthers⟩⟩
  | .compared before isOperator compares after, isolated => by
      rw [isolated_append, isolated_cons] at isolated
      obtain ⟨first, derivedFirst, isolatedFirst⟩ := before.fused isolated.1
      obtain ⟨second, derivedSecond, isolatedSecond⟩ := after.fused isolated.2.2
      rw [Expr.fused_binary]
      exact ⟨_, .compared derivedFirst isOperator compares derivedSecond, isolated_append.mpr
        ⟨isolatedFirst, isolated_cons.mpr ⟨isolated.2.1, isolatedSecond⟩⟩⟩
  | .minus isMinus inner, isolated => by
      rw [isolated_cons] at isolated
      obtain ⟨others, derived, isolatedOthers⟩ := inner.fused isolated.2
      rw [Expr.fused, ← Expr.span_fused]
      exact derived.signed isMinus isolated.1 isolatedOthers
  | .literal isLiteral, isolated => ⟨_, .literal isLiteral, isolated⟩
  | .member isName, isolated => ⟨_, .member isName, isolated⟩
  | .callEmpty isName opens closes, isolated => ⟨_, .callEmpty isName opens closes, isolated⟩
  | .call isName opens inner closes, isolated => by
      rw [isolated_cons, isolated_cons, isolated_append] at isolated
      obtain ⟨others, derived, isolatedOthers⟩ := inner.fused isolated.2.2.1
      exact ⟨_, .call isName opens derived closes, isolated_cons.mpr ⟨isolated.1,
        isolated_cons.mpr ⟨isolated.2.1, isolated_append.mpr ⟨isolatedOthers, isolated.2.2.2⟩⟩⟩⟩
  | .paren opens inner closes, isolated => by
      rw [isolated_cons, isolated_append] at isolated
      obtain ⟨others, derived, isolatedOthers⟩ := inner.fused isolated.2.1
      exact ⟨_, .paren opens derived closes, isolated_cons.mpr ⟨isolated.1,
        isolated_append.mpr ⟨isolatedOthers, isolated.2.2⟩⟩⟩

theorem Tail.fused {tier : Tier} {below : Layer} {left whole : Expr} {lexemes : List Lexeme} :
    Tail tier below left lexemes whole → Isolated lexemes →
      ∃ others, Tail tier below left.fused others whole.fused ∧ Isolated others
  | .done, isolated => ⟨[], .done, isolated⟩
  | .more isOperator inTier operand tail, isolated => by
      rw [isolated_cons, isolated_append] at isolated
      obtain ⟨found, derived, isolatedFound⟩ := operand.fused isolated.2.1
      obtain ⟨rest, derivedTail, isolatedRest⟩ := tail.fused isolated.2.2
      rw [Expr.fused_binary] at derivedTail
      exact ⟨_, .more isOperator inTier derived derivedTail, isolated_cons.mpr ⟨isolated.1,
        isolated_append.mpr ⟨isolatedFound, isolatedRest⟩⟩⟩

theorem Arguments.fused {lexemes : List Lexeme} {arguments : List Expr} :
    Arguments lexemes arguments → Isolated lexemes →
      ∃ others, Arguments others (Expr.fusedAll arguments) ∧ Isolated others
  | .last inner, isolated => by
      obtain ⟨others, derived, isolatedOthers⟩ := inner.fused isolated
      exact ⟨others, .last derived, isolatedOthers⟩
  | .more inner divides tail, isolated => by
      rw [isolated_append, isolated_cons] at isolated
      obtain ⟨first, derived, isolatedFirst⟩ := inner.fused isolated.1
      obtain ⟨rest, derivedRest, isolatedRest⟩ := tail.fused isolated.2.2
      exact ⟨_, .more derived divides derivedRest, isolated_append.mpr ⟨isolatedFirst,
        isolated_cons.mpr ⟨isolated.2.1, isolatedRest⟩⟩⟩

end

end Grammar

end QueryClause
