import Mathlib
import QueryClause.Command
import QueryClause.Proofs.Delimiters
import QueryClause.Proofs.SignedNumbers
import QueryClause.Proofs.Slices

/-!
# Canonical texts of canonical texts

The canonical text of a parsed tree is accepted and is its own canonical text, unless it
writes a minus sign straight before a date-time. The sign and the year are then read as a
number, and so are the month and the dash before it: two literals in a row, which no
expression has.
-/

namespace QueryClause

open QueryClause.Text QueryClause.Grammar

/-! ## Signs before dates -/

namespace Expr

/-- Whether a node is a minus sign whose operand is a date-time. -/
def negatesDate : Expr → Bool
  | .unary .negate (.literal _ (.timestamp _) _) _ => true
  | _ => false

theorem negatesDate_fused (operand : Expr) (span : Span) :
    (Expr.unary .negate operand.fused span).negatesDate =
      (Expr.unary .negate operand span).negatesDate := by
  cases operand with
  | unary operator inner place =>
      cases operator with
      | not => rfl
      | negate =>
          rw [fused]
          rcases inner.fused.signed_cases place with
            ⟨_, _, _, _, _, same⟩ | ⟨_, same⟩ <;> rw [same] <;> rfl
  | _ => rfl

mutual

/-- The signs before dates stay when those before numbers become part of them. -/
theorem forall_negatesDate_fused : (whole : Expr) →
    ((∀ node ∈ whole.fused.preorder, node.negatesDate = false) ↔
      ∀ node ∈ whole.preorder, node.negatesDate = false)
  | .member .. => Iff.rfl
  | .literal .. => Iff.rfl
  | .unary .not operand _ => by
      simpa [fused, preorder, negatesDate] using forall_negatesDate_fused operand
  | .unary .negate operand span => by
      have below := forall_negatesDate_fused operand
      have sign := negatesDate_fused operand span
      rw [fused, preorder, List.forall_mem_cons, ← below, ← sign]
      rcases operand.fused.signed_cases span with
        ⟨_, _, _, isNumber, _, same⟩ | ⟨_, same⟩ <;> rw [same]
      · simp [isNumber, preorder, negatesDate]
      · rw [preorder, List.forall_mem_cons]
  | .binary _ left right _ => by
      have inLeft := forall_negatesDate_fused left
      have inRight := forall_negatesDate_fused right
      simp only [fused, preorder, List.cons_append, List.forall_mem_cons, List.forall_mem_append,
        inLeft, inRight]
      exact Iff.rfl
  | .call _ arguments _ => by
      simpa [fused, preorder, negatesDate] using forall_negatesDate_fusedAll arguments
  | .paren inner _ => by
      simpa [fused, preorder, negatesDate] using forall_negatesDate_fused inner

theorem forall_negatesDate_fusedAll : (arguments : List Expr) →
    ((∀ node ∈ preorderAll (fusedAll arguments), node.negatesDate = false) ↔
      ∀ node ∈ preorderAll arguments, node.negatesDate = false)
  | [] => Iff.rfl
  | first :: rest => by
      have inFirst := forall_negatesDate_fused first
      have inRest := forall_negatesDate_fusedAll rest
      simp only [fusedAll, preorderAll, List.forall_mem_append, inFirst, inRest]

end

end Expr

/-! ## The first sign before a date -/

/-- The marks fit together up to a minus sign that stands before a date-time. -/
def Dated (marks : List Mark) (rest : List Char) : Prop :=
  ∃ before value written after,
    marks = before ++ .word .minus "-" :: .word (.literal (.timestamp value)) written :: after ∧
    Fit before ('-' :: (written.toList ++ (spelled after ++ rest)))

/-- The marks fit together, all of them or up to a sign before a date-time. -/
def FitOrDated (marks : List Mark) (rest : List Char) : Prop :=
  Fit marks rest ∨ Dated marks rest

theorem FitOrDated.append {first second : List Mark} {rest : List Char}
    (before : FitOrDated first (spelled second ++ rest)) (after : FitOrDated second rest) :
    FitOrDated (first ++ second) rest := by
  rcases before with fitFirst | ⟨front, value, written, behind, rfl, fitFront⟩
  · rcases after with fitSecond | ⟨front, value, written, behind, rfl, fitFront⟩
    · exact .inl (fit_append.mpr ⟨fitFirst, fitSecond⟩)
    · refine .inr ⟨first ++ front, value, written, behind, by rw [List.append_assoc], ?_⟩
      rw [fit_append]
      refine ⟨?_, fitFront⟩
      simpa using fitFirst
  · refine .inr ⟨front, value, written, behind ++ second, by simp, ?_⟩
    simpa using fitFront

theorem FitOrDated.word {token : Token} {written : String} {marks : List Mark} {rest : List Char}
    (scanned : Scanned written.toList token (spelled marks ++ rest))
    (others : FitOrDated marks rest) : FitOrDated (.word token written :: marks) rest := by
  have front : FitOrDated [.word token written] (spelled marks ++ rest) := .inl ⟨scanned, trivial⟩
  exact front.append others

theorem FitOrDated.blank {marks : List Mark} {rest : List Char}
    (others : FitOrDated marks rest) : FitOrDated (.blank :: marks) rest := by
  have front : FitOrDated [.blank] (spelled marks ++ rest) := .inl trivial
  exact front.append others

/-- A sign that is followed by a digit, but not by a number, is followed by a date-time. -/
theorem exists_of_fusesSign {operand : Expr} {span : Span}
    (fuses : (Expr.unary .negate operand span).fusesSign = true)
    (free : (Expr.unary .negate operand span).negatesNumber = false) :
    ∃ written value place, operand = .literal written (.timestamp value) place := by
  unfold Expr.fusesSign at fuses
  split at fuses
  · rename_i same
    cases same
    rw [Expr.negatesNumber, fuses] at free
    cases free
  · rename_i same
    cases same
    exact ⟨_, _, _, rfl⟩
  · cases fuses

mutual

/-- Where no sign stands before a number, the marks of a tree fit together, all of them or up
to a sign before a date-time. -/
theorem fit_or_dated : (whole : Expr) → Alone whole.writing →
    (∀ node ∈ whole.preorder, node.signsBinary = false) →
    (∀ node ∈ whole.preorder, node.negatesNumber = false) →
      ∀ {rest : List Char}, Breaks rest → FitOrDated whole.writing rest
  | .member _ _, alone, _, _, rest, breaks => by
      simp only [Expr.writing, alone_word] at alone
      exact .word (alone.1.before_break breaks) (.inl trivial)
  | .literal _ _ _, alone, _, _, rest, breaks => by
      simp only [Expr.writing, alone_word] at alone
      exact .word (alone.1.before_break breaks) (.inl trivial)
  | .unary .not operand _, alone, tight, free, rest, breaks => by
      simp only [Expr.writing, alone_word, alone_blank] at alone
      simp only [Expr.preorder, List.forall_mem_cons] at tight free
      exact .word (alone.1.before_break (breaks_blank _))
        (.blank (fit_or_dated operand alone.2 tight.2 free.2 breaks))
  | .unary .negate operand span, alone, tight, free, rest, breaks => by
      simp only [Expr.writing, alone_word] at alone
      simp only [Expr.preorder, List.forall_mem_cons] at tight free
      have digit := beginsWithDigit_writing rest alone.2 tight.1
      cases fuses : (Expr.unary .negate operand span).fusesSign with
      | false =>
          rw [fuses] at digit
          exact .word (.minus digit) (fit_or_dated operand alone.2 tight.2 free.2 breaks)
      | true =>
          obtain ⟨written, value, place, rfl⟩ := exists_of_fusesSign fuses free.1
          exact .inr ⟨[], value, written, [], rfl, trivial⟩
  | .binary operator left right _, alone, tight, free, rest, breaks => by
      simp only [Expr.writing, alone_append, alone_word, alone_blank] at alone
      simp only [Expr.preorder, List.cons_append, List.forall_mem_cons,
        List.forall_mem_append] at tight free
      have before := fit_or_dated left alone.1 tight.2.1 free.2.1
        (breaks_blank (spelled (.word (.binary operator) operator.keyword ::
          .blank :: right.writing) ++ rest))
      have after := fit_or_dated right alone.2.2 tight.2.2 free.2.2 breaks
      exact before.append (.blank (.word (alone.2.1.before_break (breaks_blank _)) (.blank after)))
  | .call name arguments _, alone, tight, free, rest, breaks => by
      simp only [Expr.writing, alone_append, alone_word] at alone
      simp only [Expr.preorder, List.forall_mem_cons] at tight free
      have inside := fit_or_dated_all arguments alone.2.2.1 tight.2 free.2 (breaks_close rest)
      exact .word (alone.1.before_break (breaks_open _))
        (.word .openParen (inside.append (.word .closeParen (.inl trivial))))
  | .paren inner _, alone, tight, free, rest, breaks => by
      simp only [Expr.writing, alone_append, alone_word] at alone
      simp only [Expr.preorder, List.forall_mem_cons] at tight free
      have inside := fit_or_dated inner alone.2.1 tight.2 free.2 (breaks_close rest)
      exact .word .openParen (inside.append (.word .closeParen (.inl trivial)))

theorem fit_or_dated_all : (arguments : List Expr) → Alone (Expr.writingAll arguments) →
    (∀ node ∈ Expr.preorderAll arguments, node.signsBinary = false) →
    (∀ node ∈ Expr.preorderAll arguments, node.negatesNumber = false) →
      ∀ {rest : List Char}, Breaks rest → FitOrDated (Expr.writingAll arguments) rest
  | [], _, _, _, _, _ => .inl trivial
  | [only], alone, tight, free, rest, breaks => by
      simp only [Expr.preorderAll, List.append_nil] at tight free
      exact fit_or_dated only alone tight free breaks
  | first :: second :: others, alone, tight, free, rest, breaks => by
      rw [Expr.writingAll, alone_append, alone_word, alone_blank] at alone
      rw [Expr.preorderAll, List.forall_mem_append] at tight free
      have before := fit_or_dated first alone.1 tight.1 free.1
        (breaks_comma (spelled (.blank :: Expr.writingAll (second :: others)) ++ rest))
      have after := fit_or_dated_all (second :: others) alone.2.2 tight.2 free.2 breaks
      exact before.append (.word .comma (.blank after))

end

/-! ## Literals in a row -/

/-- No two literals stand next to each other. -/
def Spaced (lexemes : List Lexeme) : Prop :=
  lexemes.IsChain fun first second =>
    first.token.isLiteral = false ∨ second.token.isLiteral = false

/-- No phrase holds two literals in a row. -/
theorem Grammar.Derives.spaced {layer : Layer} {lexemes : List Lexeme} {whole : Expr}
    (derived : Derives layer lexemes whole) : Spaced lexemes := by
  refine derived.delimited.imp fun first second delimited => ?_
  cases isLiteral : first.token.isLiteral with
  | false => exact .inl rfl
  | true => exact .inr (Token.isLiteral_eq_false_of_delimits (delimited isLiteral))

/-! ## A sign and a date as lexemes -/

namespace Cursor.Walk

variable {position : Nat} {gap tail : List Char} {lexemes : List Lexeme} {last : Cursor}

/-- Marks that fit together are walked over before what follows them. -/
theorem exists_behind_fit {marks : List Mark} (fit : Fit marks tail)
    (blank : ∀ char ∈ gap, isBlank char = true)
    (walk : Walk ⟨position, gap ++ (spelled marks ++ tail)⟩ lexemes last)
    (ended : ∀ char ∈ last.rest, isBlank char = true) :
    ∃ start skipped before after, (∀ char ∈ skipped, isBlank char = true) ∧
      lexemes = before ++ after ∧ Walk ⟨start, skipped ++ tail⟩ after last := by
  induction marks generalizing gap position lexemes with
  | nil => exact ⟨position, gap, [], lexemes, blank, rfl, walk⟩
  | cons mark marks ih =>
      cases mark with
      | blank =>
          have wider : ∀ char ∈ gap ++ [' '], isBlank char = true := by
            simp only [List.forall_mem_append, List.forall_mem_singleton]
            exact ⟨blank, by decide⟩
          rw [spelled_blank, List.cons_append, List.append_cons] at walk
          exact ih fit wider walk
      | word token written =>
          obtain ⟨scanned, fitRest⟩ := fit
          obtain ⟨first, others, shape, visible⟩ := scanned.exists_first
          rw [spelled_word, List.append_assoc] at walk
          obtain ⟨lexeme, more, after, rfl, found, -, walkOn⟩ :=
            walk.exists_step ended ⟨first, by simp [shape], visible⟩
          rw [next_of_scanned position blank scanned] at found
          cases found
          obtain ⟨start, skipped, before, behind, blankSkipped, rfl, walkBehind⟩ :=
            ih fitRest (List.forall_mem_nil _) walkOn
          exact ⟨start, skipped, _ :: before, behind, blankSkipped, rfl, walkBehind⟩

/-- A sign before a digit is taken with the number. -/
theorem exists_number {chars : List Char} (digit : Numeral.beginsWithDigit chars = true)
    (blank : ∀ char ∈ gap, isBlank char = true)
    (walk : Walk ⟨position, gap ++ '-' :: chars⟩ lexemes last)
    (ended : ∀ char ∈ last.rest, isBlank char = true) :
    ∃ start lexeme others, lexemes = lexeme :: others ∧ lexeme.token.isLiteral = true ∧
      Walk ⟨start, (Numeral.read ('-' :: chars)).rest⟩ others last := by
  obtain ⟨lexeme, others, after, rfl, found, inside, walkOn⟩ :=
    walk.exists_step ended ⟨'-', by simp, by decide⟩
  obtain ⟨skipped, taken, rest, blankSkipped, scanned, whole, -, rfl⟩ := exists_of_next found inside
  obtain ⟨first, more, shape, visible⟩ := scanned.exists_first
  obtain ⟨-, same⟩ := eq_of_append_run blank blankSkipped (by simp; decide)
    (by simpa [shape] using visible) whole
  have scans := scanned.scan_eq
  rw [← same, scan_minus, if_pos digit] at scans
  unfold Scan.number at scans
  dsimp only at scans
  split at scans
  · simp only [Scan.mk.injEq, Except.ok.injEq] at scans
    obtain ⟨-, isNumber, rfl⟩ := scans
    exact ⟨_, lexeme, others, rfl, by rw [← isNumber]; rfl, walkOn⟩
  · cases scans

end Cursor.Walk

/-! ## Dates behind a sign -/

namespace DateTime

/-- A date-time begins with the digits of a year, a dash and the digits of a month. -/
theorem exists_year {written : List Char} (read : read? (written ++ []) = some (written, [])) :
    ∃ year more, written = year ++ '-' :: more ∧ Numeral.beginsWithDigit year = true ∧
      (∀ char ∈ year, char.isDigit = true) ∧ Numeral.beginsWithDigit more = true := by
  have literal := (read?_eq_some_iff.mp read).2.2
  obtain ⟨middle, date, -⟩ := Option.map_eq_some_iff.mp literal
  simp only [ahead, List.take_nil, List.takeWhile_nil, List.append_nil, afterDate,
    Option.bind_eq_bind, Option.bind_eq_some_iff] at date
  obtain ⟨_, found, _, dash, _, month, -⟩ := date
  obtain ⟨year, rfl, length, digits⟩ := exists_of_afterDigits found
  obtain rfl := exists_of_afterMark dash
  obtain ⟨two, rfl, lengthTwo, digitsTwo⟩ := exists_of_afterDigits month
  refine ⟨year, _, rfl, ?_, digits, ?_⟩
  · cases year with
    | nil => cases length
    | cons first others => exact digits first List.mem_cons_self
  · cases two with
    | nil => cases lengthTwo
    | cons first others => exact digitsTwo first List.mem_cons_self

end DateTime

/-- A number ends before a dash. -/
theorem Numeral.rest_read_minus {year more : List Char}
    (digits : ∀ char ∈ year, char.isDigit = true) :
    (Numeral.read ('-' :: (year ++ '-' :: more))).rest = '-' :: more := by
  have sign : readSign ('-' :: (year ++ '-' :: more)) = (['-'], year ++ '-' :: more) := rfl
  have whole : readDigits (year ++ '-' :: more) = (year, '-' :: more) :=
    run_append digits (by simp)
  have fraction : readFraction ('-' :: more) = ([], '-' :: more) := rfl
  have noMark : Decimal.isExponentMark '-' = false := by decide
  have exponent : readExponent ('-' :: more) = ([], '-' :: more) := by simp [readExponent, noMark]
  have noWord : Word.isStart '-' = false := by decide
  have tail : readTail ('-' :: more) = ([], '-' :: more) := by simp [readTail, Word.begins, noWord]
  rw [read_eq sign whole fraction exponent tail]

theorem Numeral.beginsWithDigit_append_of_true {chars : List Char}
    (digit : beginsWithDigit chars = true) (more : List Char) :
    beginsWithDigit (chars ++ more) = true := by
  cases chars with
  | nil => cases digit
  | cons => exact digit

/-- A sign and a date-time are read as two literals in a row. -/
theorem Cursor.Walk.not_spaced_of_dated {position : Nat} {gap written rest : List Char}
    {value : String} {lexemes : List Lexeme} {last : Cursor}
    (scanned : Scanned written (.literal (.timestamp value)) [])
    (blank : ∀ char ∈ gap, isBlank char = true)
    (walk : Walk ⟨position, gap ++ '-' :: (written ++ rest)⟩ lexemes last)
    (ended : ∀ char ∈ last.rest, isBlank char = true) : ¬Spaced lexemes := by
  obtain ⟨year, more, rfl, digit, digits, digitMore⟩ := DateTime.exists_year scanned.date_inv
  rw [List.append_assoc, List.cons_append] at walk
  obtain ⟨middle, first, others, rfl, isFirst, walkOn⟩ :=
    walk.exists_number (Numeral.beginsWithDigit_append_of_true digit _) blank ended
  rw [Numeral.rest_read_minus digits] at walkOn
  obtain ⟨_, second, behind, rfl, isSecond, -⟩ :=
    walkOn.exists_number (Numeral.beginsWithDigit_append_of_true digitMore _)
      (List.forall_mem_nil _) ended
  intro spaced
  have apart := (List.isChain_cons_cons.mp spaced).1
  simp [isFirst, isSecond] at apart

/-! ## Canonical texts -/

/-- No expression is read from marks with a sign before a date-time. -/
theorem not_derives_of_dated {text : String} {marks : List Mark} {found : List Lexeme}
    {again : Expr} (shape : text.toList = spelled marks) (alone : Alone marks)
    (dated : Dated marks []) (lexes : lexed text = .ok found) :
    ¬Derives .disjunction found again := by
  intro derived
  obtain ⟨before, value, written, after, rfl, fit⟩ := dated
  obtain ⟨last, walk, ended⟩ := lexed_eq_ok_iff.mp lexes
  rw [alone_append, alone_word, alone_word] at alone
  rw [Cursor.start, shape, spelled_append, spelled_word, spelled_word] at walk
  rw [List.append_nil] at fit
  obtain ⟨start, gap, front, back, blank, rfl, walkBack⟩ :=
    Cursor.Walk.exists_behind_fit fit (List.forall_mem_nil _) walk ended
  have spaced := (List.isChain_append.mp derived.spaced).2.1
  exact walkBack.not_spaced_of_dated alone.2.2.1 blank ended spaced

theorem canonical_eq_of_spelled {first second : Expr}
    (same : spelled first.writing = spelled second.writing) :
    first.canonical = second.canonical := by
  rw [← String.toList_inj, first.toList_canonical, same, second.toList_canonical]

/-- In a derived tree, a sign before a date-time stands before a digit. -/
theorem Grammar.Derives.fusesSign_of_negatesDate {lexemes : List Lexeme} {layer : Layer}
    {whole node : Expr} (derived : Derives layer lexemes whole) (isolated : Isolated lexemes)
    (mem : node ∈ whole.preorder) (negates : node.negatesDate = true) : node.fusesSign = true := by
  unfold Expr.negatesDate at negates
  split at negates
  · rename_i written value place span
    obtain ⟨before, part, after, _, rfl, derivedNode⟩ := holds_of_mem_preorder whole derived _ mem
    have isolatedPart := (isolated_append.mp (isolated_append.mp isolated).2).1
    have same := derivedNode.words_eq fun lexeme mem => (isolatedPart lexeme mem).1
    have alone := alone_of_words same fun lexeme mem => (isolatedPart lexeme mem).2
    simp only [Expr.writing, alone_word] at alone
    obtain ⟨first, others, shape, digit⟩ := DateTime.exists_of_read? alone.2.1.date_inv
    rw [Expr.fusesSign, shape]
    exact digit
  · cases negates

theorem Expr.fusesSign_eq_false {node : Expr} (noNumber : node.negatesNumber = false)
    (noDate : node.negatesDate = false) : node.fusesSign = false := by
  unfold fusesSign
  split
  · exact noNumber
  · cases noDate
  · rfl

section Canonical

variable {text : String} {whole : Expr}

/-- What the lexemes of a text tell about the tree in which signs are part of numbers. -/
theorem exists_fused_of_parse (parsed : parse text = .ok whole) :
    ∃ others, Derives .disjunction others whole.fused ∧ Isolated others ∧
      others.map Lexeme.word = words whole.fused.writing ∧ Alone whole.fused.writing ∧
      whole.fused.height ≤ maxDepth := by
  obtain ⟨found, lexes, derived, low⟩ := exists_derives_of_parse parsed
  obtain ⟨last, walk, ended⟩ := lexed_eq_ok_iff.mp lexes
  obtain ⟨others, derivedFused, isolated⟩ := derived.fused (plain_and_scanned_of_walk walk ended)
  have same := derivedFused.words_eq fun lexeme mem => (isolated lexeme mem).1
  exact ⟨others, derivedFused, isolated, same,
    alone_of_words same fun lexeme mem => (isolated lexeme mem).2,
    Nat.le_trans whole.height_fused_le low⟩

theorem toList_canonical_fused (whole : Expr) :
    whole.canonical.toList = spelled whole.fused.writing := by
  rw [whole.toList_canonical, whole.spelled_writing_fused]

/-- Without a sign before a date-time, the canonical text is accepted and stays as it is. -/
theorem exists_parse_canonical (parsed : parse text = .ok whole)
    (undated : ∀ node ∈ whole.preorder, node.negatesDate = false) :
    ∃ again, parse whole.canonical = .ok again ∧ again.canonical = whole.canonical := by
  obtain ⟨others, derived, isolated, same, alone, low⟩ := exists_fused_of_parse parsed
  have numbers := whole.negatesNumber_fused
  have dates := whole.forall_negatesDate_fused.mpr undated
  have fit := (fit_writing_iff whole.fused alone derived.signsBinary_eq_false breaks_nil).mpr
    fun node mem => Expr.fusesSign_eq_false (numbers node mem) (dates node mem)
  obtain ⟨found, lexes, sameFound⟩ := (fit_iff_lexed (toList_canonical_fused whole)).mp fit
  obtain ⟨again, derivedAgain, alike⟩ :=
    derived.transport (Lexeme.map_labeled_of_map_word (sameFound.trans same.symm))
  refine ⟨again, parse_of_lexed lexes derivedAgain ?_, ?_⟩
  · rwa [Expr.height_eq_of_relabel alike]
  · refine canonical_eq_of_spelled ?_
    rw [← again.writing_unspanned, alike, whole.fused.writing_unspanned,
      whole.spelled_writing_fused]

/-- With a sign before a date-time, the canonical text is refused. -/
theorem undated_of_parse_canonical (parsed : parse text = .ok whole) {again : Expr}
    (parsedAgain : parse whole.canonical = .ok again) :
    ∀ node ∈ whole.preorder, node.negatesDate = false := by
  obtain ⟨others, derived, isolated, same, alone, -⟩ := exists_fused_of_parse parsed
  obtain ⟨found, lexes, derivedAgain, -⟩ := exists_derives_of_parse parsedAgain
  rcases fit_or_dated whole.fused alone derived.signsBinary_eq_false whole.negatesNumber_fused
    breaks_nil with fit | dated
  · rw [fit_writing_iff whole.fused alone derived.signsBinary_eq_false breaks_nil] at fit
    refine whole.forall_negatesDate_fused.mp fun node mem => Bool.eq_false_iff.mpr fun negates => ?_
    have fuses := derived.fusesSign_of_negatesDate isolated mem negates
    rw [fit node mem] at fuses
    cases fuses
  · exact absurd derivedAgain
      (not_derives_of_dated (toList_canonical_fused whole) alone dated lexes)

end Canonical

theorem Command.check_of_parse_ok {text : String} {whole : Expr} {maxLength : Nat}
    (short : text.length ≤ maxLength) (parsed : parse text = .ok whole) :
    check text maxLength = .ok whole.canonical := by
  rw [check, checkLength, if_pos short, parsed]
  rfl

theorem Command.check_of_parse_error {text : String} {error : ParseError} {maxLength : Nat}
    (short : text.length ≤ maxLength) (refused : parse text = .error error) :
    check text maxLength = .error (.parse error) := by
  rw [check, checkLength, if_pos short, refused]
  rfl

/-- The canonical text of a parsed tree is accepted exactly if no minus sign stands before a
date-time. It is then its own canonical text, and checking it returns it. -/
theorem canonical_stable_iff {text : String} {whole : Expr} (parsed : parse text = .ok whole) :
    ((∃ again, parse whole.canonical = .ok again) ↔
      ∀ node ∈ whole.preorder, node.negatesDate = false) ∧
    (∀ again, parse whole.canonical = .ok again → again.canonical = whole.canonical) ∧
    ∀ maxLength, whole.canonical.length ≤ maxLength →
      (Command.check whole.canonical maxLength = .ok whole.canonical ↔
        ∀ node ∈ whole.preorder, node.negatesDate = false) := by
  refine ⟨⟨?_, ?_⟩, ?_, ?_⟩
  · rintro ⟨again, parsedAgain⟩
    exact undated_of_parse_canonical parsed parsedAgain
  · intro undated
    obtain ⟨again, parsedAgain, -⟩ := exists_parse_canonical parsed undated
    exact ⟨again, parsedAgain⟩
  · intro again parsedAgain
    have undated := undated_of_parse_canonical parsed parsedAgain
    obtain ⟨other, parsedOther, same⟩ := exists_parse_canonical parsed undated
    rw [parsedAgain, Except.ok.injEq] at parsedOther
    rw [parsedOther, same]
  · intro maxLength short
    constructor
    · intro checked
      cases parsedAgain : parse whole.canonical with
      | ok again => exact undated_of_parse_canonical parsed parsedAgain
      | error error =>
          rw [Command.check_of_parse_error short parsedAgain] at checked
          cases checked
    · intro undated
      obtain ⟨again, parsedAgain, same⟩ := exists_parse_canonical parsed undated
      rw [Command.check_of_parse_ok short parsedAgain, same]

/-- The text `- 5` has the canonical text `-5`, in which the sign is part of the number. -/
theorem canonical_stable_number :
    ∃ whole, parse "- 5" = .ok whole ∧ Command.check whole.canonical 2 = .ok whole.canonical := by
  let five : Decimal := ⟨5, 0, by decide, by decide⟩
  have lexes : lexed "- 5" =
      .ok [⟨.minus, ⟨0, 1⟩, "-"⟩, ⟨.literal (.number five), ⟨2, 3⟩, "5"⟩] :=
    lexed_of_toOption (by decide +kernel)
  have parsed := parse_of_lexed lexes (.minus rfl (.lift .unary (.literal rfl)))
    (by simp [Expr.height, maxDepth])
  refine ⟨_, parsed, ((canonical_stable_iff parsed).2.2 2 (by decide)).mpr ?_⟩
  simp [Expr.preorder, Expr.negatesDate]

/-- The text `- 2024-01-31` is an expression, and its canonical text `-2024-01-31` is not. -/
theorem canonical_unstable_date :
    ∃ whole, parse "- 2024-01-31" = .ok whole ∧ whole.canonical = "-2024-01-31" ∧
      ∀ again, parse "-2024-01-31" ≠ .ok again := by
  have parsed : parse "- 2024-01-31" = .ok (.unary .negate
      (.literal "2024-01-31" (.timestamp "2024-01-31") ⟨2, 12⟩) ⟨0, 12⟩) := by cbv
  have canonical : Expr.canonical (.unary .negate
      (.literal "2024-01-31" (.timestamp "2024-01-31") ⟨2, 12⟩) ⟨0, 12⟩) = "-2024-01-31" := by
    decide
  refine ⟨_, parsed, canonical, fun again accepted => ?_⟩
  rw [← canonical] at accepted
  have undated := undated_of_parse_canonical parsed accepted
  simp [Expr.preorder, Expr.negatesDate] at undated

end QueryClause
