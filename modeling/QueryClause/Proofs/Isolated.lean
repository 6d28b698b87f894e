import QueryClause.Proofs.Walk

/-!
# Tokens apart from their texts

What a token tells about its written form, and what its written form tells about it. In
a text without faults every lexeme is the same token also on its own.
-/

namespace QueryClause

open QueryClause.Text

/-! ## Written forms -/

/-- How a token that is no literal is always written. -/
def Token.spelling? : Token → Option String
  | .literal _ => none
  | .identifier name => some name
  | .binary operator => some operator.keyword
  | .not => some "not"
  | .minus => some "-"
  | .openParen => some "("
  | .closeParen => some ")"
  | .comma => some ","
  | .endOfInput => some ""

/-- The written form agrees with the token. -/
def Lexeme.Plain (lexeme : Lexeme) : Prop :=
  ∀ written ∈ lexeme.token.spelling?, lexeme.source = written

/-- A token that is no literal is written in one way only. -/
theorem Scanned.spelling {taken rest : List Char} {token : Token} {written : String}
    (scanned : Scanned taken token rest) (spelling : token.spelling? = some written) :
    String.ofList taken = written := by
  cases scanned with
  | keyword reserved =>
      rcases keyword?_eq_some reserved with
        ⟨operator, word, rfl⟩ | ⟨word, rfl⟩ | ⟨truth, word, rfl⟩ | ⟨word, rfl⟩ <;>
        simp_all [Token.spelling?]
  | openParen => simpa [Token.spelling?] using spelling
  | closeParen => simpa [Token.spelling?] using spelling
  | comma => simpa [Token.spelling?] using spelling
  | minus => simpa [Token.spelling?] using spelling
  | text => simp [Token.spelling?] at spelling
  | number => simp [Token.spelling?] at spelling
  | timestamp => simp [Token.spelling?] at spelling
  | path => simpa only [Token.spelling?, Option.some.injEq] using spelling
  | dollarPath => simpa only [Token.spelling?, Option.some.injEq] using spelling

/-- Only numbers and date-times begin with a digit. -/
theorem Scanned.dated_or_number {taken rest : List Char} {token : Token}
    (scanned : Scanned taken token rest) (digit : Numeral.beginsWithDigit taken = true) :
    (∃ decimal, token = .literal (.number decimal)) ∨
      ∃ written, token = .literal (.timestamp written) := by
  have noWord {chars : List Char} (starts : Word.begins chars = true) :
      Numeral.beginsWithDigit chars = false := by
    cases chars with
    | nil => rfl
    | cons first others => exact (apart_of_isStart starts).1
  cases scanned with
  | number => exact Or.inl ⟨_, rfl⟩
  | timestamp => exact Or.inr ⟨_, rfl⟩
  | keyword reserved => simp [noWord (word_of_reserved reserved).2.1] at digit
  | path starts => simp [noWord starts] at digit
  | _ => simp [Numeral.beginsWithDigit, Quoted.written, Quoted.quote] at digit

theorem Scanned.beginsWithDigit_eq_false {taken rest : List Char} {token : Token}
    (scanned : Scanned taken token rest) (noNumber : ∀ decimal, token ≠ .literal (.number decimal))
    (noDate : ∀ written, token ≠ .literal (.timestamp written)) :
    Numeral.beginsWithDigit taken = false := by
  refine Bool.eq_false_iff.mpr fun digit => ?_
  rcases scanned.dated_or_number digit with ⟨decimal, number⟩ | ⟨written, date⟩
  · exact noNumber decimal number
  · exact noDate written date

theorem Scanned.beginsWithDigit_append {taken rest : List Char} {token : Token}
    (scanned : Scanned taken token rest) (behind : List Char) :
    Numeral.beginsWithDigit (taken ++ behind) = Numeral.beginsWithDigit taken := by
  obtain ⟨first, others, rfl, _⟩ := scanned.exists_first
  rfl

/-- No digit follows a minus sign that is a token of its own. -/
theorem Scanned.unsigned {taken rest : List Char} (scanned : Scanned taken .minus rest) :
    Numeral.beginsWithDigit rest = false := by
  generalize isMinus : Token.minus = token at scanned
  cases scanned with
  | minus unsigned => exact unsigned
  | keyword reserved =>
      subst isMinus
      cases isReserved_of_keyword? reserved
  | _ => cases isMinus

/-- A string literal is written in one way only, and no further quote follows it. -/
theorem Scanned.text_inv {taken rest : List Char} {content : String}
    (scanned : Scanned taken (.literal (.text content)) rest) :
    taken = Quoted.written content.toList ∧ rest.head? ≠ some Quoted.quote := by
  generalize isText : Token.literal (.text content) = token at scanned
  cases scanned with
  | text closed =>
      cases isText
      exact ⟨by rw [String.toList_ofList], closed⟩
  | keyword reserved =>
      subst isText
      cases isReserved_of_keyword? reserved
  | _ => cases isText

/-- A date-time is read from its characters and those that follow. -/
theorem Scanned.date_inv {taken rest : List Char} {value : String}
    (scanned : Scanned taken (.literal (.timestamp value)) rest) :
    DateTime.read? (taken ++ rest) = some (taken, rest) := by
  generalize isDate : Token.literal (.timestamp value) = token at scanned
  cases scanned with
  | timestamp read => exact read
  | keyword reserved =>
      subst isDate
      cases isReserved_of_keyword? reserved
  | _ => cases isDate

/-- A name is no reserved word, unless a slash follows it. -/
theorem Scanned.name_inv {taken rest : List Char} {name : String}
    (scanned : Scanned taken (.identifier name) rest) :
    Token.keyword? name = none ∨ rest.head? = some '/' := by
  generalize isName : Token.identifier name = token at scanned
  cases scanned with
  | path starts read free =>
      cases isName
      exact free
  | dollarPath starts read =>
      cases isName
      refine Or.inl (Option.eq_none_iff_forall_ne_some.mpr fun token reserved => ?_)
      have begins := (word_of_reserved reserved).2.1
      exact absurd begins (by simp only [Word.begins]; decide)
  | keyword reserved =>
      subst isName
      cases isReserved_of_keyword? reserved
  | _ => cases isName

/-! ## Lexemes of texts without faults -/

/-- A slash begins no token. -/
theorem Cursor.next_slash {position : Nat} {rest : List Char} {after : Cursor} {lexeme : Lexeme} :
    Cursor.next ⟨position, '/' :: rest⟩ ≠ (.ok lexeme, after) := by
  have visible : isBlank '/' = false := by decide
  have fails : (scan ('/' :: rest)).outcome = .error (.unexpectedCharacter '/') := by
    have noStart : Word.isStart '/' = false := by decide
    simp [scan, Quoted.quote, noStart]
  simp [Cursor.next, Cursor.skipBlanks, visible, fails]

/-- A reserved word is read as a name only where a slash follows, which cannot be read. -/
theorem Cursor.Walk.keyword?_eq_none {cursor after last : Cursor} {lexeme : Lexeme}
    {lexemes : List Lexeme} {name : String} (found : cursor.next = (.ok lexeme, after))
    (walk : Cursor.Walk after lexemes last) (ended : ∀ char ∈ last.rest, isBlank char = true)
    (isName : lexeme.token = .identifier name) : Token.keyword? name = none := by
  obtain ⟨gap, taken, rest, _, scanned, _, _, rfl⟩ :=
    Cursor.exists_of_next found (by simp [isName])
  rw [isName] at scanned
  rcases scanned.name_inv with free | slash
  · exact free
  · obtain ⟨others, rfl⟩ := List.head?_eq_some_iff.mp slash
    cases walk with
    | done => exact absurd (ended '/' (by simp)) (by decide)
    | step found _ _ => exact absurd found Cursor.next_slash

/-- Each lexeme of a text without faults is written as its token wants, and is that token
also on its own. -/
theorem plain_and_scanned_of_walk {cursor last : Cursor} {lexemes : List Lexeme}
    (walk : Cursor.Walk cursor lexemes last) (ended : ∀ char ∈ last.rest, isBlank char = true) :
    ∀ lexeme ∈ lexemes, lexeme.Plain ∧ Scanned lexeme.source.toList lexeme.token [] := by
  induction walk with
  | done => simp
  | @step cursor after last lexeme lexemes found inside walk ih =>
      refine List.forall_mem_cons.mpr ⟨?_, ih ended⟩
      obtain ⟨gap, taken, rest, _, scanned, _, written, _⟩ := Cursor.exists_of_next found inside
      have source : lexeme.source = String.ofList taken := by
        rw [written]
        rfl
      rw [source, String.toList_ofList]
      refine ⟨fun spelling isSpelling => ?_, Scanned.prune scanned fun _ name isName => ?_⟩
      · rw [source]
        exact scanned.spelling isSpelling
      · exact walk.keyword?_eq_none found ended isName

/-- The lexemes are written as their tokens are, and are the same tokens on their own. -/
def Isolated (lexemes : List Lexeme) : Prop :=
  ∀ lexeme ∈ lexemes, lexeme.Plain ∧ Scanned lexeme.source.toList lexeme.token []

theorem isolated_append {first second : List Lexeme} :
    Isolated (first ++ second) ↔ Isolated first ∧ Isolated second :=
  List.forall_mem_append

theorem isolated_cons {lexeme : Lexeme} {lexemes : List Lexeme} :
    Isolated (lexeme :: lexemes) ↔
      (lexeme.Plain ∧ Scanned lexeme.source.toList lexeme.token []) ∧ Isolated lexemes :=
  List.forall_mem_cons

theorem isolated_singleton {lexeme : Lexeme} :
    Isolated [lexeme] ↔ lexeme.Plain ∧ Scanned lexeme.source.toList lexeme.token [] :=
  List.forall_mem_singleton

end QueryClause
