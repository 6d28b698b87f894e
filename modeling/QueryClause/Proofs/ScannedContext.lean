import QueryClause.Proofs.Scanned

/-!
# Tokens and what follows

How a token depends on what follows it: a token that is found somewhere is also found
where the text ends earlier, and where it goes on after a stop. So the tokens of a
text can be written again with other blanks between them.
-/

namespace QueryClause

theorem Scanned.ne_endOfInput {taken rest : List Char} {token : Token}
    (scanned : Scanned taken token rest) : token ≠ .endOfInput := by
  cases scanned with
  | keyword reserved =>
      rintro rfl
      cases isReserved_of_keyword? reserved
  | _ => simp

/-- A token begins with a character that is not blank. -/
theorem Scanned.exists_first {taken rest : List Char} {token : Token}
    (scanned : Scanned taken token rest) :
    ∃ first others, taken = first :: others ∧ Text.isBlank first = false := by
  cases scanned with
  | openParen => exact ⟨_, _, rfl, by decide⟩
  | closeParen => exact ⟨_, _, rfl, by decide⟩
  | comma => exact ⟨_, _, rfl, by decide⟩
  | minus => exact ⟨_, _, rfl, by decide⟩
  | text => exact ⟨_, _, rfl, by decide⟩
  | dollarPath => exact ⟨_, _, rfl, by decide⟩
  | timestamp read =>
      obtain ⟨first, others, rfl, digit⟩ := DateTime.exists_of_read? read
      exact ⟨first, others, rfl, (apart_of_isDigit digit).2.2.2.1⟩
  | @number numeral _ starts =>
      cases chars : numeral.chars with
      | nil => simp [chars, Numeral.readSign, Numeral.beginsWithDigit] at starts
      | cons first others =>
          refine ⟨first, others, rfl, ?_⟩
          by_cases sign : first = '-'
          · subst sign
            decide
          · have digit : first.isDigit = true := by
              simpa [chars, Numeral.readSign_eq, optional, sign, Numeral.beginsWithDigit]
                using starts
            exact (apart_of_isDigit digit).2.2.2.1
  | keyword reserved =>
      have starts := (word_of_reserved reserved).2.1
      cases taken with
      | nil => simp [Word.begins] at starts
      | cons first others => exact ⟨first, others, rfl, (apart_of_isStart starts).2.1⟩
  | path starts =>
      cases taken with
      | nil => simp [Word.begins] at starts
      | cons first others => exact ⟨first, others, rfl, (apart_of_isStart starts).2.1⟩

theorem beginsWithDigit_of_append {chars cut : List Char}
    (unsigned : Numeral.beginsWithDigit (chars ++ cut) = false) :
    Numeral.beginsWithDigit chars = false := by
  cases chars with
  | nil => rfl
  | cons first others => exact unsigned

theorem head?_mem_append {chars : List Char} (cut : List Char) {char : Char}
    (first : char ∈ chars.head?) : char ∈ (chars ++ cut).head? := by
  cases chars with
  | nil => simp at first
  | cons next others => exact first

/-- The end of a text after a token can be removed. The name of a field that is a
reserved word too must not lose the slash after it. -/
theorem Scanned.prune {taken rest cut : List Char} {token : Token}
    (scanned : Scanned taken token (rest ++ cut))
    (free : rest = [] → ∀ name, token = .identifier name → Token.keyword? name = none) :
    Scanned taken token rest := by
  generalize whole : rest ++ cut = all at scanned
  cases scanned with
  | openParen => exact .openParen
  | closeParen => exact .closeParen
  | comma => exact .comma
  | minus unsigned => exact .minus (beginsWithDigit_of_append (whole ▸ unsigned))
  | text closed =>
      exact .text fun quotes => closed (whole ▸ head?_mem_append cut quotes)
  | @number numeral _ starts undated read valued =>
      rw [← whole, ← List.append_assoc] at undated read
      have pruned := Numeral.read_prune read whole.symm
      have shorter : Scanned ({ numeral with rest := rest } : Numeral).chars _ rest :=
        .number starts (DateTime.read?_eq_none_of_append undated) pruned valued
      exact shorter
  | timestamp read =>
      subst whole
      exact .timestamp (DateTime.read?_prune read)
  | keyword reserved ended =>
      exact .keyword reserved fun char next => ended char (whole ▸ head?_mem_append cut next)
  | path starts read unreserved =>
      subst whole
      rw [← List.append_assoc] at read
      refine .path starts (Word.readPath_prunes read) ?_
      cases rest with
      | nil => exact Or.inl (free rfl _ rfl)
      | cons first others => exact unreserved
  | dollarPath starts read =>
      subst whole
      rw [← List.append_assoc] at read
      exact .dollarPath starts (Word.readPath_prunes read)

/-- A stop, and whatever comes after it, can be added after a token. A quote must not
be added right after a string. -/
theorem Scanned.extend {taken rest more : List Char} {token : Token}
    (scanned : Scanned taken token rest) (stops : Stops more)
    (unquoted : rest = [] → ∀ content, token = .literal (.text content) →
      more.head? ≠ some Quoted.quote) :
    Scanned taken token (rest ++ more) := by
  cases scanned with
  | openParen => exact .openParen
  | closeParen => exact .closeParen
  | comma => exact .comma
  | minus unsigned =>
      exact .minus ((Numeral.beginsWithDigit_append stops).trans unsigned)
  | text closed =>
      refine .text ?_
      cases rest with
      | nil => exact unquoted rfl _ rfl
      | cons first others => exact closed
  | @number numeral _ starts undated read valued =>
      have undatedStill := DateTime.read?_append_eq_none stops undated
      have longer : Numeral.read (numeral.chars ++ numeral.rest ++ more) = _ :=
        Numeral.read_extend stops
      rw [read] at longer
      rw [List.append_assoc] at undatedStill longer
      have extended : Scanned
          ({ numeral with rest := numeral.rest ++ more } : Numeral).chars _ (numeral.rest ++ more) :=
        .number starts undatedStill longer valued
      exact extended
  | timestamp read => exact .timestamp (DateTime.read?_extend stops read)
  | keyword reserved ended =>
      refine .keyword reserved fun char next => ?_
      cases rest with
      | nil =>
          have apart := apart_of_isStop (stops char next)
          exact ⟨apart.1, apart.2.2⟩
      | cons first others => exact ended char next
  | path starts read unreserved =>
      have longer : Word.readPath (taken ++ rest ++ more) = _ := Word.readPath_extends stops
      rw [read, List.append_assoc] at longer
      refine .path starts longer (unreserved.imp_right fun slash => ?_)
      exact head?_mem_append more slash
  | @dollarPath first name _ starts read =>
      have longer : Word.readPath (first :: name ++ rest ++ more) = _ :=
        Word.readPath_extends stops
      rw [read, List.append_assoc] at longer
      exact .dollarPath starts longer

/-- Every token ends before a blank. -/
theorem Scanned.extend_blank {taken rest more : List Char} {token : Token}
    (scanned : Scanned taken token rest)
    (blank : ∀ char ∈ more.head?, Text.isBlank char = true) :
    Scanned taken token (rest ++ more) := by
  have stops : Stops more := fun char first => by simp [isStop, blank char first]
  have unquoted : more.head? ≠ some Quoted.quote := by
    intro quoted
    exact absurd (blank _ quoted) (by decide)
  exact scanned.extend stops fun _ _ _ => unquoted

end QueryClause
