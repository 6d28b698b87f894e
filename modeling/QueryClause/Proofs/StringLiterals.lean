import Mathlib
import QueryClause.Proofs.Faults
import QueryClause.Proofs.Tiling

/-!
# String literals

A string literal is the written form of its content, up to the quote that no other quote
follows. Whatever the content and the text behind it, runs of quotes included, the literal is
read back whole, and a literal is unclosed just where no written form stands.
-/

namespace QueryClause

open QueryClause.Text

namespace Quoted

/-- A text begins with the written form of a content, and no further quote follows that. -/
def Begins (chars content rest : List Char) : Prop :=
  chars = written content ++ rest ∧ rest.head? ≠ some quote

theorem begins_iff_read? {body content rest : List Char} :
    Begins (quote :: body) content rest ↔ read? body = some (content, rest) := by
  have shape : quote :: body = written content ++ rest ↔
      body = doubled content ++ quote :: rest := by
    simp [written]
  rw [Begins, shape]
  constructor
  · rintro ⟨rfl, closed⟩
    exact read?_doubled content rest closed
  · exact eq_of_read?_eq_some

theorem read?_eq_none_iff {body : List Char} :
    read? body = none ↔ ¬ ∃ content rest, Begins (quote :: body) content rest := by
  simp only [begins_iff_read?, Option.eq_none_iff_forall_ne_some, Prod.forall, not_exists, ne_eq]

end Quoted

/-- A string literal is unclosed where a text begins with a quote, but with no written form. -/
theorem faulty_unterminatedString_iff {chars : List Char} :
    Faulty chars .unterminatedString ↔
      chars.head? = some Quoted.quote ∧ ¬ ∃ content rest, Quoted.Begins chars content rest := by
  constructor
  · rintro ⟨unclosed⟩
    exact ⟨rfl, Quoted.read?_eq_none_iff.mp unclosed⟩
  · rintro ⟨quoted, unwritten⟩
    obtain ⟨body, rfl⟩ := List.head?_eq_some_iff.mp quoted
    exact .unterminated (Quoted.read?_eq_none_iff.mpr unwritten)

namespace Cursor

/-- The written form of a content is read as a string literal. -/
theorem next_of_begins {position : Nat} {chars content rest : List Char}
    (begins : Quoted.Begins chars content rest) :
    next ⟨position, chars⟩ =
      (.ok (.written (.literal (.text (String.ofList content))) position (Quoted.written content)),
        ⟨position + (Quoted.written content).length, rest⟩) := by
  obtain ⟨rfl, closed⟩ := begins
  have noGap : ∀ char ∈ ([] : List Char), isBlank char = true := by simp
  exact next_of_scanned position noGap (.text closed)

/-- A string literal is written as its content says, and no further quote follows. -/
theorem Inside.begins {text : String} {cursor : Cursor} {lexeme : Lexeme} {content : String}
    (inside : Inside text cursor) (found : cursor.next.1 = .ok lexeme)
    (isText : lexeme.token = .literal (.text content)) :
    Quoted.Begins (text.toList.drop lexeme.span.start) content.toList
        (text.toList.drop lexeme.span.stop) ∧
      lexeme.span.slice text = String.ofList (Quoted.written content.toList) := by
  have within : lexeme.token ≠ .endOfInput := by
    rw [isText]
    exact Token.noConfusion
  have found := next_eq_of_fst found
  obtain ⟨taken, scanned, source, stops, stands⟩ := inside.exists_taken found within
  rw [isText] at scanned
  obtain ⟨rfl, closed⟩ := scanned.text_inv
  have behind : text.toList.drop lexeme.span.stop = cursor.next.2.rest :=
    (stands.advance rfl stops).drop_eq
  rw [inside.slice_span found within, source, stands.drop_eq, behind]
  exact ⟨⟨rfl, closed⟩, rfl⟩

end Cursor

/-- The written form of a content, which no quote follows, is read as one lexeme, and all that
follows is left. In any text, a string literal has the written form of its content, and no quote
follows it; and a literal is reported as unclosed just at the quotes from which no written form
is found. -/
theorem string_literals_inverse :
    (∀ (content : String) (rest : List Char), rest.head? ≠ some Quoted.quote →
      (Cursor.start (String.ofList (Quoted.written content.toList ++ rest))).next =
        (.ok ⟨.literal (.text content), ⟨0, (Quoted.doubled content.toList).length + 2⟩,
          String.ofList (Quoted.written content.toList)⟩,
          ⟨(Quoted.doubled content.toList).length + 2, rest⟩)) ∧
    (∀ (text : String) (count : Nat) (lexeme : Lexeme) (content : String),
      ((Cursor.start text).after count).next.1 = .ok lexeme →
      lexeme.token = .literal (.text content) →
        lexeme.span.slice text = String.ofList (Quoted.written content.toList) ∧
          text.toList[lexeme.span.stop]? ≠ some Quoted.quote) ∧
    ∀ (text : String) (count position : Nat), let cursor := (Cursor.start text).after count
      cursor.next.1 = .error ⟨.unterminatedString, position⟩ ↔
        position = cursor.skipBlanks.position ∧
          text.toList[position]? = some Quoted.quote ∧
          ¬ ∃ content rest, text.toList.drop position = Quoted.written content ++ rest ∧
            rest.head? ≠ some Quoted.quote := by
  refine ⟨?_, ?_, ?_⟩
  · intro content rest closed
    have begins : Quoted.Begins (Quoted.written content.toList ++ rest) content.toList rest :=
      ⟨rfl, closed⟩
    have length : 0 + (Quoted.written content.toList).length =
        (Quoted.doubled content.toList).length + 2 := by
      simp [Quoted.written]
    rw [Cursor.start, String.toList_ofList, Cursor.next_of_begins begins, Lexeme.written, length,
      String.ofList_toList]
  · intro text count lexeme content found isText
    obtain ⟨⟨_, closed⟩, slice⟩ := (Cursor.inside_after text count).begins found isText
    rw [List.head?_drop] at closed
    exact ⟨slice, closed⟩
  · intro text count position cursor
    have inside := (Cursor.inside_after text count).skipBlanks
    rw [Cursor.next_eq_error_iff, and_comm]
    refine and_congr_right ?_
    rintro rfl
    rw [← List.head?_drop, inside.drop_eq]
    exact faulty_unterminatedString_iff

/-- In `'a''' b'''` the first four quotes make up a literal, and the last three leave one open. -/
theorem string_literals_inverse_quotes :
    (Cursor.start (String.ofList (Quoted.written "a'".toList ++ " b'''".toList))).next =
        (.ok ⟨.literal (.text "a'"), ⟨0, 5⟩, "'a'''"⟩, ⟨5, " b'''".toList⟩) ∧
      (Span.slice ⟨0, 5⟩ "'a''' b'''" = "'a'''" ∧
        "'a''' b'''".toList[5]? ≠ some Quoted.quote) ∧
      ¬ ∃ content rest, "'a''' b'''".toList.drop 7 = Quoted.written content ++ rest ∧
        rest.head? ≠ some Quoted.quote := by
  have found : ((Cursor.start "'a''' b'''").after 0).next.1 =
      .ok ⟨.literal (.text "a'"), ⟨0, 5⟩, "'a'''"⟩ := by
    cbv
  have failed : ((Cursor.start "'a''' b'''").after 2).next.1 =
      .error ⟨.unterminatedString, 7⟩ := by
    cbv
  have closed : " b'''".toList.head? ≠ some Quoted.quote := by decide
  exact ⟨string_literals_inverse.1 "a'" " b'''".toList closed,
    string_literals_inverse.2.1 _ _ _ _ found rfl,
    ((string_literals_inverse.2.2 _ _ _).mp failed).2.2⟩

end QueryClause
