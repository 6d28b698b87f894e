import Mathlib
import QueryClause.Proofs.DateTimePattern
import QueryClause.Proofs.Delimiters
import QueryClause.Proofs.Tiling

/-!
# Date-times are read whole

Only a window of the text is looked at for a date-time, and one that is longer is cut there. The
rest of it then follows without a gap, and begins with a digit, a sign or a `Z`. No delimiter
begins like this, so that the text is no expression. In an accepted text each date-time is the
longest match of the pattern.
-/

namespace QueryClause

open QueryClause.Text QueryClause.Grammar

/-! ## Behind a literal -/

/-- No delimiter begins with a character of date-times. -/
theorem Scanned.isDateTimeChar_eq_false {taken rest : List Char} {token : Token}
    (scanned : Scanned taken token rest) (delimits : token.delimits = true) :
    ∀ char ∈ taken.head?, DateTime.isDateTimeChar char = false := by
  obtain ⟨written, spelling, outside⟩ : ∃ written, token.spelling? = some written ∧
      (written.toList.head?.all fun char => !DateTime.isDateTimeChar char) = true := by
    cases token with
    | binary operator => exact ⟨operator.keyword, rfl, by cases operator <;> decide⟩
    | closeParen => exact ⟨")", rfl, by decide⟩
    | comma => exact ⟨",", rfl, by decide⟩
    | _ => cases delimits
  rw [← scanned.spelling spelling, String.toList_ofList] at outside
  intro char next
  rw [Option.mem_def.mp next] at outside
  simpa using outside

namespace Cursor.Walk

variable {text : String} {cursor last : Cursor} {lexeme : Lexeme} {lexemes : List Lexeme}

/-- Before a delimiter, or at the end of a text, stands no character of date-times. -/
theorem isDateTimeChar_eq_false (walk : Walk cursor lexemes last)
    (ended : ∀ char ∈ last.rest, isBlank char = true)
    (delimits : ∀ lexeme ∈ lexemes.head?, lexeme.token.delimits = true) :
    ∀ char ∈ cursor.rest.head?, DateTime.isDateTimeChar char = false := by
  intro char next
  cases walk with
  | done =>
      have blank := ended char (List.mem_of_mem_head? next)
      exact (apart_of_isBlank blank).2.1
  | step found within _ =>
      obtain ⟨gap, taken, rest, blank, scanned, whole, -, -⟩ := exists_of_next found within
      rw [whole] at next
      cases gap with
      | nil =>
          obtain ⟨first, others, rfl, -⟩ := scanned.exists_first
          exact scanned.isDateTimeChar_eq_false (delimits _ rfl) char next
      | cons first others =>
          cases next
          exact (apart_of_isBlank (blank _ List.mem_cons_self)).2.1

/-- A date-time that is followed by a delimiter or by the end is the longest match. -/
theorem longest_timestamp {stamp : String} (walk : Walk cursor (lexeme :: lexemes) last)
    (inside : Inside text cursor) (ended : ∀ char ∈ last.rest, isBlank char = true)
    (delimited : Delimited (lexeme :: lexemes))
    (isDate : lexeme.token = .literal (.timestamp stamp)) :
    lexeme.source = stamp ∧ stamp.toList.length ≤ DateTime.window ∧
      DateTime.Longest DateTime.pattern.matches' (text.toList.drop lexeme.span.start)
        stamp.toList := by
  cases walk with
  | step found within walkOn =>
      obtain ⟨taken, scanned, source, -, stands⟩ := inside.exists_taken found within
      rw [isDate] at scanned
      have read := scanned.date_inv
      have follows := (List.isChain_cons.mp delimited).1
      rw [isDate] at follows
      have outside := walkOn.isDateTimeChar_eq_false ended fun _ next => follows _ next rfl
      rw [source, stands.drop_eq, ← scanned.kept (.inr rfl), String.toList_ofList]
      refine ⟨rfl, (DateTime.read?_eq_some_iff.mp read).2.1, ?_⟩
      exact DateTime.longest_of_read? read outside

/-- Any number of calls lead along the walk to the end of a text, and then stay there. -/
theorem exists_after (walk : Walk cursor lexemes last)
    (ended : ∀ char ∈ last.rest, isBlank char = true) (count : Nat) :
    ∃ others other, others <:+ lexemes ∧ Walk (cursor.after count) others other ∧
      ∀ char ∈ other.rest, isBlank char = true := by
  induction count with
  | zero => exact ⟨lexemes, last, List.suffix_rfl, walk, ended⟩
  | succ count ih =>
      obtain ⟨others, other, behind, walkOn, blank⟩ := ih
      cases walkOn with
      | done =>
          refine ⟨[], _, List.nil_suffix, .done, ?_⟩
          rw [after, next_of_blank blank]
          exact List.forall_mem_nil _
      | step found _ walkOn =>
          refine ⟨_, other, (List.suffix_cons ..).trans behind, ?_, blank⟩
          rw [after, found]
          exact walkOn

end Cursor.Walk

/-- The text from a lexeme on is what is left behind the blanks. -/
theorem Cursor.Inside.drop_span_start {text : String} {cursor : Cursor} {lexeme : Lexeme}
    (inside : Inside text cursor) (found : cursor.next.1 = .ok lexeme) :
    text.toList.drop lexeme.span.start = cursor.skipBlanks.rest := by
  have start := cursor.place_next
  rw [found] at start
  rw [← inside.skipBlanks.drop_eq]
  exact congrArg text.toList.drop start

/-- A match of the pattern is not skipped as a blank. -/
theorem Cursor.exists_visible_of_pattern {cursor : Cursor} {word : List Char}
    (mem : word ∈ DateTime.pattern.matches') (begins : word <+: cursor.skipBlanks.rest) :
    ∃ char ∈ cursor.rest, isBlank char = false := by
  obtain ⟨first, others, rfl, digit⟩ := DateTime.exists_digit_of_pattern mem
  refine ⟨first, ?_, (apart_of_isDigit digit).2.2.2.1⟩
  have left : first ∈ cursor.rest.dropWhile isBlank := begins.subset List.mem_cons_self
  exact (List.dropWhile_sublist isBlank).subset left

/-- Where a match of the pattern begins, a date-time is found. -/
theorem Scanned.exists_timestamp {taken rest word : List Char} {token : Token}
    (scanned : Scanned taken token rest) (mem : word ∈ DateTime.pattern.matches')
    (begins : word <+: taken ++ rest) : ∃ stamp, token = .literal (.timestamp stamp) := by
  obtain ⟨first, others, rfl, digit⟩ := DateTime.exists_digit_of_pattern mem
  obtain ⟨behind, whole⟩ := begins
  have scans := scanned.scan_eq
  rw [← whole, List.cons_append, scan_of_isDigit digit, ← List.cons_append, Scan.digits] at scans
  split at scans
  · simp only [Scan.mk.injEq, Except.ok.injEq] at scans
    exact ⟨_, scans.2.1.symm⟩
  · rename_i missing
    have unmatched := DateTime.read?_eq_none_iff_pattern.mp missing _ mem
    exact absurd (List.prefix_append ..) unmatched

/-! ## Accepted texts -/

section Accepted

variable {text : String} {whole : Expr}

/-- The lexemes of an accepted text lead to its end, and the grammar derives the tree from them. -/
theorem exists_walk_of_parse (parsed : parse text = .ok whole) :
    ∃ found last, Cursor.Walk (Cursor.start text) found last ∧
      (∀ char ∈ last.rest, isBlank char = true) ∧ Derives .disjunction found whole := by
  obtain ⟨found, lexes, derived, -⟩ := exists_derives_of_parse parsed
  obtain ⟨last, walk, ended⟩ := lexed_eq_ok_iff.mp lexes
  exact ⟨found, last, walk, ended, derived⟩

/-- A date-time of an accepted text is the longest match where it stands. -/
theorem longest_of_mem_preorder (parsed : parse text = .ok whole) {written stamp : String}
    {span : Span} (mem : .literal written (.timestamp stamp) span ∈ whole.preorder) :
    span.slice text = stamp ∧
      DateTime.Longest DateTime.pattern.matches' (text.toList.drop span.start) stamp.toList := by
  obtain ⟨_, last, walk, ended, derived⟩ := exists_walk_of_parse parsed
  obtain ⟨before, part, after, _, rfl, derivedPart⟩ := holds_of_mem_preorder whole derived _ mem
  obtain ⟨lexeme, rfl, isDate, rfl, rfl⟩ := derivedPart.literal_inv
  have inside := Cursor.inside_start text
  have behind : [lexeme] ++ after <:+ before ++ ([lexeme] ++ after) := List.suffix_append ..
  have source := walk.slice_span inside lexeme (by simp)
  obtain ⟨middle, walkBefore, walkOn⟩ := walk.split
  obtain ⟨same, -, longest⟩ := walkOn.longest_timestamp (walkBefore.inside inside) ended
    (derived.delimited.suffix behind) isDate
  exact ⟨source.trans same, longest⟩

/-- At no place of an accepted text where a lexeme is looked for stands a match that is longer
than the window. -/
theorem length_le_window (parsed : parse text = .ok whole) {count : Nat} {word : List Char}
    (longest : DateTime.Longest DateTime.pattern.matches'
      ((Cursor.start text).after count).skipBlanks.rest word) :
    word.length ≤ DateTime.window := by
  obtain ⟨_, last, walk, ended, derived⟩ := exists_walk_of_parse parsed
  obtain ⟨others, other, behind, walkOn, blank⟩ := walk.exists_after ended count
  have inside := Cursor.inside_after text count
  have visible := Cursor.exists_visible_of_pattern longest.mem longest.begins
  obtain ⟨lexeme, more, after, rfl, found, within, -⟩ := walkOn.exists_step blank visible
  obtain ⟨taken, scanned, -, -, stands⟩ := inside.exists_taken found within
  rw [← inside.drop_span_start (congrArg Prod.fst found)] at longest
  have begins := longest.begins
  rw [stands.drop_eq] at begins
  obtain ⟨stamp, isDate⟩ := scanned.exists_timestamp longest.mem begins
  obtain ⟨-, fits, alike⟩ :=
    walkOn.longest_timestamp inside blank (derived.delimited.suffix behind) isDate
  rwa [longest.unique alike]

end Accepted

/-- In an accepted text each date-time is the longest match of the pattern from where it stands.
The longest match is read wherever it has no more than 48 characters, and nothing where there is no
match; and a text is refused if a longer match stands where a lexeme is looked for. -/
theorem timestamps_whole :
    (∀ (text : String) (whole : Expr), parse text = .ok whole →
      ∀ (written stamp : String) (span : Span),
        .literal written (.timestamp stamp) span ∈ whole.preorder →
          span.slice text = stamp ∧
            DateTime.Longest DateTime.pattern.matches' (text.toList.drop span.start)
              stamp.toList) ∧
    (∀ chars word : List Char, DateTime.Longest DateTime.pattern.matches' chars word →
      word.length ≤ 48 →
        DateTime.read? chars = some (word, chars.drop word.length)) ∧
    (∀ chars : List Char, DateTime.read? chars = none ↔
      ∀ word ∈ DateTime.pattern.matches', ¬ word <+: chars) ∧
    ∀ (text : String) (count : Nat) (word : List Char),
      DateTime.Longest DateTime.pattern.matches'
        ((Cursor.start text).after count).skipBlanks.rest word →
      48 < word.length → ∃ error, parse text = .error error := by
  refine ⟨?_, ?_, fun _ => DateTime.read?_eq_none_iff_pattern, ?_⟩
  · intro text whole parsed written stamp span mem
    exact longest_of_mem_preorder parsed mem
  · intro chars word longest fits
    obtain ⟨rest, rfl⟩ := longest.begins
    rw [List.drop_left]
    exact DateTime.read?_of_longest longest fits
  · intro text count word longest long
    cases parsed : parse text with
    | error error => exact ⟨error, rfl⟩
    | ok whole => exact absurd long (Nat.not_lt.mpr (length_le_window parsed longest))

/-- In `-(2024-01-31T10:00Z)` the zone belongs to the date-time, which is read alike on its own.
With thirty digits after the seconds a date-time with a zone is longer than the window. -/
theorem timestamps_whole_fraction :
    DateTime.Longest DateTime.pattern.matches' "2024-01-31T10:00Z)".toList
        "2024-01-31T10:00Z".toList ∧
      DateTime.read? "2024-01-31T10:00Z)".toList = some ("2024-01-31T10:00Z".toList, [')']) ∧
      ∃ error, parse "2024-01-31T10:00:00.123456789012345678901234567890Z" = .error error := by
  have parsed : parse "-(2024-01-31T10:00Z)" = .ok (.unary .negate (.paren
      (.literal "2024-01-31T10:00Z" (.timestamp "2024-01-31T10:00Z") ⟨2, 19⟩) ⟨1, 20⟩)
      ⟨0, 20⟩) := by
    cbv
  have longest := (timestamps_whole.1 _ _ parsed "2024-01-31T10:00Z" "2024-01-31T10:00Z" ⟨2, 19⟩
    (by simp [Expr.preorder])).2
  have literal : DateTime.afterLiteral
      "2024-01-31T10:00:00.123456789012345678901234567890Z".toList = some [] := by
    decide
  obtain ⟨word, shape, long⟩ := DateTime.longest_of_afterLiteral literal
  rw [List.append_nil] at shape
  refine ⟨longest, timestamps_whole.2.1 _ _ longest (by decide), ?_⟩
  refine timestamps_whole.2.2.2 _ 0 word long ?_
  rw [← shape]
  decide

end QueryClause
