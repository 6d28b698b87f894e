import Mathlib
import QueryClause.Proofs.Slices

/-!
# Lexemes tile their text

A cursor that starts at the front of a text stays inside it, whatever it meets and however
often it is asked for the next lexeme. Each lexeme is a piece of the text, with nothing but
blanks before it. Up to the end of the text, or up to its first fault, the blanks and the
lexemes in turn make up the text.
-/

namespace QueryClause

open QueryClause.Text

/-! ## Cursors inside a text -/

namespace Cursor

/-- The cursor after a number of calls of `next`, whether they found a lexeme or a fault. -/
def after (cursor : Cursor) : Nat → Cursor
  | 0 => cursor
  | count + 1 => (cursor.after count).next.2

/-- The cursor stands in the text, and what it has before it is the rest of the text. -/
def Inside (text : String) (cursor : Cursor) : Prop :=
  ∃ front, text.toList = front ++ cursor.rest ∧ cursor.position = front.length

theorem inside_start (text : String) : Inside text (start text) :=
  ⟨[], rfl, rfl⟩

/-- A call skips blanks and then takes some characters, all of them in order. -/
theorem exists_skipped_taken (cursor : Cursor) :
    ∃ skipped taken, cursor.rest = skipped ++ (taken ++ cursor.next.2.rest) ∧
      cursor.next.2.position = cursor.position + skipped.length + taken.length := by
  have skips : cursor.rest.takeWhile isBlank ++ cursor.rest.dropWhile isBlank = cursor.rest :=
    List.takeWhile_append_dropWhile
  have takes := scan_append (cursor.rest.dropWhile isBlank)
  rw [next_cursor]
  refine ⟨cursor.rest.takeWhile isBlank, (scan (cursor.rest.dropWhile isBlank)).taken, ?_, rfl⟩
  rw [← skips]
  simp only [skipBlanks, takes, skips]

namespace Inside

variable {text : String} {cursor : Cursor}

theorem drop_eq (inside : Inside text cursor) : text.toList.drop cursor.position = cursor.rest := by
  obtain ⟨front, whole, position⟩ := inside
  rw [whole, position, List.drop_left]

theorem position_le (inside : Inside text cursor) : cursor.position ≤ text.toList.length := by
  obtain ⟨front, whole, position⟩ := inside
  rw [whole, position, List.length_append]
  exact Nat.le_add_right _ _

/-- The cursor moved over characters that it has before it. -/
theorem advance {passed rest : List Char} {position : Nat} (inside : Inside text cursor)
    (whole : cursor.rest = passed ++ rest) (moved : position = cursor.position + passed.length) :
    Inside text ⟨position, rest⟩ := by
  obtain ⟨front, text_eq, stands⟩ := inside
  refine ⟨front ++ passed, ?_, ?_⟩
  · rw [text_eq, whole, List.append_assoc]
  · rw [moved, stands, List.length_append]

theorem skipBlanks (inside : Inside text cursor) : Inside text cursor.skipBlanks :=
  inside.advance List.takeWhile_append_dropWhile.symm rfl

/-- One call leaves the cursor in the text. -/
theorem next (inside : Inside text cursor) : Inside text cursor.next.2 := by
  obtain ⟨skipped, taken, whole, moved⟩ := cursor.exists_skipped_taken
  rw [← List.append_assoc] at whole
  exact inside.advance whole (by rw [moved, List.length_append, Nat.add_assoc])

/-- The characters between the cursor and a place that it can reach. -/
theorem slice_eq {passed rest : List Char} {stop : Nat} (inside : Inside text cursor)
    (whole : cursor.rest = passed ++ rest) (stops : stop = cursor.position + passed.length) :
    Span.slice ⟨cursor.position, stop⟩ text = String.ofList passed := by
  obtain ⟨front, text_eq, stands⟩ := inside
  rw [whole] at text_eq
  apply Span.slice_eq text_eq
  rw [stops, stands]

end Inside

/-- Any number of calls leave the cursor in the text. -/
theorem inside_after (text : String) (count : Nat) : Inside text ((start text).after count) := by
  induction count with
  | zero => exact inside_start text
  | succ count ih => exact ih.next

end Cursor

/-! ## The place of a lexeme -/

/-- A lexeme stands in a text behind a position, and nothing but blanks is between the two. -/
structure Lexeme.StandsIn (text : String) (position : Nat) (lexeme : Lexeme) : Prop where
  behind : position ≤ lexeme.span.start
  visible : lexeme.span.start < lexeme.span.stop
  fits : lexeme.span.stop ≤ text.toList.length
  blank : ∀ char ∈ (Span.slice ⟨position, lexeme.span.start⟩ text).toList, isBlank char = true

namespace Cursor

section Found

variable {text : String} {cursor next : Cursor} {lexeme : Lexeme}

theorem next_eq_of_fst {result : Except LexError Lexeme} (found : cursor.next.1 = result) :
    cursor.next = (result, cursor.next.2) :=
  Prod.ext found rfl

variable (inside : Inside text cursor) (found : cursor.next = (.ok lexeme, next))
  (within : lexeme.token ≠ .endOfInput)

include inside found within

/-- The characters of a lexeme are what the text goes on with from the start of its span. -/
theorem Inside.exists_taken :
    ∃ taken, Scanned taken lexeme.token next.rest ∧ lexeme.source = String.ofList taken ∧
      lexeme.span.stop = lexeme.span.start + taken.length ∧
      Inside text ⟨lexeme.span.start, taken ++ next.rest⟩ := by
  obtain ⟨gap, taken, rest, _, scanned, whole, written, rfl⟩ := exists_of_next found within
  refine ⟨taken, scanned, by rw [written]; rfl, by rw [written]; rfl, ?_⟩
  exact inside.advance whole (by rw [written]; rfl)

/-- A lexeme keeps the characters of its span. -/
theorem Inside.slice_span : lexeme.span.slice text = lexeme.source := by
  obtain ⟨taken, _, source, stops, stands⟩ := inside.exists_taken found within
  rw [source]
  exact stands.slice_eq rfl stops

theorem Inside.standsIn : lexeme.StandsIn text cursor.position := by
  obtain ⟨gap, taken, rest, blank, scanned, whole, written, rfl⟩ := exists_of_next found within
  obtain ⟨first, others, shape, _⟩ := scanned.exists_first
  have span : lexeme.span = ⟨cursor.position + gap.length,
      cursor.position + gap.length + taken.length⟩ := by
    rw [written]
    rfl
  constructor
  · rw [span]
    exact Nat.le_add_right _ _
  · rw [span, shape]
    exact Nat.lt_add_of_pos_right (Nat.zero_lt_succ _)
  · have bound := inside.next.position_le
    rw [found] at bound
    rw [span]
    exact bound
  · rw [span, inside.slice_eq whole rfl, String.toList_ofList]
    exact blank

end Found

end Cursor

/-! ## Lexemes and blanks in turn -/

/-- Words with gaps around them: a gap before each word, and one behind the last. -/
def Text.interleaved : List (List Char) → List (List Char) → List Char
  | gap :: gaps, word :: words => gap ++ (word ++ interleaved gaps words)
  | gaps, _ => gaps.flatten

theorem Text.interleaved_nil (gaps : List (List Char)) : interleaved gaps [] = gaps.flatten := by
  cases gaps <;> rfl

theorem Text.interleaved_cons (gap word : List Char) (gaps words : List (List Char)) :
    interleaved (gap :: gaps) (word :: words) = gap ++ (word ++ interleaved gaps words) :=
  rfl

namespace Cursor

/-- Where a result of `next` points to: the start of a lexeme, or the characters at fault. -/
def place : Except LexError Lexeme → Nat
  | .ok lexeme => lexeme.span.start
  | .error error => error.position

theorem place_next (cursor : Cursor) : place cursor.next.1 = cursor.skipBlanks.position := by
  unfold next
  dsimp only
  split <;> rfl

namespace Walk

variable {text : String} {cursor last : Cursor} {lexemes : List Lexeme}

theorem inside (walk : Walk cursor lexemes last) (inside : Inside text cursor) :
    Inside text last := by
  induction walk with
  | done => exact inside
  | step found _ _ ih =>
      have later := inside.next
      rw [found] at later
      exact ih later

theorem ne_endOfInput (walk : Walk cursor lexemes last) :
    ∀ lexeme ∈ lexemes, lexeme.token ≠ .endOfInput := by
  induction walk with
  | done => simp
  | step _ within _ ih => exact List.forall_mem_cons.mpr ⟨within, ih⟩

/-- The lexemes of a walk keep the characters of their spans. -/
theorem slice_span (walk : Walk cursor lexemes last) (inside : Inside text cursor) :
    ∀ lexeme ∈ lexemes, lexeme.span.slice text = lexeme.source := by
  induction walk with
  | done => simp
  | step found within _ ih =>
      have later := inside.next
      rw [found] at later
      exact List.forall_mem_cons.mpr ⟨inside.slice_span found within, ih later⟩

/-- The calls on a walk return its lexemes, and the next one the result behind them. -/
theorem take_eq (walk : Walk cursor lexemes last) :
    take (lexemes.length + 1) cursor = lexemes.map .ok ++ [last.next.1] := by
  induction walk with
  | done => rfl
  | step found _ _ ih => rw [List.length_cons, take, found, ih, List.map_cons, List.cons_append]

/-- What a walk passes is made up of blanks and lexemes in turn. -/
theorem exists_gaps (walk : Walk cursor lexemes last) :
    ∃ gaps, gaps.length = lexemes.length + 1 ∧
      (∀ gap ∈ gaps, ∀ char ∈ gap, isBlank char = true) ∧
      cursor.rest = interleaved gaps (lexemes.map fun lexeme => lexeme.source.toList) ++
        last.skipBlanks.rest := by
  induction walk with
  | @done cursor =>
      refine ⟨[cursor.rest.takeWhile isBlank], rfl, ?_, ?_⟩
      · rw [List.forall_mem_singleton]
        exact fun char => List.mem_takeWhile_imp
      · simp [interleaved_nil, skipBlanks]
  | @step cursor after last lexeme lexemes found within _ ih =>
      obtain ⟨gaps, length, blank, whole⟩ := ih
      obtain ⟨gap, taken, rest, blankGap, _, shape, written, rfl⟩ := exists_of_next found within
      have source : lexeme.source.toList = taken := by
        rw [written]
        exact String.toList_ofList
      refine ⟨gap :: gaps, by rw [List.length_cons, length, List.length_cons], ?_, ?_⟩
      · exact List.forall_mem_cons.mpr ⟨blankGap, blank⟩
      · simp only at whole
        rw [shape, whole, List.map_cons, interleaved_cons, source]
        simp only [List.append_assoc]

end Walk

end Cursor

/-- Names and date-times are tokens that keep what they are written with. -/
theorem Scanned.kept {taken rest : List Char} {token : Token} {written : String}
    (scanned : Scanned taken token rest)
    (keeps : token = .identifier written ∨ token = .literal (.timestamp written)) :
    String.ofList taken = written := by
  rcases keeps with rfl | isDate
  · exact scanned.spelling rfl
  · cases scanned with
    | timestamp => simpa using isDate
    | keyword reserved =>
        subst isDate
        cases isReserved_of_keyword? reserved
    | _ => cases isDate

namespace Cursor

/-- The end of the text is found just where only blanks are left. -/
theorem exists_endOfInput_iff {cursor : Cursor} :
    (∃ lexeme, cursor.next.1 = .ok lexeme ∧ lexeme.token = .endOfInput) ↔
      ∀ char ∈ cursor.rest, isBlank char = true := by
  constructor
  · rintro ⟨lexeme, found, ends⟩
    exact blank_of_next (next_eq_of_fst found) ends
  · intro blank
    exact ⟨_, congrArg Prod.fst (next_of_blank blank), rfl⟩

/-- The end of the text stands at its last position. -/
theorem Inside.span_endOfInput {text : String} {cursor : Cursor} {lexeme : Lexeme}
    (inside : Inside text cursor) (found : cursor.next.1 = .ok lexeme)
    (ends : lexeme.token = .endOfInput) :
    lexeme.span = ⟨text.toList.length, text.toList.length⟩ := by
  have blank := blank_of_next (next_eq_of_fst found) ends
  rw [next_of_blank blank, Except.ok.injEq] at found
  obtain ⟨front, whole, position⟩ := inside
  rw [← found, whole, List.length_append, ← position]
  rfl

end Cursor

/-- The calls of `next` on a text move through it from the front to the end. Each lexeme is a
piece of the text that only blanks separate from the position before the call, and the end is
found just where only blanks are left. The first calls, at most one more than the text has
characters, lead to the end or to a fault, and the text before it consists of the lexemes found
and of the blanks around them. -/
theorem lexemes_tile (text : String) :
    (Monotone fun count => ((Cursor.start text).after count).position) ∧
    (∀ count, let cursor := (Cursor.start text).after count
      cursor.position ≤ text.toList.length ∧
      (∀ lexeme, cursor.next.1 = .ok lexeme → lexeme.token ≠ .endOfInput →
        lexeme.StandsIn text cursor.position) ∧
      ((∃ lexeme, cursor.next.1 = .ok lexeme ∧ lexeme.token = .endOfInput) ↔
        ∀ char ∈ text.toList.drop cursor.position, isBlank char = true) ∧
      (∀ lexeme, cursor.next.1 = .ok lexeme → lexeme.token = .endOfInput →
        lexeme.span = ⟨text.toList.length, text.toList.length⟩) ∧
      ∀ lexeme written, cursor.next.1 = .ok lexeme →
        lexeme.token = .identifier written ∨ lexeme.token = .literal (.timestamp written) →
          lexeme.span.slice text = written) ∧
    ∃ (found : List Lexeme) (last : Except LexError Lexeme) (gaps : List (List Char)),
      (Cursor.start text).take (found.length + 1) = found.map .ok ++ [last] ∧
      found.length ≤ text.toList.length ∧ (∀ lexeme ∈ found, lexeme.token ≠ .endOfInput) ∧
      Cursor.isLast last = true ∧ gaps.length = found.length + 1 ∧
      (∀ gap ∈ gaps, ∀ char ∈ gap, isBlank char = true) ∧
      text.toList.take (Cursor.place last) =
        interleaved gaps (found.map fun lexeme => (lexeme.span.slice text).toList) := by
  refine ⟨?_, fun count => ?_, ?_⟩
  · exact monotone_nat_of_le_succ fun count => Cursor.position_le_next _
  · have inside := Cursor.inside_after text count
    dsimp only
    rw [inside.drop_eq]
    refine ⟨inside.position_le, ?_, Cursor.exists_endOfInput_iff, ?_, ?_⟩
    · intro lexeme found within
      exact inside.standsIn (Cursor.next_eq_of_fst found) within
    · intro lexeme found ends
      exact inside.span_endOfInput found ends
    · intro lexeme written found keeps
      have within : lexeme.token ≠ .endOfInput := by
        rintro ends
        rw [ends] at keeps
        rcases keeps with other | other <;> cases other
      have found := Cursor.next_eq_of_fst found
      obtain ⟨taken, scanned, source, _⟩ := inside.exists_taken found within
      rw [inside.slice_span found within, source]
      exact scanned.kept keeps
  · obtain ⟨found, last, walk, ends⟩ := Cursor.Walk.exists_last (.start text)
    obtain ⟨gaps, length, blank, whole⟩ := walk.exists_gaps
    have inside := Cursor.inside_start text
    have short := walk.length_add_le
    refine ⟨found, last.next.1, gaps, walk.take_eq, ?_, ?_, ends, length, blank, ?_⟩
    · exact Nat.le_trans (Nat.le_add_right _ _) short
    · exact walk.ne_endOfInput
    · have stands := (walk.inside inside).skipBlanks
      have sources : found.map (fun lexeme => (lexeme.span.slice text).toList) =
          found.map fun lexeme => lexeme.source.toList :=
        List.map_congr_left fun lexeme mem => by rw [walk.slice_span inside lexeme mem]
      rw [sources, Cursor.place_next]
      have parts := List.take_append_drop last.skipBlanks.position text.toList
      rw [stands.drop_eq] at parts
      exact List.append_cancel_right (parts.trans whole)

/-- In `a $ b` the lone dollar sign is a fault, and the call after it finds the name behind. -/
theorem lexemes_tile_dollar :
    ((Cursor.start "a $ b").after 2).next.1 = .ok ⟨.identifier "b", ⟨4, 5⟩, "b"⟩ ∧
      Lexeme.StandsIn "a $ b" 3 ⟨.identifier "b", ⟨4, 5⟩, "b"⟩ ∧
      Span.slice ⟨4, 5⟩ "a $ b" = "b" := by
  have found : ((Cursor.start "a $ b").after 2).next.1 = .ok ⟨.identifier "b", ⟨4, 5⟩, "b"⟩ := by
    cbv
  have call := (lexemes_tile "a $ b").2.1 2
  exact ⟨found, call.2.1 _ found (by simp), call.2.2.2.2 _ _ found (.inl rfl)⟩

end QueryClause
