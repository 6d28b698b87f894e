import Mathlib
import QueryClause.Proofs.RoundTrip
import QueryClause.Proofs.Tiling

/-!
# The blanks between lexemes

The lexemes of a text without faults can be written again with other blanks around them, as
long as some blank stands between each two. The new text has the same tokens with the same
written forms, and is parsed to the same tree, spans apart, or refused like the old one.
-/

namespace QueryClause

open QueryClause.Text

/-! ## Gaps around words -/

namespace Text

/-- Gaps around a number of words: one before each word and one behind the last, all of them
blank, and none of those between two words empty. -/
structure Gaps (count : Nat) (gaps : List (List Char)) : Prop where
  length_eq : gaps.length = count + 1
  blank : ∀ gap ∈ gaps, ∀ char ∈ gap, isBlank char = true
  apart : ∀ gap ∈ gaps.tail.dropLast, gap ≠ []

namespace Gaps

variable {count : Nat} {gap : List Char} {gaps : List (List Char)}

theorem exists_only (layout : Gaps 0 gaps) :
    ∃ gap, gaps = [gap] ∧ ∀ char ∈ gap, isBlank char = true := by
  obtain ⟨gap, rfl⟩ := List.length_eq_one_iff.mp layout.length_eq
  exact ⟨gap, rfl, layout.blank gap List.mem_cons_self⟩

/-- Behind the first word stand the gaps of the other words, and the first of them is not
empty if there is another word. -/
theorem exists_first (layout : Gaps (count + 1) gaps) :
    ∃ gap others, gaps = gap :: others ∧ (∀ char ∈ gap, isBlank char = true) ∧
      Gaps count others ∧ (0 < count → ∀ between ∈ others.head?, between ≠ []) := by
  obtain ⟨gap, others, rfl⟩ := List.exists_cons_of_length_eq_add_one layout.length_eq
  have length : others.length = count + 1 := Nat.succ.inj layout.length_eq
  have blank := List.forall_mem_cons.mp layout.blank
  have apart : ∀ between ∈ others.dropLast, between ≠ [] := layout.apart
  refine ⟨gap, others, rfl, blank.1, ⟨length, blank.2, ?_⟩, ?_⟩
  · intro between mem
    rw [← List.tail_dropLast] at mem
    exact apart between (List.mem_of_mem_tail mem)
  · intro more between first
    obtain ⟨behind, rfl⟩ := List.head?_eq_some_iff.mp first
    apply apart
    rw [List.dropLast_cons_of_ne_nil]
    · exact List.mem_cons_self
    · rintro rfl
      rw [List.length_singleton] at length
      omega

/-- Words and gaps in turn begin with a blank, unless they begin with a word. -/
theorem isBlank_head? (words : List (List Char)) (layout : Gaps words.length gaps)
    (apart : 0 < words.length → ∀ gap ∈ gaps.head?, gap ≠ []) :
    ∀ char ∈ (interleaved gaps words).head?, isBlank char = true := by
  cases words with
  | nil =>
      obtain ⟨gap, rfl, blank⟩ := layout.exists_only
      intro char first
      rw [interleaved_nil, List.flatten_singleton] at first
      exact blank char (List.mem_of_mem_head? first)
  | cons word words =>
      obtain ⟨gap, others, rfl, blank, -, -⟩ := layout.exists_first
      have some : gap ≠ [] := apart (Nat.zero_lt_succ _) gap rfl
      intro char first
      rw [interleaved_cons, List.head?_append_of_ne_nil _ some] at first
      exact blank char (List.mem_of_mem_head? first)

end Gaps

end Text

/-! ## Walks over a text with other gaps -/

/-- Lexemes that are tokens on their own are walked over whatever the gaps around them. -/
theorem Cursor.exists_walk_interleaved {lexemes : List Lexeme} {gaps : List (List Char)}
    (isolated : Isolated lexemes) (layout : Gaps lexemes.length gaps) (position : Nat) :
    ∃ again last,
      Walk ⟨position, interleaved gaps (lexemes.map fun lexeme => lexeme.source.toList)⟩
        again last ∧
      (∀ char ∈ last.rest, isBlank char = true) ∧
      again.map Lexeme.word = lexemes.map Lexeme.word := by
  induction lexemes generalizing gaps position with
  | nil =>
      obtain ⟨gap, rfl, blank⟩ := layout.exists_only
      refine ⟨[], _, .done, ?_, rfl⟩
      rw [List.map_nil, interleaved_nil, List.flatten_singleton]
      exact blank
  | cons lexeme lexemes ih =>
      obtain ⟨⟨_, alone⟩, isolatedOthers⟩ := isolated_cons.mp isolated
      obtain ⟨gap, others, rfl, blank, layoutOthers, apart⟩ := layout.exists_first
      rw [List.map_cons, interleaved_cons]
      have scanned := alone.extend_blank
        (Gaps.isBlank_head? (lexemes.map fun lexeme => lexeme.source.toList)
          (by rwa [List.length_map]) (by rwa [List.length_map]))
      have found := next_of_scanned position blank scanned
      obtain ⟨again, last, walk, ended, same⟩ :=
        ih isolatedOthers layoutOthers (position + gap.length + lexeme.source.toList.length)
      refine ⟨_, last, .step found scanned.ne_endOfInput walk, ended, ?_⟩
      rw [List.map_cons, List.map_cons, same, Lexeme.word, Lexeme.written, String.ofList_toList]
      rfl

/-! ## Texts with other gaps -/

/-- The lexemes of a text written again with other gaps around them. -/
def relaid (text : String) (lexemes : List Lexeme) (gaps : List (List Char)) : String :=
  String.ofList (interleaved gaps (lexemes.map fun lexeme => (lexeme.span.slice text).toList))

theorem lexed_slice_span {text : String} {found : List Lexeme} (lexes : lexed text = .ok found) :
    ∀ lexeme ∈ found, lexeme.span.slice text = lexeme.source := by
  obtain ⟨last, walk, _⟩ := lexed_eq_ok_iff.mp lexes
  exact walk.slice_span (Cursor.inside_start text)

theorem exists_lexed_relaid {text : String} {found : List Lexeme} {gaps : List (List Char)}
    (lexes : lexed text = .ok found) (layout : Gaps found.length gaps) :
    ∃ again, lexed (relaid text found gaps) = .ok again ∧
      again.map Lexeme.word = found.map Lexeme.word := by
  obtain ⟨last, walk, ended⟩ := lexed_eq_ok_iff.mp lexes
  obtain ⟨again, final, walkAgain, endedAgain, same⟩ :=
    Cursor.exists_walk_interleaved (plain_and_scanned_of_walk walk ended) layout 0
  refine ⟨again, lexed_eq_ok_iff.mpr ⟨final, ?_, endedAgain⟩, same⟩
  have sources : found.map (fun lexeme => (lexeme.span.slice text).toList) =
      found.map fun lexeme => lexeme.source.toList :=
    List.map_congr_left fun lexeme mem => by rw [lexed_slice_span lexes lexeme mem]
  rwa [Cursor.start, relaid, String.toList_ofList, sources]

/-- Texts with the same tokens and written forms have the same tree, spans apart. -/
theorem exists_parse_of_words {text other : String} {found others : List Lexeme} {whole : Expr}
    (lexes : lexed text = .ok found) (lexesOther : lexed other = .ok others)
    (same : others.map Lexeme.word = found.map Lexeme.word) (parsed : parse text = .ok whole) :
    ∃ tree, parse other = .ok tree ∧ tree.unspanned = whole.unspanned :=
  exists_parse_of_labeled lexes parsed lexesOther (Lexeme.map_labeled_of_map_word same)

/-- A text without faults keeps its tokens and their written forms when the blanks around them
change, and it keeps its tree, spans apart, or stays refused. -/
theorem parse_relaid {text : String} {found : List Lexeme} {gaps : List (List Char)}
    (lexes : lexed text = .ok found) (layout : Gaps found.length gaps) :
    (∃ again, lexed (relaid text found gaps) = .ok again ∧
      again.map Lexeme.token = found.map Lexeme.token ∧
      again.map (fun lexeme => lexeme.span.slice (relaid text found gaps)) =
        found.map fun lexeme => lexeme.span.slice text) ∧
    (∀ whole, parse text = .ok whole →
      ∃ other, parse (relaid text found gaps) = .ok other ∧ other.unspanned = whole.unspanned) ∧
    ∀ error, parse text = .error error →
      ∃ other, parse (relaid text found gaps) = .error other := by
  obtain ⟨again, lexesAgain, same⟩ := exists_lexed_relaid lexes layout
  refine ⟨⟨again, lexesAgain, ?_, ?_⟩, ?_, ?_⟩
  · have tokens := congrArg (List.map Prod.fst) same
    rwa [List.map_map, List.map_map] at tokens
  · have sources := congrArg (List.map Prod.snd) same
    rw [List.map_map, List.map_map] at sources
    rw [List.map_congr_left (lexed_slice_span lexesAgain),
      List.map_congr_left (lexed_slice_span lexes)]
    exact sources
  · intro whole parsed
    exact exists_parse_of_words lexes lexesAgain same parsed
  · intro error refused
    cases parsed : parse (relaid text found gaps) with
    | error other => exact ⟨other, rfl⟩
    | ok other =>
        obtain ⟨whole, accepted, _⟩ := exists_parse_of_words lexesAgain lexes same.symm parsed
        rw [refused] at accepted
        cases accepted

/-- The text `not'a'` with blanks around its two lexemes. -/
theorem parse_relaid_not :
    Gaps 2 [[' '], ['\t'], ['\n']] ∧
      ∃ whole other, parse "not'a'" = .ok whole ∧ parse " not\t'a'\n" = .ok other ∧
        other.unspanned = whole.unspanned := by
  have lexes : lexed "not'a'" =
      .ok [⟨.not, ⟨0, 3⟩, "not"⟩, ⟨.literal (.text "a"), ⟨3, 6⟩, "'a'"⟩] :=
    lexed_of_toOption (by decide +kernel)
  have layout : Gaps 2 [[' '], ['\t'], ['\n']] := by
    have blank : isBlank ' ' = true ∧ isBlank '\t' = true ∧ isBlank '\n' = true := by decide
    exact ⟨rfl, by simpa using blank, by decide⟩
  have parsed : parse "not'a'" =
      .ok (.unary .not (.literal "'a'" (.text "a") ⟨3, 6⟩) ⟨0, 6⟩) := by cbv
  obtain ⟨other, accepted, same⟩ := (parse_relaid lexes layout).2.1 _ parsed
  exact ⟨layout, _, other, parsed, accepted, same⟩

end QueryClause
