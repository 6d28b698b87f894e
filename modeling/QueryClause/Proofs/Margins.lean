import QueryClause.Proofs.Slices
import QueryClause.Proofs.Splice

/-!
# Blanks at the ends of a text

A text is parsed like what is left of it without the blanks at its ends: the one is accepted
where the other is, and the blanks in front only move the tree.
-/

namespace QueryClause

open QueryClause.Text QueryClause.Grammar

/-! ## The ends of a token -/

/-- A reader that ends before every stop takes no blank. -/
theorem Extends.isBlank_eq_false {reader : List Char → List Char × List Char}
    (stopping : Extends reader) (lossless : Lossless reader) {chars taken rest : List Char}
    (found : reader chars = (taken, rest)) {char : Char} (mem : char ∈ taken) :
    isBlank char = false := by
  refine Bool.eq_false_iff.mpr fun blank => ?_
  have stop : isStop char = true := by simp [isStop, blank]
  obtain ⟨before, after, rfl⟩ := List.append_of_mem mem
  have whole : chars = before ++ char :: (after ++ rest) := by
    have parts := lossless chars
    rwa [found, List.append_assoc, eq_comm] at parts
  have cut := @stopping before (char :: (after ++ rest)) (stops_cons.mpr stop)
  rw [← whole, found, Prod.mk.injEq] at cut
  have lengths := congrArg List.length (lossless before)
  rw [← cut.1] at lengths
  simp at lengths

theorem Numeral.read_stops :
    Extends fun chars => ((Numeral.read chars).chars, (Numeral.read chars).rest) := by
  intro chars more stops
  dsimp only
  rw [Numeral.read_extend stops]

/-- A token does not end with a blank. -/
theorem Scanned.visible_of_mem_getLast? {taken rest : List Char} {token : Token}
    (scanned : Scanned taken token rest) {char : Char} (last : char ∈ taken.getLast?) :
    isBlank char = false := by
  have mem : char ∈ taken := List.mem_of_getLast? last
  cases scanned with
  | openParen | closeParen | comma | minus =>
      obtain rfl := List.mem_singleton.mp mem
      decide
  | text => exact (trimmed_written _).2 char last
  | number _ _ read =>
      exact Numeral.read_stops.isBlank_eq_false Numeral.read_append (by rw [read]) mem
  | timestamp read =>
      have inside := (DateTime.read?_eq_some_iff.mp read).1 char mem
      refine Bool.eq_false_iff.mpr fun blank => ?_
      rw [(apart_of_isBlank blank).2.1] at inside
      cases inside
  | keyword reserved =>
      have part := (word_of_reserved reserved).1 char mem
      refine Bool.eq_false_iff.mpr fun blank => ?_
      rw [(apart_of_isBlank blank).1] at part
      cases part
  | path _ read => exact Word.readPath_extends.isBlank_eq_false Word.readPath_lossless read mem
  | dollarPath _ read =>
      rcases List.mem_cons.mp mem with rfl | later
      · decide
      · exact Word.readPath_extends.isBlank_eq_false Word.readPath_lossless read later

/-! ## Walks over a text with margins -/

/-- Blanks at the end of a text are behind everything that does not end with a blank. -/
theorem Text.exists_of_append_blank {front rest core trail : List Char}
    (whole : front ++ rest = core ++ trail) (blank : ∀ char ∈ trail, isBlank char = true)
    (visible : ∀ char ∈ front.getLast?, isBlank char = false) :
    ∃ between, core = front ++ between ∧ rest = between ++ trail := by
  rcases List.append_eq_append_iff.mp whole with ⟨between, here, behind⟩ | ⟨excess, here, behind⟩
  · exact ⟨between, here, behind⟩
  · cases last : excess.getLast? with
    | none =>
        obtain rfl := List.getLast?_eq_none_iff.mp last
        exact ⟨[], by simpa using here.symm, by simpa using behind.symm⟩
    | some char =>
        have bare := visible char (by rw [here, List.getLast?_append, last]; rfl)
        have inTrail : char ∈ trail := by
          rw [behind]
          exact List.mem_append_left _ (List.mem_of_getLast? last)
        rw [blank char inTrail] at bare
        cases bare

namespace Cursor.Walk

variable {last : Cursor} {lexemes : List Lexeme} {position : Nat} {lead core trail : List Char}

/-- Blanks before a text are not needed. -/
theorem unindent (walk : Walk ⟨position, lead ++ core⟩ lexemes last)
    (blank : ∀ char ∈ lead, isBlank char = true) (some : lexemes ≠ []) :
    Walk ⟨position + lead.length, core⟩ lexemes last := by
  cases walk with
  | done => exact absurd rfl some
  | @step _ after _ lexeme others found inside walk =>
      obtain ⟨gap, taken, rest, blankGap, scanned, whole, written, rfl⟩ :=
        exists_of_next found inside
      obtain ⟨first, more, shape, visible⟩ := scanned.exists_first
      obtain ⟨less, gap_eq, core_eq⟩ :
          ∃ less, gap = lead ++ less ∧ core = less ++ (taken ++ rest) := by
        rcases List.append_eq_append_iff.mp whole with split | ⟨excess, here, behind⟩
        · exact split
        · cases excess with
          | nil => exact ⟨[], by simpa using here.symm, by simpa using behind.symm⟩
          | cons char chars =>
              rw [shape, List.cons_append, List.cons_append, List.cons.injEq] at behind
              rw [behind.1, blank char (by simp [here])] at visible
              cases visible
      subst gap_eq core_eq
      rw [List.forall_mem_append] at blankGap
      have next := next_of_scanned (position + lead.length) blankGap.2 scanned
      simp only [List.length_append, ← Nat.add_assoc] at written walk ⊢
      rw [← written] at next
      exact .step next inside walk

/-- Blanks behind a text are left over. -/
theorem pad {cursor : Cursor} (walk : Walk cursor lexemes last)
    (blank : ∀ char ∈ trail, isBlank char = true) :
    Walk ⟨cursor.position, cursor.rest ++ trail⟩ lexemes ⟨last.position, last.rest ++ trail⟩ := by
  induction walk with
  | done => exact .done
  | @step cursor after last lexeme lexemes found inside walk ih =>
      obtain ⟨gap, taken, rest, blankGap, scanned, whole, written, rfl⟩ :=
        exists_of_next found inside
      have next := next_of_scanned cursor.position blankGap
        (scanned.extend_blank fun char first => blank char (List.mem_of_mem_head? first))
      rw [← written, ← List.append_assoc taken, ← List.append_assoc gap, ← whole] at next
      exact .step next inside ih

/-- Blanks behind a text are not needed. -/
theorem unpad {cursor : Cursor} (walk : Walk cursor lexemes last)
    (whole : cursor.rest = core ++ trail) (blank : ∀ char ∈ trail, isBlank char = true)
    (free : ∀ lexeme ∈ lexemes, ∀ name, lexeme.token = .identifier name →
      Token.keyword? name = none) :
    ∃ rest, last.rest = rest ++ trail ∧
      Walk ⟨cursor.position, core⟩ lexemes ⟨last.position, rest⟩ := by
  induction walk generalizing core with
  | done => exact ⟨core, whole, .done⟩
  | @step cursor after last lexeme lexemes found inside walk ih =>
      rw [List.forall_mem_cons] at free
      obtain ⟨gap, taken, rest, blankGap, scanned, shape, written, rfl⟩ :=
        exists_of_next found inside
      obtain ⟨first, more, taken_eq, _⟩ := scanned.exists_first
      have ends : ∀ char ∈ (gap ++ taken).getLast?, isBlank char = false := by
        intro char final
        refine scanned.visible_of_mem_getLast? ?_
        rwa [List.getLast?_append_of_ne_nil _ (by simp [taken_eq])] at final
      rw [shape, ← List.append_assoc] at whole
      obtain ⟨between, rfl, rfl⟩ := exists_of_append_blank whole blank ends
      obtain ⟨left, rest_eq, walkCore⟩ := ih rfl free.2
      have next := next_of_scanned cursor.position blankGap (scanned.prune fun _ => free.1)
      rw [← written, ← List.append_assoc] at next
      exact ⟨left, rest_eq, .step next inside walkCore⟩

end Cursor.Walk

/-! ## Trees of a text with margins -/

section Margins

variable {lead core trail : List Char} {whole : Expr}
  (blankLead : ∀ char ∈ lead, isBlank char = true)
  (blankTrail : ∀ char ∈ trail, isBlank char = true)

include blankLead blankTrail

/-- Blanks at the ends of a text move its tree. -/
theorem parse_margins (parsed : parse (String.ofList core) = .ok whole) :
    parse (String.ofList (lead ++ (core ++ trail))) = .ok (whole.moved 0 lead.length) := by
  obtain ⟨found, lexes, derived, low⟩ := exists_derives_of_parse parsed
  obtain ⟨last, walk, ended⟩ := lexed_eq_ok_iff.mp lexes
  have walkMoved := (walk.moved lead.length (Nat.zero_le _)).pad blankTrail
  simp only [Cursor.moved, Cursor.start, Nat.sub_zero, String.toList_ofList] at walkMoved
  have some : found.map (Lexeme.moved 0 lead.length) ≠ [] := by
    simpa using derived.ne_nil
  have indented := walkMoved.indent blankLead some
  have lexesAll := lexed_eq_ok_iff.mpr ⟨_, by
    rw [Cursor.start, String.toList_ofList]
    exact indented, by
    rw [List.forall_mem_append]
    exact ⟨ended, blankTrail⟩⟩
  exact parse_of_lexed lexesAll derived.moved (by rwa [Expr.height_moved])

/-- Blanks at the ends of a text are not needed. -/
theorem exists_parse_core (parsed : parse (String.ofList (lead ++ (core ++ trail))) = .ok whole) :
    ∃ inner, parse (String.ofList core) = .ok inner := by
  obtain ⟨found, lexes, derived, low⟩ := exists_derives_of_parse parsed
  obtain ⟨last, walk, ended⟩ := lexed_eq_ok_iff.mp lexes
  have free := walk.names_free ended
  rw [Cursor.start, String.toList_ofList] at walk
  obtain ⟨rest, rest_eq, walkCore⟩ :=
    (walk.unindent blankLead derived.ne_nil).unpad rfl blankTrail free
  rw [rest_eq, List.forall_mem_append] at ended
  exact ⟨_, parse_of_walk walkCore ended.1 derived low⟩

end Margins

/-- The number of blanks a text begins with. -/
def Text.indent (text : String) : Nat :=
  (text.toList.takeWhile isBlank).length

/-- A text is accepted where it is accepted without the blanks at its ends, with the same
tree behind the blanks in front. -/
theorem parse_eq_ok_iff_trim {text : String} {whole : Expr} :
    parse text = .ok whole ↔
      ∃ inner, parse (String.ofList (trim text.toList)) = .ok inner ∧
        whole = inner.moved 0 (indent text) := by
  obtain ⟨trail, behind, blankTrail⟩ := trimEnd_append (trimStart text.toList)
  have blankLead : ∀ char ∈ text.toList.takeWhile isBlank, isBlank char = true :=
    fun _ => List.mem_takeWhile_imp
  have text_eq : String.ofList (text.toList.takeWhile isBlank ++
      (trim text.toList ++ trail)) = text := by
    rw [trim, behind, trimStart, List.takeWhile_append_dropWhile, String.ofList_toList]
  constructor
  · intro parsed
    rw [← text_eq] at parsed
    obtain ⟨inner, parsedInner⟩ := exists_parse_core blankLead blankTrail parsed
    have again := parse_margins blankLead blankTrail parsedInner
    rw [parsed, Except.ok.injEq] at again
    exact ⟨inner, parsedInner, again⟩
  · rintro ⟨inner, parsedInner, rfl⟩
    rw [← text_eq]
    have parsed := parse_margins blankLead blankTrail parsedInner
    rwa [text_eq] at parsed ⊢

end QueryClause
