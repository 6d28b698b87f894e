import QueryClause.Proofs.ScannedContext

/-!
# Walks over the lexemes of a text

A walk leads from cursor to cursor over the lexemes between them. Every cursor has a
walk to the end of its text or to its first fault, and the lexemes of a text are those
of that walk.
-/

namespace QueryClause

open QueryClause.Text

/-- The lexeme of a token that is written at a position. -/
def Lexeme.written (token : Token) (position : Nat) (taken : List Char) : Lexeme :=
  ⟨token, ⟨position, position + taken.length⟩, String.ofList taken⟩

namespace Cursor

/-! ## One step -/

/-- A token after blanks is the next lexeme. -/
theorem next_of_scanned (position : Nat) {gap taken rest : List Char} {token : Token}
    (blank : ∀ char ∈ gap, isBlank char = true) (scanned : Scanned taken token rest) :
    next ⟨position, gap ++ (taken ++ rest)⟩ =
      (.ok (.written token (position + gap.length) taken),
        ⟨position + gap.length + taken.length, rest⟩) := by
  obtain ⟨first, others, rfl, visible⟩ := scanned.exists_first
  have outside : ∀ char ∈ (first :: others ++ rest).head?, isBlank char = false := by
    simpa using visible
  have skipped := run_append blank outside
  simp only [run, Prod.mk.injEq] at skipped
  simp only [next, skipBlanks, skipped, scanned.scan_eq, Lexeme.written]

/-- The next lexeme is a token after blanks. -/
theorem exists_of_next {cursor after : Cursor} {lexeme : Lexeme}
    (found : cursor.next = (.ok lexeme, after)) (inside : lexeme.token ≠ .endOfInput) :
    ∃ gap taken rest, (∀ char ∈ gap, isBlank char = true) ∧
      Scanned taken lexeme.token rest ∧ cursor.rest = gap ++ (taken ++ rest) ∧
      lexeme = .written lexeme.token (cursor.position + gap.length) taken ∧
      after = ⟨cursor.position + gap.length + taken.length, rest⟩ := by
  have whole := scan_append cursor.skipBlanks.rest
  unfold next at found
  dsimp only at found
  split at found
  · rename_i token outcome
    simp only [Prod.mk.injEq, Except.ok.injEq] at found
    obtain ⟨rfl, rfl⟩ := found
    have nonempty : cursor.skipBlanks.rest ≠ [] := by
      intro empty
      simp only [empty, scan, Except.ok.injEq] at outcome
      exact inside outcome.symm
    refine ⟨cursor.rest.takeWhile isBlank, _, _, ?_, scanned_of_scan nonempty outcome, ?_, rfl, rfl⟩
    · intro char mem
      exact List.all_eq_true.mp List.all_takeWhile char mem
    · rw [whole]
      exact List.takeWhile_append_dropWhile.symm
  · simp at found

/-- The text ends where nothing but blanks is left. -/
theorem next_of_blank {cursor : Cursor} (blank : ∀ char ∈ cursor.rest, isBlank char = true) :
    cursor.next = (.ok (.written .endOfInput (cursor.position + cursor.rest.length) []),
      ⟨cursor.position + cursor.rest.length, []⟩) := by
  have outside : ∀ char ∈ ([] : List Char).head?, isBlank char = false := by simp
  have skipped := run_append blank outside
  simp only [run, List.append_nil, Prod.mk.injEq] at skipped
  simp [next, skipBlanks, skipped, scan, Lexeme.written]

theorem blank_of_next {cursor after : Cursor} {lexeme : Lexeme}
    (found : cursor.next = (.ok lexeme, after)) (ends : lexeme.token = .endOfInput) :
    ∀ char ∈ cursor.rest, isBlank char = true := by
  unfold next at found
  dsimp only at found
  split at found
  · rename_i token outcome
    simp only [Prod.mk.injEq, Except.ok.injEq] at found
    obtain ⟨rfl, rfl⟩ := found
    have empty : cursor.skipBlanks.rest = [] := by
      cases rest : cursor.skipBlanks.rest with
      | nil => rfl
      | cons first others =>
          rw [rest] at outcome
          exact absurd ends (scanned_of_scan (List.cons_ne_nil _ _) outcome).ne_endOfInput
    have whole := List.takeWhile_append_dropWhile (p := isBlank) (l := cursor.rest)
    rw [show cursor.rest.dropWhile isBlank = [] from empty, List.append_nil] at whole
    intro char mem
    rw [← whole] at mem
    exact List.all_eq_true.mp List.all_takeWhile char mem
  · simp at found

/-- A step that is not the last makes the rest of the text shorter. -/
theorem length_rest_lt {cursor after : Cursor} {lexeme : Lexeme}
    (found : cursor.next = (.ok lexeme, after)) (inside : lexeme.token ≠ .endOfInput) :
    after.rest.length < cursor.rest.length := by
  obtain ⟨gap, taken, rest, _, scanned, whole, _, rfl⟩ := exists_of_next found inside
  obtain ⟨first, others, rfl, _⟩ := scanned.exists_first
  rw [whole]
  simp only [List.length_append, List.length_cons]
  omega

theorem length_rest_le {cursor after : Cursor} {lexeme : Lexeme}
    (found : cursor.next = (.ok lexeme, after)) : after.rest.length ≤ cursor.rest.length := by
  by_cases ends : lexeme.token = .endOfInput
  · rw [next_of_blank (blank_of_next found ends)] at found
    cases found
    exact Nat.zero_le _
  · exact Nat.le_of_lt (length_rest_lt found ends)

/-! ## Many steps -/

/-- A walk over lexemes, none of which is the end of the text. -/
inductive Walk : Cursor → List Lexeme → Cursor → Prop where
  | done {cursor : Cursor} : Walk cursor [] cursor
  | step {cursor after last : Cursor} {lexeme : Lexeme} {lexemes : List Lexeme}
      (found : cursor.next = (.ok lexeme, after)) (inside : lexeme.token ≠ .endOfInput)
      (walk : Walk after lexemes last) : Walk cursor (lexeme :: lexemes) last

namespace Walk

theorem append {cursor middle last : Cursor} {first second : List Lexeme}
    (walk : Walk cursor first middle) (more : Walk middle second last) :
    Walk cursor (first ++ second) last := by
  induction walk with
  | done => exact more
  | step found inside _ ih => exact .step found inside (ih more)

theorem split {cursor last : Cursor} {first second : List Lexeme}
    (walk : Walk cursor (first ++ second) last) :
    ∃ middle, Walk cursor first middle ∧ Walk middle second last := by
  induction first generalizing cursor with
  | nil => exact ⟨cursor, .done, walk⟩
  | cons lexeme others ih =>
      cases walk with
      | step found inside walk =>
          obtain ⟨middle, before, behind⟩ := ih walk
          exact ⟨middle, .step found inside before, behind⟩

/-- A walk to the end of a text takes what is not blank. -/
theorem exists_step {cursor last : Cursor} {lexemes : List Lexeme}
    (walk : Walk cursor lexemes last)
    (ended : ∀ char ∈ last.rest, isBlank char = true)
    (visible : ∃ char ∈ cursor.rest, isBlank char = false) :
    ∃ lexeme others after, lexemes = lexeme :: others ∧ cursor.next = (.ok lexeme, after) ∧
      lexeme.token ≠ .endOfInput ∧ Walk after others last := by
  cases walk with
  | done =>
      obtain ⟨char, mem, isVisible⟩ := visible
      rw [ended char mem] at isVisible
      cases isVisible
  | step found inside walk => exact ⟨_, _, _, rfl, found, inside, walk⟩

/-- Every lexeme takes at least one character. -/
theorem length_add_le {cursor last : Cursor} {lexemes : List Lexeme}
    (walk : Walk cursor lexemes last) : lexemes.length + last.rest.length ≤ cursor.rest.length := by
  induction walk with
  | done => simp
  | step found inside _ ih =>
      have shorter := length_rest_lt found inside
      simp only [List.length_cons]
      omega

/-- Every cursor has a walk to the end of the text or to a fault. -/
theorem exists_last (cursor : Cursor) :
    ∃ lexemes last, Walk cursor lexemes last ∧ isLast last.next.1 = true := by
  cases ends : isLast cursor.next.1 with
  | true => exact ⟨[], cursor, .done, ends⟩
  | false =>
      cases found : cursor.next with
      | mk result after =>
          cases result with
          | error error => simp [found, isLast] at ends
          | ok lexeme =>
              have inside : lexeme.token ≠ .endOfInput := by simpa [found, isLast] using ends
              have shorter := length_rest_lt found inside
              obtain ⟨lexemes, last, walk, atEnd⟩ := exists_last after
              exact ⟨lexeme :: lexemes, last, .step found inside walk, atEnd⟩
termination_by cursor.rest.length

/-- The results up to the last are the lexemes of the walk to it. -/
theorem takeUntilLast_eq {cursor last : Cursor} {lexemes : List Lexeme} {count : Nat}
    (walk : Walk cursor lexemes last) (ends : isLast last.next.1 = true)
    (enough : lexemes.length < count) :
    takeUntilLast count cursor = lexemes.map .ok ++ [last.next.1] := by
  induction walk generalizing count with
  | done =>
      cases count with
      | zero => simp at enough
      | succ count => simp [takeUntilLast, ends]
  | @step cursor after last lexeme lexemes found inside _ ih =>
      cases count with
      | zero => simp at enough
      | succ count =>
          have goesOn : isLast (.ok lexeme) = false := by simpa [isLast] using inside
          have later : takeUntilLast count after = _ := ih ends (by simpa using enough)
          simp [takeUntilLast, goesOn, found, later]

end Walk

end Cursor

/-! ## The lexemes of a text -/

/-- The lexemes of a text before its end, or its first fault. -/
def lexed (text : String) : Except LexError (List Lexeme) := do
  let found ← (lexemes text).mapM id
  return found.dropLast

theorem mapM_id_ok (lexemes : List Lexeme) (result : Except LexError Lexeme) :
    (lexemes.map Except.ok ++ [result]).mapM id = result.map fun last => lexemes ++ [last] := by
  induction lexemes with
  | nil => cases result <;> rfl
  | cons lexeme others ih =>
      rw [List.map_cons, List.cons_append, List.mapM_cons, ih]
      cases result <;> rfl

/-- The results of a text are the lexemes of the walk to its end or to its first fault. -/
theorem lexemes_eq {text : String} {found : List Lexeme} {last : Cursor}
    (walk : Cursor.Walk (.start text) found last) (ends : Cursor.isLast last.next.1 = true) :
    lexemes text = found.map .ok ++ [last.next.1] := by
  have short := walk.length_add_le
  have enough : found.length < text.toList.length + 1 := by
    simp only [Cursor.start] at short
    omega
  exact walk.takeUntilLast_eq ends enough

/-- The lexemes of a text are those of the walk to its end or to its first fault. -/
theorem lexed_eq {text : String} {found : List Lexeme} {last : Cursor}
    (walk : Cursor.Walk (.start text) found last) (ends : Cursor.isLast last.next.1 = true) :
    lexed text = last.next.1.map fun _ => found := by
  unfold lexed
  rw [lexemes_eq walk ends, mapM_id_ok]
  cases last.next.1 <;> simp [bind, Except.bind, Except.map, pure, Except.pure]

/-- Whether a text has given lexemes can be evaluated. -/
theorem lexed_of_toOption {text : String} {found : List Lexeme}
    (lexes : (lexed text).toOption = some found) : lexed text = .ok found := by
  cases ran : lexed text with
  | error error =>
      rw [ran] at lexes
      cases lexes
  | ok same =>
      rw [ran] at lexes
      cases lexes
      rfl

theorem lexed_eq_ok_iff {text : String} {found : List Lexeme} :
    lexed text = .ok found ↔
      ∃ last, Cursor.Walk (.start text) found last ∧ ∀ char ∈ last.rest, isBlank char = true := by
  constructor
  · intro lexes
    obtain ⟨walked, last, walk, ends⟩ := Cursor.Walk.exists_last (.start text)
    rw [lexed_eq walk ends] at lexes
    cases next : last.next with
    | mk result after =>
        cases result with
        | error error => simp [next, Except.map] at lexes
        | ok lexeme =>
            obtain rfl : walked = found := by simpa [next, Except.map] using lexes
            refine ⟨last, walk, Cursor.blank_of_next next ?_⟩
            simpa [next, Cursor.isLast] using ends
  · rintro ⟨last, walk, blank⟩
    have next := Cursor.next_of_blank blank
    rw [lexed_eq walk (by simp [next, Cursor.isLast, Lexeme.written]), next]
    rfl

end QueryClause
