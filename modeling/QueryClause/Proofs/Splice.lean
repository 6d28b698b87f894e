import QueryClause.Proofs.Isolated
import QueryClause.Proofs.Relabel

/-!
# Replacing a string literal in a text

Where a string literal of a text is replaced by another one, the lexemes before it stay
as they are, and those after it are only moved. The ends of the text stay free of blanks.
-/

namespace QueryClause

open QueryClause.Text

/-! ## Texts without blanks at their ends -/

namespace Text

/-- Neither end of the text is a blank. -/
def Trimmed (chars : List Char) : Prop :=
  (∀ char ∈ chars.head?, isBlank char = false) ∧ ∀ char ∈ chars.getLast?, isBlank char = false

theorem visible_of_mem_getLast?_trimEnd {chars : List Char} :
    ∀ char ∈ (trimEnd chars).getLast?, isBlank char = false := by
  induction chars with
  | nil => simp [trimEnd]
  | cons first rest ih =>
      unfold trimEnd
      split
      · split
        · simp
        · rename_i visible
          simpa using visible
      · rename_i kept
        cases kept : trimEnd rest with
        | nil => contradiction
        | cons second others =>
            rw [kept] at ih
            rwa [List.getLast?_cons_cons]

theorem trimmed_trim (chars : List Char) : Trimmed (trim chars) := by
  refine ⟨fun char first => ?_, visible_of_mem_getLast?_trimEnd⟩
  obtain ⟨blanks, whole, _⟩ := trimEnd_append (trimStart chars)
  have begins : char ∈ (trimStart chars).head? := by
    rw [← whole]
    exact head?_mem_append blanks first
  exact head?_dropWhile begins

theorem trim_eq_self {chars : List Char} (trimmed : Trimmed chars) : trim chars = chars := by
  have start : trimStart chars = chars := by
    cases chars with
    | nil => rfl
    | cons first rest => simp [trimStart, trimmed.1 first rfl]
  obtain ⟨blanks, whole, blank⟩ := trimEnd_append chars
  rw [trim, start]
  cases last : blanks.getLast? with
  | none =>
      rw [List.getLast?_eq_none_iff.mp last, List.append_nil] at whole
      exact whole
  | some char =>
      have visible := trimmed.2 char (by rw [← whole, List.getLast?_append, last]; rfl)
      rw [blank char (List.mem_of_getLast? last)] at visible
      cases visible

/-- What stands between the two ends of a text can be replaced. -/
theorem Trimmed.replace {front middle other rest : List Char}
    (trimmed : Trimmed (front ++ (middle ++ rest))) (visible : Trimmed other) (some : other ≠ []) :
    Trimmed (front ++ (other ++ rest)) := by
  constructor
  · intro char first
    cases front with
    | nil =>
        cases other with
        | nil => exact absurd rfl some
        | cons begin others => exact visible.1 char first
    | cons begin others => exact trimmed.1 char first
  · intro char last
    cases final : rest.getLast? with
    | none =>
        rw [List.getLast?_eq_none_iff.mp final, List.append_nil, List.getLast?_append] at last
        cases ends : other.getLast? with
        | none => exact absurd (List.getLast?_eq_none_iff.mp ends) some
        | some close =>
            rw [ends] at last
            exact visible.2 char (ends.trans last)
    | some close =>
        refine trimmed.2 char ?_
        rw [List.getLast?_append, List.getLast?_append, final] at last ⊢
        exact last

end Text

/-! ## Lexemes before and after a quote -/

/-- A token before a quote does not depend on what the quote begins. -/
theorem Scanned.swap_quoted {taken between body : List Char} {token : Token}
    (scanned : Scanned taken token (between ++ Quoted.quote :: body))
    (free : ∀ name, token = .identifier name → Token.keyword? name = none) (other : List Char) :
    Scanned taken token (between ++ Quoted.quote :: other) := by
  have pruned := scanned.prune fun _ => free
  refine pruned.extend (stops_cons.mpr (by decide)) fun none content isText => ?_
  -- No string literal ends right before the quote, which would belong to it.
  subst none isText
  exact absurd rfl scanned.text_inv.2

namespace Cursor.Walk

/-- The lexemes before a quote do not depend on what the quote begins. -/
theorem swap_quoted {cursor middle : Cursor} {lexemes : List Lexeme} {gap body : List Char}
    (walk : Walk cursor lexemes middle) (ends : middle.rest = gap ++ Quoted.quote :: body)
    (free : ∀ lexeme ∈ lexemes, ∀ name, lexeme.token = .identifier name →
      Token.keyword? name = none) (other : List Char) :
    ∃ front, cursor.rest = front ++ middle.rest ∧
      middle.position = cursor.position + front.length ∧
      Walk ⟨cursor.position, front ++ (gap ++ Quoted.quote :: other)⟩ lexemes
        ⟨middle.position, gap ++ Quoted.quote :: other⟩ := by
  induction walk with
  | done => exact ⟨[], rfl, rfl, .done⟩
  | @step cursor after middle lexeme lexemes found inside walk ih =>
      rw [List.forall_mem_cons] at free
      obtain ⟨front, behind, moved, walkBehind⟩ := ih ends free.2
      obtain ⟨skipped, taken, rest, blank, scanned, whole, written, rfl⟩ :=
        exists_of_next found inside
      simp only at behind moved walkBehind
      subst behind
      rw [ends, ← List.append_assoc] at scanned
      have swapped := scanned.swap_quoted free.1 other
      have next := next_of_scanned cursor.position blank swapped
      refine ⟨skipped ++ (taken ++ front), ?_, ?_, ?_⟩
      · rw [whole]
        simp only [List.append_assoc]
      · rw [moved]
        simp only [List.length_append]
        omega
      · rw [← written, List.append_assoc front] at next
        have same : skipped ++ (taken ++ front) ++ (gap ++ Quoted.quote :: other) =
            skipped ++ (taken ++ (front ++ (gap ++ Quoted.quote :: other))) := by
          simp only [List.append_assoc]
        rw [same]
        exact .step next inside walkBehind

/-- The lexemes of a text do not depend on where it stands. -/
theorem shift {cursor last : Cursor} {lexemes : List Lexeme} (walk : Walk cursor lexemes last)
    (position : Nat) :
    ∃ moved final, Walk ⟨position, cursor.rest⟩ moved final ∧ final.rest = last.rest ∧
      moved.map Lexeme.word = lexemes.map Lexeme.word := by
  induction walk generalizing position with
  | done => exact ⟨[], _, .done, rfl, rfl⟩
  | @step cursor after last lexeme lexemes found inside walk ih =>
      obtain ⟨skipped, taken, rest, blank, scanned, whole, written, rfl⟩ :=
        exists_of_next found inside
      have next := next_of_scanned position blank scanned
      obtain ⟨moved, final, walkMoved, ends, same⟩ :=
        ih (position + skipped.length + taken.length)
      rw [← whole] at next
      refine ⟨_, final, .step next inside walkMoved, ends, ?_⟩
      have source : lexeme.source = String.ofList taken := by
        rw [written]
        rfl
      simp only [List.map_cons, same, Lexeme.word, Lexeme.written, source]

end Cursor.Walk

/-! ## Splicing -/

/-- The text with the characters of a span replaced by a string literal. -/
def splice (text : String) (span : Span) (content : String) : String :=
  String.ofList (text.toList.take span.start ++
    (Quoted.written content.toList ++ text.toList.drop span.stop))

theorem toList_splice {text : String} {front middle rest : List Char} {span : Span}
    (whole : text.toList = front ++ (middle ++ rest)) (starts : span.start = front.length)
    (stops : span.stop = front.length + middle.length) (content : String) :
    (splice text span content).toList = front ++ (Quoted.written content.toList ++ rest) := by
  have after : text.toList.drop span.stop = rest := by
    rw [whole, stops, ← List.append_assoc, ← List.length_append, List.drop_left]
  have before : text.toList.take span.start = front := by
    rw [whole, starts, List.take_left]
  rw [splice, String.toList_ofList, before, after]

theorem trimmed_written (content : List Char) : Trimmed (Quoted.written content) := by
  have visible : isBlank Quoted.quote = false := by decide
  constructor
  · intro char first
    cases first
    exact visible
  · intro char last
    rw [Quoted.written, List.getLast?_append] at last
    cases last
    exact visible

/-- Replacing a string literal on a walk replaces its lexeme and moves those after it. -/
theorem Cursor.Walk.splice {cursor last : Cursor} {before after : List Lexeme} {lexeme : Lexeme}
    {content : String} (walk : Walk cursor (before ++ lexeme :: after) last)
    (free : ∀ found ∈ before, ∀ name, found.token = .identifier name → Token.keyword? name = none)
    (isText : lexeme.token = .literal (.text content)) (other : String) :
    ∃ front rest, cursor.rest = front ++ (Quoted.written content.toList ++ rest) ∧
      lexeme.span = ⟨cursor.position + front.length,
        cursor.position + front.length + (Quoted.written content.toList).length⟩ ∧
      ∃ replaced moved final,
        Walk ⟨cursor.position, front ++ (Quoted.written other.toList ++ rest)⟩
          (before ++ replaced :: moved) final ∧ final.rest = last.rest ∧
        replaced.token = .literal (.text other) ∧
        moved.map Lexeme.word = after.map Lexeme.word := by
  obtain ⟨middle, walkBefore, walkRest⟩ := walk.split
  cases walkRest with
  | step found inside walkAfter =>
      obtain ⟨gap, taken, rest, blank, scanned, ends, written, rfl⟩ :=
        Cursor.exists_of_next found inside
      rw [isText] at scanned
      obtain ⟨rfl, closed⟩ := scanned.text_inv
      obtain ⟨front, whole, position, walkFront⟩ := walkBefore.swap_quoted ends free
        (Quoted.doubled other.toList ++ [Quoted.quote] ++ rest)
      have literal : Scanned (Quoted.written other.toList)
          (.literal (.text (String.ofList other.toList))) rest := .text closed
      rw [String.ofList_toList] at literal
      have next := Cursor.next_of_scanned middle.position blank literal
      obtain ⟨moved, final, walkMoved, same, sameWords⟩ := walkAfter.shift
        (middle.position + gap.length + (Quoted.written other.toList).length)
      have walkWhole := walkFront.append (.step next literal.ne_endOfInput walkMoved)
      rw [← List.append_assoc] at walkWhole
      refine ⟨front ++ gap, rest, ?_, ?_, _, moved, final, walkWhole, same, rfl, sameWords⟩
      · rw [whole, ends, List.append_assoc]
      · rw [written, position, List.length_append, Nat.add_assoc]
        rfl

/-- Replacing a string literal in a text replaces its lexeme and moves those after it, and
leaves no blanks at the ends of the text. -/
theorem lexed_splice {text : String} {before after : List Lexeme} {lexeme : Lexeme}
    {content : String} (lexes : lexed text = .ok (before ++ lexeme :: after))
    (isText : lexeme.token = .literal (.text content)) (other : String) :
    (Trimmed text.toList → Trimmed (splice text lexeme.span other).toList) ∧
      ∃ replaced moved, lexed (splice text lexeme.span other) = .ok (before ++ replaced :: moved) ∧
        replaced.token = .literal (.text other) ∧
        moved.map Lexeme.word = after.map Lexeme.word := by
  obtain ⟨last, walk, ended⟩ := lexed_eq_ok_iff.mp lexes
  have free : ∀ found ∈ before, ∀ name, found.token = .identifier name →
      Token.keyword? name = none := by
    intro found mem name isName
    have alone := (plain_and_scanned_of_walk walk ended found (List.mem_append_left _ mem)).2
    rw [isName] at alone
    exact alone.name_inv.resolve_right (by simp)
  obtain ⟨front, rest, whole, span, replaced, moved, final, walkSpliced, same, isOther, sameWords⟩ :=
    walk.splice free isText other
  have spliced : (splice text lexeme.span other).toList =
      front ++ (Quoted.written other.toList ++ rest) :=
    toList_splice whole (by simp [span, Cursor.start]) (by simp [span, Cursor.start]) other
  constructor
  · intro trimmed
    rw [show text.toList = _ from whole] at trimmed
    rw [spliced]
    exact trimmed.replace (trimmed_written _) (by simp [Quoted.written])
  · rw [← spliced] at walkSpliced
    rw [← same] at ended
    exact ⟨replaced, moved, lexed_eq_ok_iff.mpr ⟨final, walkSpliced, ended⟩, isOther, sameWords⟩

end QueryClause
