import QueryClause.Proofs.Isolated
import QueryClause.Proofs.Relabel

/-!
# Canonical texts, token by token

A canonical text is a sequence of marks, which are tokens and single blanks. Its marks
fit together when each token scans in front of the marks after it, and then the
lexemes of the text are the tokens of the marks.
-/

namespace QueryClause

open QueryClause.Text

/-- A piece of a canonical text: a blank, or a token as it is written. -/
inductive Mark where
  | blank
  | word (token : Token) (written : String)

namespace Mark

def chars : Mark → List Char
  | .blank => [' ']
  | .word _ written => written.toList

def word? : Mark → Option (Token × String)
  | .blank => none
  | .word token written => some (token, written)

end Mark

/-- The characters of marks, one after the other. -/
def spelled (marks : List Mark) : List Char :=
  marks.flatMap Mark.chars

/-- The tokens of marks, each as it is written. -/
def words (marks : List Mark) : List (Token × String) :=
  marks.filterMap Mark.word?

section Lists

variable {first second marks : List Mark} {token : Token} {written : String}

@[simp]
theorem spelled_nil : spelled [] = [] :=
  rfl

@[simp]
theorem spelled_blank : spelled (.blank :: marks) = ' ' :: spelled marks :=
  rfl

@[simp]
theorem spelled_word : spelled (.word token written :: marks) = written.toList ++ spelled marks :=
  rfl

@[simp]
theorem spelled_append : spelled (first ++ second) = spelled first ++ spelled second :=
  List.flatMap_append

@[simp]
theorem words_nil : words [] = [] :=
  rfl

@[simp]
theorem words_blank : words (.blank :: marks) = words marks :=
  rfl

@[simp]
theorem words_word : words (.word token written :: marks) = (token, written) :: words marks :=
  rfl

@[simp]
theorem words_append : words (first ++ second) = words first ++ words second :=
  List.filterMap_append

end Lists

namespace Expr

mutual

/-- The marks of the canonical text. -/
def writing : Expr → List Mark
  | .member path _ => [.word (.identifier path) path]
  | .literal written value _ => [.word (.literal value) written]
  | .unary .not operand _ => .word .not "not" :: .blank :: operand.writing
  | .unary .negate operand _ => .word .minus "-" :: operand.writing
  | .binary operator left right _ =>
      left.writing ++
        .blank :: .word (.binary operator) operator.keyword :: .blank :: right.writing
  | .call name arguments _ =>
      .word (.identifier name) name :: .word .openParen "(" ::
        (writingAll arguments ++ [.word .closeParen ")"])
  | .paren inner _ => .word .openParen "(" :: (inner.writing ++ [.word .closeParen ")"])

/-- The marks of several expressions, with commas between them. -/
def writingAll : List Expr → List Mark
  | [] => []
  | [only] => only.writing
  | first :: second :: rest =>
      first.writing ++ .word .comma "," :: .blank :: writingAll (second :: rest)

end

mutual

/-- The marks make up the canonical text. -/
theorem toList_canonical : (expression : Expr) →
    expression.canonical.toList = spelled expression.writing
  | .member .. => by simp [canonical, writing]
  | .literal .. => by simp [canonical, writing]
  | .unary .not operand _ => by simp [canonical, writing, toList_canonical operand]
  | .unary .negate operand _ => by simp [canonical, writing, toList_canonical operand]
  | .binary _ left right _ => by
      simp [canonical, writing, toList_canonical left, toList_canonical right]
  | .call _ arguments _ => by simp [canonical, writing, toList_canonicalAll arguments]
  | .paren inner _ => by simp [canonical, writing, toList_canonical inner]

theorem toList_canonicalAll : (arguments : List Expr) →
    (", ".intercalate (canonicalAll arguments)).toList = spelled (writingAll arguments)
  | [] => by simp [canonicalAll, writingAll]
  | [only] => by simp [canonicalAll, writingAll, toList_canonical only]
  | first :: second :: rest => by
      have others := toList_canonicalAll (second :: rest)
      rw [canonicalAll] at others
      rw [canonicalAll, canonicalAll, String.intercalate_cons_cons]
      simp [writingAll, toList_canonical first, others]

end

end Expr

/-! ## Tokens of derived trees -/

theorem Lexeme.Plain.word_eq {lexeme : Lexeme} {token : Token} {written : String}
    (plain : lexeme.Plain) (isToken : lexeme.token = token)
    (spelling : token.spelling? = some written) : lexeme.word = (token, written) := by
  subst isToken
  exact Prod.ext rfl (plain written spelling)

namespace Grammar

open QueryClause.Expr

mutual

/-- The tokens of a derived tree are those it is derived from. -/
theorem Derives.words_eq {layer : Layer} {lexemes : List Lexeme} {whole : Expr} :
    Derives layer lexemes whole → (∀ lexeme ∈ lexemes, lexeme.Plain) →
      lexemes.map Lexeme.word = words whole.writing
  | .chain _ operand tail, plain => by
      rw [List.forall_mem_append] at plain
      rw [List.map_append, operand.words_eq plain.1, tail.words_eq plain.2]
  | .lift _ inner, plain => inner.words_eq plain
  | .not isNot inner, plain => by
      rw [List.forall_mem_cons] at plain
      simp [writing, plain.1.word_eq isNot rfl, inner.words_eq plain.2]
  | .compared before isOperator _ after, plain => by
      rw [List.forall_mem_append, List.forall_mem_cons] at plain
      simp [writing, before.words_eq plain.1, plain.2.1.word_eq isOperator rfl,
        after.words_eq plain.2.2]
  | .minus isMinus inner, plain => by
      rw [List.forall_mem_cons] at plain
      simp [writing, plain.1.word_eq isMinus rfl, inner.words_eq plain.2]
  | .literal isLiteral, _ => by
      simp [writing, Lexeme.word, isLiteral]
  | .member isName, plain => by
      rw [List.forall_mem_singleton] at plain
      simp [writing, plain.word_eq isName rfl]
  | .callEmpty isName opens closes, plain => by
      simp only [List.forall_mem_cons] at plain
      simp [writing, writingAll, plain.1.word_eq isName rfl, plain.2.1.word_eq opens rfl,
        plain.2.2.1.word_eq closes rfl]
  | .call isName opens inner closes, plain => by
      simp only [List.forall_mem_cons, List.forall_mem_append] at plain
      simp [writing, plain.1.word_eq isName rfl, plain.2.1.word_eq opens rfl,
        inner.words_eq plain.2.2.1, plain.2.2.2.1.word_eq closes rfl]
  | .paren opens inner closes, plain => by
      simp only [List.forall_mem_cons, List.forall_mem_append] at plain
      simp [writing, plain.1.word_eq opens rfl, inner.words_eq plain.2.1,
        plain.2.2.1.word_eq closes rfl]

theorem Tail.words_eq {tier : Tier} {below : Layer} {left whole : Expr} {lexemes : List Lexeme} :
    Tail tier below left lexemes whole → (∀ lexeme ∈ lexemes, lexeme.Plain) →
      words left.writing ++ lexemes.map Lexeme.word = words whole.writing
  | .done, _ => by simp
  | .more isOperator _ operand tail, plain => by
      simp only [List.forall_mem_cons, List.forall_mem_append] at plain
      rw [← tail.words_eq plain.2.2]
      simp [writing, plain.1.word_eq isOperator rfl, operand.words_eq plain.2.1]

theorem Arguments.words_eq {lexemes : List Lexeme} {arguments : List Expr} :
    Arguments lexemes arguments → (∀ lexeme ∈ lexemes, lexeme.Plain) →
      lexemes.map Lexeme.word = words (writingAll arguments)
  | .last inner, plain => by rw [writingAll, inner.words_eq plain]
  | .more inner divides tail, plain => by
      simp only [List.forall_mem_cons, List.forall_mem_append] at plain
      have others := tail.words_eq plain.2.2
      cases tail <;>
        simp_all [writingAll, inner.words_eq plain.1, plain.2.1.word_eq divides rfl]

end

end Grammar

/-! ## Marks that fit together -/

/-- Every token scans in front of the marks after it and of what follows them. -/
def Fit : List Mark → List Char → Prop
  | [], _ => True
  | .blank :: marks, rest => Fit marks rest
  | .word token written :: marks, rest =>
      Scanned written.toList token (spelled marks ++ rest) ∧ Fit marks rest

theorem fit_append {first second : List Mark} {rest : List Char} :
    Fit (first ++ second) rest ↔ Fit first (spelled second ++ rest) ∧ Fit second rest := by
  induction first with
  | nil => simp [Fit]
  | cons mark marks ih =>
      cases mark with
      | blank => exact ih
      | word token written => simp [Fit, ih, and_assoc]

/-- Marks that fit together are walked over token by token. -/
theorem exists_walk_of_fit {marks : List Mark} (fit : Fit marks []) (gap : List Char)
    (blank : ∀ char ∈ gap, isBlank char = true) (position : Nat) :
    ∃ lexemes last, Cursor.Walk ⟨position, gap ++ spelled marks⟩ lexemes last ∧
      (∀ char ∈ last.rest, isBlank char = true) ∧ lexemes.map Lexeme.word = words marks := by
  induction marks generalizing gap position with
  | nil => exact ⟨[], _, .done, by simpa using blank, rfl⟩
  | cons mark marks ih =>
      cases mark with
      | blank =>
          have wider : ∀ char ∈ gap ++ [' '], isBlank char = true := by
            simp only [List.forall_mem_append, List.forall_mem_singleton]
            exact ⟨blank, by decide⟩
          obtain ⟨lexemes, last, walk, ended, same⟩ := ih fit _ wider position
          rw [List.append_assoc] at walk
          exact ⟨lexemes, last, walk, ended, same⟩
      | word token written =>
          obtain ⟨scanned, fitRest⟩ := fit
          rw [List.append_nil] at scanned
          have found := Cursor.next_of_scanned position blank scanned
          obtain ⟨lexemes, last, walk, ended, same⟩ := ih fitRest []
            (by simp) (position + gap.length + written.toList.length)
          refine ⟨_, last, .step found scanned.ne_endOfInput walk, ended, ?_⟩
          simp [same, Lexeme.word, Lexeme.written]

/-- Marks that are walked over token by token fit together. -/
theorem fit_of_walk {marks : List Mark} (gap : List Char)
    (blank : ∀ char ∈ gap, isBlank char = true) {position : Nat} {lexemes : List Lexeme}
    {last : Cursor} (walk : Cursor.Walk ⟨position, gap ++ spelled marks⟩ lexemes last)
    (same : lexemes.map Lexeme.word = words marks) : Fit marks [] := by
  induction marks generalizing gap position lexemes with
  | nil => trivial
  | cons mark marks ih =>
      cases mark with
      | blank =>
          have wider : ∀ char ∈ gap ++ [' '], isBlank char = true := by
            simp only [List.forall_mem_append, List.forall_mem_singleton]
            exact ⟨blank, by decide⟩
          have longer : gap ++ spelled (.blank :: marks) = gap ++ [' '] ++ spelled marks := by
            simp
          rw [longer] at walk
          exact ih _ wider walk same
      | word token written =>
          rw [words_word] at same
          obtain ⟨lexeme, others, rfl, isWord, sameRest⟩ := List.map_eq_cons_iff.mp same
          cases walk with
          | step found inside walk =>
              obtain ⟨skipped, taken, rest, blankSkipped, scanned, whole, written_eq, rfl⟩ :=
                Cursor.exists_of_next found inside
              obtain ⟨rfl, rfl⟩ : lexeme.token = token ∧ written = String.ofList taken := by
                rw [written_eq] at isWord ⊢
                simp only [Lexeme.word, Lexeme.written, Prod.mk.injEq] at isWord ⊢
                exact ⟨isWord.1, isWord.2.symm⟩
              obtain ⟨first, characters, shape, visible⟩ := scanned.exists_first
              have seen (behind : List Char) :
                  ∀ char ∈ (taken ++ behind).head?, isBlank char = false := by
                simpa [shape] using visible
              simp only [spelled_word, String.toList_ofList] at whole walk ⊢
              obtain ⟨rfl, sameFront⟩ := eq_of_append_run blank blankSkipped (seen _) (seen _) whole
              obtain rfl := List.append_cancel_left sameFront
              have fitRest := ih [] (by simp) walk sameRest
              simpa [Fit] using ⟨scanned, fitRest⟩

/-- Marks fit together exactly if the lexemes of their text are their tokens. -/
theorem fit_iff_lexed {text : String} {marks : List Mark} (shape : text.toList = spelled marks) :
    Fit marks [] ↔ ∃ found, lexed text = .ok found ∧ found.map Lexeme.word = words marks := by
  have start : Cursor.start text = ⟨0, [] ++ spelled marks⟩ := by
    rw [Cursor.start, shape, List.nil_append]
  constructor
  · intro fit
    obtain ⟨found, last, walk, ended, same⟩ := exists_walk_of_fit fit [] (by simp) 0
    rw [← start] at walk
    exact ⟨found, lexed_eq_ok_iff.mpr ⟨last, walk, ended⟩, same⟩
  · rintro ⟨found, lexes, same⟩
    obtain ⟨last, walk, _⟩ := lexed_eq_ok_iff.mp lexes
    rw [start] at walk
    exact fit_of_walk [] (by simp) walk same

end QueryClause
