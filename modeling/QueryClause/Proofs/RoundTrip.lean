import Mathlib
import QueryClause.Proofs.ParserCompleteness
import QueryClause.Proofs.Writing

/-!
# Parsing canonical texts again

The canonical text of a parsed tree is parsed to the same tree, spans apart, unless it
writes a minus sign straight before a digit: the two then scan as one negative number.
-/

namespace QueryClause

open QueryClause.Text QueryClause.Grammar

/-- What a canonical text puts after a token: nothing, a blank, a parenthesis or a comma. -/
def Breaks (rest : List Char) : Prop :=
  ∀ char ∈ rest.head?, char ∈ [' ', '(', ')', ',']

theorem breaks_nil : Breaks [] := by
  simp [Breaks]

theorem breaks_blank (rest : List Char) : Breaks (' ' :: rest) := by
  simp [Breaks]

theorem breaks_open (rest : List Char) : Breaks ('(' :: rest) := by
  simp [Breaks]

theorem breaks_close (rest : List Char) : Breaks (')' :: rest) := by
  simp [Breaks]

theorem breaks_comma (rest : List Char) : Breaks (',' :: rest) := by
  simp [Breaks]

/-- A token on its own is the same token before a break. -/
theorem Scanned.before_break {taken rest : List Char} {token : Token}
    (scanned : Scanned taken token []) (breaks : Breaks rest) : Scanned taken token rest := by
  have stops : Stops rest := by
    intro char first
    have mem := breaks char first
    simp only [List.mem_cons, List.not_mem_nil, or_false] at mem
    rcases mem with rfl | rfl | rfl | rfl <;> decide
  have unquoted : rest.head? ≠ some Quoted.quote := by
    intro quoted
    exact absurd (breaks _ quoted) (by decide)
  exact scanned.extend stops fun _ _ _ => unquoted

/-! ## The sign that runs into a number -/

namespace Expr

/-- Whether a node is a minus sign whose operand is a number or a date-time that begins
with a digit. -/
def fusesSign : Expr → Bool
  | .unary .negate (.literal written (.number _) _) _ => Numeral.beginsWithDigit written.toList
  | .unary .negate (.literal written (.timestamp _) _) _ => Numeral.beginsWithDigit written.toList
  | _ => false

/-- Whether a node is a minus sign whose operand is a binary operation. -/
def signsBinary : Expr → Bool
  | .unary .negate (.binary ..) _ => true
  | _ => false

end Expr

mutual

/-- The grammar puts a minus sign before no binary operation. -/
theorem Grammar.Derives.signsBinary_eq_false {layer : Layer} {lexemes : List Lexeme}
    {whole : Expr} : Derives layer lexemes whole →
      ∀ node ∈ whole.preorder, node.signsBinary = false
  | .chain _ operand tail => tail.signsBinary_eq_false operand.signsBinary_eq_false
  | .lift _ inner => inner.signsBinary_eq_false
  | .not _ inner => by
      simpa [Expr.preorder, Expr.signsBinary] using inner.signsBinary_eq_false
  | .compared before _ _ after => by
      have left := before.signsBinary_eq_false
      have right := after.signsBinary_eq_false
      simp only [Expr.preorder, List.cons_append, List.forall_mem_cons, List.forall_mem_append]
      exact ⟨rfl, left, right⟩
  | .minus _ inner => by
      have below := inner.signsBinary_eq_false
      simp only [Expr.preorder, List.forall_mem_cons]
      refine ⟨?_, below⟩
      cases inner with
      | minus => rfl
      | lift lifts inner =>
          cases lifts
          cases inner with
          | chain joins => cases joins
          | lift lifts => cases lifts
          | _ => rfl
      | chain joins => cases joins
  | .literal _ => by simp [Expr.preorder, Expr.signsBinary]
  | .member _ => by simp [Expr.preorder, Expr.signsBinary]
  | .callEmpty _ _ _ => by simp [Expr.preorder, Expr.preorderAll, Expr.signsBinary]
  | .call _ _ inner _ => by
      simpa [Expr.preorder, Expr.signsBinary] using inner.signsBinary_eq_false
  | .paren _ inner _ => by
      simpa [Expr.preorder, Expr.signsBinary] using inner.signsBinary_eq_false

theorem Grammar.Tail.signsBinary_eq_false {tier : Tier} {below : Layer} {left whole : Expr}
    {lexemes : List Lexeme} : Tail tier below left lexemes whole →
      (∀ node ∈ left.preorder, node.signsBinary = false) →
      ∀ node ∈ whole.preorder, node.signsBinary = false
  | .done, before => before
  | .more _ _ operand tail, before => by
      have after := operand.signsBinary_eq_false
      refine tail.signsBinary_eq_false ?_
      simp only [Expr.preorder, List.cons_append, List.forall_mem_cons, List.forall_mem_append]
      exact ⟨rfl, before, after⟩

theorem Grammar.Arguments.signsBinary_eq_false {lexemes : List Lexeme} {arguments : List Expr} :
    Arguments lexemes arguments →
      ∀ node ∈ Expr.preorderAll arguments, node.signsBinary = false
  | .last inner => by
      simpa [Expr.preorderAll] using inner.signsBinary_eq_false
  | .more inner _ tail => by
      have first := inner.signsBinary_eq_false
      have others := tail.signsBinary_eq_false
      simp only [Expr.preorderAll, List.forall_mem_append]
      exact ⟨first, others⟩

end

/-! ## Canonical marks -/

/-- Each token of the marks is that token also on its own. -/
def Alone (marks : List Mark) : Prop :=
  ∀ token written, .word token written ∈ marks → Scanned written.toList token []

theorem alone_append {first second : List Mark} :
    Alone (first ++ second) ↔ Alone first ∧ Alone second := by
  simp only [Alone, List.mem_append, or_imp, forall_and]

theorem alone_word {token : Token} {written : String} {marks : List Mark} :
    Alone (.word token written :: marks) ↔ Scanned written.toList token [] ∧ Alone marks := by
  constructor
  · intro alone
    exact ⟨alone token written List.mem_cons_self,
      fun other form mem => alone other form (List.mem_cons_of_mem _ mem)⟩
  · rintro ⟨scanned, alone⟩ other form mem
    rcases List.mem_cons.mp mem with same | mem
    · cases same
      exact scanned
    · exact alone other form mem

theorem alone_blank {marks : List Mark} : Alone (.blank :: marks) ↔ Alone marks := by
  simp [Alone]

/-- Tokens that stand on their own in a text also do so as marks. -/
theorem alone_of_words {marks : List Mark} {lexemes : List Lexeme}
    (same : lexemes.map Lexeme.word = words marks)
    (scanned : ∀ lexeme ∈ lexemes, Scanned lexeme.source.toList lexeme.token []) :
    Alone marks := by
  intro token written mem
  have word : (token, written) ∈ words marks := List.mem_filterMap.mpr ⟨_, mem, rfl⟩
  rw [← same] at word
  obtain ⟨lexeme, found, isWord⟩ := List.mem_map.mp word
  cases isWord
  exact scanned lexeme found

/-- The first character after a minus sign is a digit just where the sign runs into its
operand. -/
theorem beginsWithDigit_writing {operand : Expr} {span : Span} (rest : List Char)
    (alone : Alone operand.writing) (tight : (Expr.unary .negate operand span).signsBinary = false) :
    Numeral.beginsWithDigit (spelled operand.writing ++ rest) =
      (Expr.unary .negate operand span).fusesSign := by
  cases operand with
  | member path place =>
      simp only [Expr.writing, alone_word] at alone
      rw [Expr.writing, spelled_word, List.append_assoc, alone.1.beginsWithDigit_append]
      exact alone.1.beginsWithDigit_eq_false (by simp) (by simp)
  | literal written value place =>
      simp only [Expr.writing, alone_word] at alone
      rw [Expr.writing, spelled_word, List.append_assoc, alone.1.beginsWithDigit_append]
      cases value with
      | number decimal => rfl
      | timestamp form => rfl
      | _ => exact alone.1.beginsWithDigit_eq_false (by simp) (by simp)
  | unary operator operand place => cases operator <;> rfl
  | binary operator left right place => cases tight
  | call name arguments place =>
      simp only [Expr.writing, alone_word] at alone
      rw [Expr.writing, spelled_word, List.append_assoc, alone.1.beginsWithDigit_append]
      exact alone.1.beginsWithDigit_eq_false (by simp) (by simp)
  | paren inner place => rfl

mutual

/-- The marks of a tree fit together exactly if no minus sign runs into its operand. -/
theorem fit_writing_iff : (whole : Expr) → Alone whole.writing →
    (∀ node ∈ whole.preorder, node.signsBinary = false) → ∀ {rest : List Char}, Breaks rest →
      (Fit whole.writing rest ↔ ∀ node ∈ whole.preorder, node.fusesSign = false)
  | .member _ _, alone, _, rest, breaks => by
      simp only [Expr.writing, alone_word] at alone
      simp [Expr.writing, Expr.preorder, Expr.fusesSign, Fit, alone.1.before_break breaks]
  | .literal _ _ _, alone, _, rest, breaks => by
      simp only [Expr.writing, alone_word] at alone
      simp [Expr.writing, Expr.preorder, Expr.fusesSign, Fit, alone.1.before_break breaks]
  | .unary .not operand _, alone, tight, rest, breaks => by
      simp only [Expr.writing, alone_word, alone_blank] at alone
      simp only [Expr.preorder, List.forall_mem_cons] at tight
      have below := fit_writing_iff operand alone.2 tight.2 breaks
      have scanned := alone.1.before_break (breaks_blank (spelled operand.writing ++ rest))
      simp only [Expr.writing, Expr.preorder, Fit, List.forall_mem_cons, below]
      exact and_congr (iff_of_true scanned rfl) Iff.rfl
  | .unary .negate operand span, alone, tight, rest, breaks => by
      simp only [Expr.writing, alone_word] at alone
      simp only [Expr.preorder, List.forall_mem_cons] at tight
      have below := fit_writing_iff operand alone.2 tight.2 breaks
      -- The only mark that depends on more than the break after it: a sign takes a digit
      -- that follows it.
      have digit := beginsWithDigit_writing rest alone.2 tight.1
      have scanned : Scanned ['-'] .minus (spelled operand.writing ++ rest) ↔
          (Expr.unary .negate operand span).fusesSign = false := by
        rw [← digit]
        exact ⟨Scanned.unsigned, Scanned.minus⟩
      simp only [Expr.writing, Expr.preorder, Fit, List.forall_mem_cons, below]
      exact and_congr scanned Iff.rfl
  | .binary operator left right _, alone, tight, rest, breaks => by
      simp only [Expr.writing, alone_append, alone_word, alone_blank] at alone
      simp only [Expr.preorder, List.cons_append, List.forall_mem_cons,
        List.forall_mem_append] at tight
      have before := fit_writing_iff left alone.1 tight.2.1
        (breaks_blank (operator.keyword.toList ++ ' ' :: (spelled right.writing ++ rest)))
      have after := fit_writing_iff right alone.2.2 tight.2.2 breaks
      have scanned := alone.2.1.before_break (breaks_blank (spelled right.writing ++ rest))
      simp only [Expr.writing, Expr.preorder, fit_append, spelled_blank, spelled_word, Fit,
        List.cons_append, List.append_assoc, List.forall_mem_cons, List.forall_mem_append,
        before, after, scanned, Expr.fusesSign, true_and]
  | .call name arguments _, alone, tight, rest, breaks => by
      simp only [Expr.writing, alone_append, alone_word] at alone
      simp only [Expr.preorder, List.forall_mem_cons] at tight
      have inside := fit_writingAll_iff arguments alone.2.2.1 tight.2 (breaks_close rest)
      have scanned := alone.1.before_break
        (breaks_open (spelled (Expr.writingAll arguments) ++ ')' :: rest))
      have opens : Scanned ['('] .openParen (spelled (Expr.writingAll arguments) ++ ')' :: rest) :=
        .openParen
      have closes : Scanned [')'] .closeParen rest := .closeParen
      simp [Expr.writing, Expr.preorder, Expr.fusesSign, Fit, fit_append, inside, scanned, opens,
        closes]
  | .paren inner _, alone, tight, rest, breaks => by
      simp only [Expr.writing, alone_append, alone_word] at alone
      simp only [Expr.preorder, List.forall_mem_cons] at tight
      have inside := fit_writing_iff inner alone.2.1 tight.2 (breaks_close rest)
      have opens : Scanned ['('] .openParen (spelled inner.writing ++ ')' :: rest) := .openParen
      have closes : Scanned [')'] .closeParen rest := .closeParen
      simp [Expr.writing, Expr.preorder, Expr.fusesSign, Fit, fit_append, inside, opens, closes]

theorem fit_writingAll_iff : (arguments : List Expr) → Alone (Expr.writingAll arguments) →
    (∀ node ∈ Expr.preorderAll arguments, node.signsBinary = false) →
      ∀ {rest : List Char}, Breaks rest →
        (Fit (Expr.writingAll arguments) rest ↔
          ∀ node ∈ Expr.preorderAll arguments, node.fusesSign = false)
  | [], _, _, _, _ => by simp [Expr.writingAll, Expr.preorderAll, Fit]
  | [only], alone, tight, rest, breaks => by
      simp only [Expr.preorderAll, List.append_nil] at tight ⊢
      exact fit_writing_iff only alone tight breaks
  | first :: second :: others, alone, tight, rest, breaks => by
      rw [Expr.writingAll, alone_append, alone_word, alone_blank] at alone
      rw [Expr.preorderAll, List.forall_mem_append] at tight ⊢
      have before := fit_writing_iff first alone.1 tight.1
        (breaks_comma (' ' :: (spelled (Expr.writingAll (second :: others)) ++ rest)))
      have after := fit_writingAll_iff (second :: others) alone.2.2 tight.2 breaks
      have divides : Scanned [','] .comma
          (' ' :: (spelled (Expr.writingAll (second :: others)) ++ rest)) := .comma
      rw [Expr.writingAll, ← before, ← after]
      simp [Fit, fit_append, divides]

end

/-! ## The round trip -/

namespace Expr

/-- The tree without its spans. -/
def unspanned (expression : Expr) : Expr :=
  expression.relabel fun written value => (written, value)

mutual

/-- Spans do not show in the canonical text. -/
theorem writing_unspanned : (expression : Expr) →
    (expression.relabel fun written value => (written, value)).writing = expression.writing
  | .member .. => rfl
  | .literal .. => rfl
  | .unary .not operand _ => by rw [relabel, writing, writing, writing_unspanned operand]
  | .unary .negate operand _ => by rw [relabel, writing, writing, writing_unspanned operand]
  | .binary _ left right _ => by
      rw [relabel, writing, writing, writing_unspanned left, writing_unspanned right]
  | .call _ arguments _ => by rw [relabel, writing, writing, writingAll_unspanned arguments]
  | .paren inner _ => by rw [relabel, writing, writing, writing_unspanned inner]

theorem writingAll_unspanned : (arguments : List Expr) →
    writingAll (relabelAll (fun written value => (written, value)) arguments) =
      writingAll arguments
  | [] => rfl
  | [only] => by
      rw [relabelAll, relabelAll, writingAll, writingAll, writing_unspanned only]
  | first :: second :: rest => by
      have others := writingAll_unspanned (second :: rest)
      rw [relabelAll] at others
      rw [relabelAll, relabelAll, writingAll, writingAll, writing_unspanned first, others]

end

end Expr

/-- The lexemes of a text that is parsed are the marks of its tree. -/
theorem exists_words_of_parse {text : String} {whole : Expr} (parsed : parse text = .ok whole) :
    ∃ found, lexed text = .ok found ∧ found.map Lexeme.word = words whole.writing ∧
      Alone whole.writing := by
  obtain ⟨found, lexes, derived, _⟩ := exists_derives_of_parse parsed
  obtain ⟨last, walk, ended⟩ := lexed_eq_ok_iff.mp lexes
  have lexemes := plain_and_scanned_of_walk walk ended
  have same := derived.words_eq fun lexeme mem => (lexemes lexeme mem).1
  exact ⟨found, lexes, same, alone_of_words same fun lexeme mem => (lexemes lexeme mem).2⟩

/-- The canonical text of a parsed tree is parsed to the same tree, spans apart, exactly
if no minus sign in it stands before a number or a date-time that begins with a digit. -/
theorem parse_canonical_iff {text : String} {whole : Expr} (parsed : parse text = .ok whole) :
    (∃ again, parse whole.canonical = .ok again ∧ again.unspanned = whole.unspanned ∧
        again.height = whole.height) ↔
      ∀ node ∈ whole.preorder, node.fusesSign = false := by
  obtain ⟨found, lexes, same, alone⟩ := exists_words_of_parse parsed
  have derived := (derives_of_parse lexes parsed).1
  rw [← fit_writing_iff whole alone derived.signsBinary_eq_false breaks_nil,
    fit_iff_lexed whole.toList_canonical]
  constructor
  · rintro ⟨again, parsedAgain, alike, _⟩
    obtain ⟨others, lexesOthers, sameOthers, _⟩ := exists_words_of_parse parsedAgain
    refine ⟨others, lexesOthers, ?_⟩
    rw [sameOthers, ← again.writing_unspanned, ← whole.writing_unspanned]
    exact congrArg (fun tree => words (Expr.writing tree)) alike
  · rintro ⟨others, lexesOthers, sameOthers⟩
    rw [← same] at sameOthers
    obtain ⟨again, parsedAgain, alike⟩ := exists_parse_of_labeled lexes parsed lexesOthers
      (Lexeme.map_labeled_of_map_word sameOthers)
    exact ⟨again, parsedAgain, alike, Expr.height_eq_of_relabel alike⟩

theorem parse_canonical_negated_text :
    ∃ whole, parse "- 'x'" = .ok whole ∧ ∃ again, parse whole.canonical = .ok again ∧
      again.unspanned = whole.unspanned ∧ again.height = whole.height := by
  have parsed : parse "- 'x'" =
      .ok (.unary .negate (.literal "'x'" (.text "x") ⟨2, 5⟩) ⟨0, 5⟩) := by cbv
  refine ⟨_, parsed, (parse_canonical_iff parsed).mpr ?_⟩
  simp [Expr.preorder, Expr.fusesSign]

end QueryClause
