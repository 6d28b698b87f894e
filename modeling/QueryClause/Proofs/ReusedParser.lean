import Mathlib
import QueryClause.Proofs.ErrorPositions
import QueryClause.Proofs.ParserCompleteness
import QueryClause.Proofs.ParserRuns

/-!
# A parser that is used again

Calls can be made on one parser in turn, going on after errors. A call ends at the first lexical
fault it meets and reports it; the next call goes on behind the fault, with the lexeme held before
it. So a fault is reported once and then forgotten, unless it is an unexpected character that the
cursor cannot pass. A call for a whole text succeeds exactly if the lexeme held and those left make
up an expression, and by then every fault of the text has been reported.
-/

namespace QueryClause

open QueryClause.Grammar

/-! ## Faults that a cursor passes -/

namespace Cursor

/-- The fault that a call of `next` met. -/
def fault? : Except LexError Lexeme → Option LexError
  | .error error => some error
  | .ok _ => none

/-- The faults among the results of calls of `next`. -/
def faults (results : List (Except LexError Lexeme)) : List LexError :=
  results.filterMap fault?

theorem faults_append (first second : List (Except LexError Lexeme)) :
    faults (first ++ second) = faults first ++ faults second :=
  List.filterMap_append

theorem after_next (cursor : Cursor) (count : Nat) :
    cursor.next.2.after count = cursor.after (count + 1) := by
  induction count with
  | zero => rfl
  | succ count ih =>
      rw [after, ih]
      rfl

theorem after_add (cursor : Cursor) (first second : Nat) :
    cursor.after (first + second) = (cursor.after first).after second := by
  induction second with
  | zero => rfl
  | succ second ih => rw [← Nat.add_assoc, after, ih, after]

/-- Calls go on where those before ended. -/
theorem take_add (cursor : Cursor) (first second : Nat) :
    cursor.take (first + second) = cursor.take first ++ (cursor.after first).take second := by
  induction first generalizing cursor with
  | zero => rw [Nat.zero_add, take, List.nil_append, after]
  | succ first ih => rw [Nat.succ_add, take, ih, after_next, take, List.cons_append]

theorem exists_of_mem_take {cursor : Cursor} {count : Nat} {result : Except LexError Lexeme}
    (mem : result ∈ cursor.take count) : ∃ before, (cursor.after before).next.1 = result := by
  induction count generalizing cursor with
  | zero => simp [take] at mem
  | succ count ih =>
      rw [take, List.mem_cons] at mem
      rcases mem with rfl | later
      · exact ⟨0, rfl⟩
      · obtain ⟨before, found⟩ := ih later
        exact ⟨before + 1, by rw [← after_next, found]⟩

/-- Lexemes up to the end of the text, and the end itself, are no faults. -/
theorem Walk.faults_take {cursor last : Cursor} {lexemes : List Lexeme}
    (walk : Walk cursor lexemes last) (ended : ∀ char ∈ last.rest, Text.isBlank char = true)
    (count : Nat) : faults (cursor.take count) = [] := by
  induction count generalizing cursor lexemes last with
  | zero => rfl
  | succ count ih =>
      rw [take]
      cases walk with
      | done =>
          rw [next_of_blank ended]
          exact ih .done (by simp)
      | step found _ walk =>
          rw [found]
          exact ih walk ended

theorem next_skipBlanks (cursor : Cursor) : cursor.skipBlanks.next = cursor.next := by
  have skipped : run Text.isBlank ([] ++ cursor.rest.dropWhile Text.isBlank) = _ :=
    run_append (by simp) fun char => head?_dropWhile
  simp only [run, List.nil_append, Prod.mk.injEq] at skipped
  have again : cursor.skipBlanks.skipBlanks = cursor.skipBlanks := by simp [skipBlanks, skipped]
  rw [next, next, again]

/-- An unexpected character other than a dollar sign is not passed. -/
theorem next_of_unexpected {cursor : Cursor} {char : Char} {position : Nat}
    (failed : cursor.next.1 = .error ⟨.unexpectedCharacter char, position⟩) (other : char ≠ '$') :
    cursor.next.2 = cursor.skipBlanks := by
  obtain ⟨faulty, -⟩ := next_eq_error_iff.mp failed
  dsimp only at faulty
  have nothing : (scan cursor.skipBlanks.rest).taken = [] := by
    generalize cursor.skipBlanks.rest = chars at faulty
    cases faulty with
    | dollar => exact absurd rfl other
    | stray noDigit noStart noMark =>
        simp only [List.mem_cons, not_or] at noMark
        simp [scan, noMark, noDigit, noStart]
  have rest := scan_append cursor.skipBlanks.rest
  rw [nothing, List.nil_append] at rest
  rw [next_cursor, nothing, rest]
  rfl

/-- A character that is not passed is met by every call. -/
theorem faults_take_of_unexpected {cursor : Cursor} {char : Char} {position : Nat}
    (failed : cursor.next.1 = .error ⟨.unexpectedCharacter char, position⟩) (other : char ≠ '$')
    (count : Nat) :
    faults (cursor.take count) = List.replicate count ⟨.unexpectedCharacter char, position⟩ := by
  induction count generalizing cursor with
  | zero => rfl
  | succ count ih =>
      have again : cursor.skipBlanks.next.1 = _ := (congrArg Prod.fst cursor.next_skipBlanks).trans failed
      rw [take, failed, next_of_unexpected failed other, List.replicate_succ, ← ih again]
      rfl

end Cursor

/-! ## Calls on one parser -/

/-- The lexical fault that an error reports. -/
def ParseError.lexical? : ParseError → Option LexError
  | .lexical error => some error
  | _ => none

namespace Parser

/-- A call on a parser: for an expression, or for one up to the end of the text. -/
inductive Call where
  | expression
  | whole
  deriving DecidableEq

def Call.action : Call → Action Expr
  | .expression => Parser.expression
  | .whole => Parser.whole

/-- The routine that a call runs. -/
def Call.routine : Call → Routine
  | .expression => .reads .disjunction
  | .whole => .whole

theorem Call.action_routine (call : Call) : call.routine.action = call.action := by
  cases call <;> rfl

/-- What a call answers. -/
def answer (parser : Parser) (call : Call) : Except ParseError Expr :=
  outcome (call.action parser)

/-- The parser after a call, which may have failed. -/
def afterCall (parser : Parser) (call : Call) : Parser :=
  match call.action parser with
  | .ok _ last => last
  | .error _ last => last

/-- What calls answer that are made in turn, going on after errors. -/
def answers (parser : Parser) : List Call → List (Except ParseError Expr)
  | [] => []
  | call :: rest => parser.answer call :: (parser.afterCall call).answers rest

/-- The parser after calls that are made in turn. -/
def afterCalls (parser : Parser) : List Call → Parser
  | [] => parser
  | call :: rest => (parser.afterCall call).afterCalls rest

/-- The error that an answer is. -/
def failure? : Except ParseError Expr → Option ParseError
  | .error error => some error
  | .ok _ => none

/-- The lexical faults that answers report. -/
def reported (answers : List (Except ParseError Expr)) : List LexError :=
  answers.filterMap fun answer => (failure? answer).bind ParseError.lexical?

theorem reported_cons (answer : Except ParseError Expr) (rest : List (Except ParseError Expr)) :
    reported (answer :: rest) =
      ((failure? answer).bind ParseError.lexical?).toList ++ reported rest := by
  rw [reported, List.filterMap_cons]
  cases (failure? answer).bind ParseError.lexical? <;> rfl

/-- What holds of every run holds of a call. -/
theorem Conduct.call {leads : Parser → Option ParseError → Parser → Prop} (conduct : Conduct leads)
    (parser : Parser) (call : Call) :
    leads parser (failure? (parser.answer call)) (parser.afterCall call) := by
  have ran := conduct.routine call.routine parser
  rw [call.action_routine] at ran
  unfold answer afterCall
  cases result : call.action parser <;> rw [result] at ran <;> exact ran

/-- Every run ends at the nesting it began at. -/
theorem conduct_depth : Conduct fun parser _ last => last.depth = parser.depth where
  stays _ := rfl
  goesOn before behind := behind.trans before
  takes _ := rfl
  meets _ := rfl
  refuses _ _ := rfl
  tooDeep _ _ := rfl
  nests enters same := by
    obtain ⟨_, rfl⟩ := enter_eq_ok_iff.mp enters
    rw [leave, same]
    rfl

theorem depth_afterCalls (parser : Parser) (calls : List Call) :
    (parser.afterCalls calls).depth = parser.depth := by
  induction calls generalizing parser with
  | nil => rfl
  | cons call rest ih => exact (ih _).trans (conduct_depth.call parser call)

/-- Every run calls `next` a number of times, and ends with an error at the first fault. -/
theorem conduct_faults : Conduct fun parser error last =>
    ∃ count, last.cursor = parser.cursor.after count ∧
      Cursor.faults (parser.cursor.take count) = (error.bind ParseError.lexical?).toList where
  stays _ := ⟨0, rfl, rfl⟩
  goesOn := by
    rintro first middle last error ⟨before, reaches, none⟩ ⟨behind, goesOn, met⟩
    refine ⟨before + behind, ?_, ?_⟩
    · rw [goesOn, reaches, Cursor.after_add]
    · rw [Cursor.take_add, Cursor.faults_append, none, ← reaches, met]
      rfl
  takes found := ⟨1, by simp [Cursor.after, found], by simp [Cursor.take, found]; rfl⟩
  meets found := ⟨1, by simp [Cursor.after, found], by simp [Cursor.take, found]; rfl⟩
  refuses _ _ := ⟨0, rfl, rfl⟩
  tooDeep _ _ := ⟨0, rfl, rfl⟩
  nests enters ran := by
    obtain ⟨_, rfl⟩ := enter_eq_ok_iff.mp enters
    exact ran

/-- Calls report the faults that the cursor meets, each once and in order. -/
theorem exists_faults_eq (parser : Parser) (calls : List Call) :
    ∃ count, (parser.afterCalls calls).cursor = parser.cursor.after count ∧
      Cursor.faults (parser.cursor.take count) = reported (parser.answers calls) := by
  induction calls generalizing parser with
  | nil => exact ⟨0, rfl, rfl⟩
  | cons call rest ih =>
      obtain ⟨before, reaches, met⟩ := conduct_faults.call parser call
      obtain ⟨behind, goesOn, later⟩ := ih (parser.afterCall call)
      refine ⟨before + behind, ?_, ?_⟩
      · rw [afterCalls, goesOn, reaches, Cursor.after_add]
      · rw [Cursor.take_add, Cursor.faults_append, met, ← reaches, later, answers, reported_cons]

/-- A parser that starts with a text reports the faults of the text up to where it stands. -/
theorem exists_faults_text {text : String} {parser : Parser} (started : start text = .ok parser)
    (calls : List Call) :
    ∃ count, (parser.afterCalls calls).cursor = (Cursor.start text).after count ∧
      Cursor.faults ((Cursor.start text).take count) = reported (parser.answers calls) := by
  obtain ⟨stands, -⟩ := start_eq_ok started
  obtain ⟨count, reaches, met⟩ := parser.exists_faults_eq calls
  have first : (Cursor.start text).after 1 = parser.cursor := congrArg Prod.snd stands
  refine ⟨1 + count, ?_, ?_⟩
  · rw [Cursor.after_add, first, reaches]
  · rw [Cursor.take_add, Cursor.faults_append, first, met, Cursor.take, stands]
    rfl

/-- A call for a whole text succeeds exactly if the lexeme held and those left up to the end make up
an expression, which is then its answer. -/
theorem answer_whole_eq_ok_iff {parser : Parser} (outermost : parser.depth = 0) (tree : Expr) :
    parser.answer .whole = .ok tree ↔
      ∃ lexemes last, Cursor.Walk parser.cursor lexemes last ∧
        (∀ char ∈ last.rest, Text.isBlank char = true) ∧
        Derives .disjunction (parser.current :: lexemes) tree ∧ tree.height ≤ maxDepth := by
  constructor
  · intro accepted
    cases ran : whole parser with
    | error error last =>
        rw [answer, Call.action, ran] at accepted
        cases accepted
    | ok value last =>
        rw [answer, Call.action, ran] at accepted
        cases accepted
        obtain ⟨ranExpression, ended⟩ := whole_eq_ok ran
        obtain ⟨lexemes, takes, derived, low⟩ := expression_sound ranExpression
        obtain ⟨first, more, rfl, _⟩ := derived.head
        cases takes with
        | step found inside takes =>
            obtain ⟨final, walk, ahead⟩ := takes.exists_walk found
            exact ⟨more, final, walk, Cursor.blank_of_next ahead ended, derived, low⟩
  · rintro ⟨lexemes, final, walk, blank, derived, low⟩
    obtain ⟨_, _, same, begins⟩ := derived.head
    obtain ⟨rfl, -⟩ := List.cons.inj same
    have ahead := Cursor.next_of_blank blank
    have goesOn : ∃ lexeme cursor, parser.cursor.next = (.ok lexeme, cursor) := by
      cases walk with
      | done => exact ⟨_, _, ahead⟩
      | step found _ _ => exact ⟨_, _, found⟩
    obtain ⟨lexeme, cursor, found⟩ := goesOn
    have inside : parser.current.token ≠ .endOfInput := by
      intro ended
      rw [ended] at begins
      cases begins
    have takes := takes_of_walk { parser with cursor := cursor, current := lexeme } walk ahead found
    rcases reaches_whole derived (.step found inside takes) rfl with returns | ⟨-, tall⟩
    · rw [answer, Call.action, returns]
      rfl
    · rw [outermost] at tall
      omega

end Parser

/-- After any calls on a parser, a call for a whole text succeeds exactly if the lexeme held and
those left up to the end of the text make up an expression. Then the calls before have reported all
lexical faults of the text, each once and in order. So no such call ever succeeds on a text with an
unexpected character, unless that is a dollar sign. -/
theorem lexical_faults_reported_first (text : String) (parser : Parser)
    (started : Parser.start text = .ok parser) (calls : List Parser.Call) :
    (∀ tree, (parser.afterCalls calls).answer .whole = .ok tree ↔
      ∃ lexemes last, Cursor.Walk (parser.afterCalls calls).cursor lexemes last ∧
        (∀ char ∈ last.rest, Text.isBlank char = true) ∧
        Derives .disjunction ((parser.afterCalls calls).current :: lexemes) tree ∧
        tree.height ≤ 128) ∧
    (∀ tree, (parser.afterCalls calls).answer .whole = .ok tree →
      ∃ enough, ∀ count, enough ≤ count →
        Cursor.faults ((Cursor.start text).take count) = Parser.reported (parser.answers calls)) ∧
    ∀ count char position, char ≠ '$' →
      .error ⟨.unexpectedCharacter char, position⟩ ∈ (Cursor.start text).take count →
      ∀ tree, (parser.afterCalls calls).answer .whole ≠ .ok tree := by
  obtain ⟨stands, outermost⟩ := Parser.start_eq_ok started
  have accepts := Parser.answer_whole_eq_ok_iff ((parser.depth_afterCalls calls).trans outermost)
  have reports : ∀ tree, (parser.afterCalls calls).answer .whole = .ok tree →
      ∃ enough, ∀ count, enough ≤ count →
        Cursor.faults ((Cursor.start text).take count) = Parser.reported (parser.answers calls) := by
    intro tree accepted
    obtain ⟨lexemes, last, walk, ended, -⟩ := (accepts tree).mp accepted
    obtain ⟨enough, reaches, met⟩ := Parser.exists_faults_text started calls
    refine ⟨enough, fun count le => ?_⟩
    obtain ⟨more, rfl⟩ := Nat.exists_eq_add_of_le le
    rw [Cursor.take_add, Cursor.faults_append, met, ← reaches, walk.faults_take ended,
      List.append_nil]
  refine ⟨accepts, reports, fun count char position other mem tree accepted => ?_⟩
  obtain ⟨enough, constant⟩ := reports tree accepted
  obtain ⟨before, failed⟩ := Cursor.exists_of_mem_take mem
  -- The cursor stays before the character, so there are more faults than were ever reported.
  let more := enough + (Parser.reported (parser.answers calls)).length + 1
  have all := congrArg List.length (constant (before + more) (by omega))
  rw [Cursor.take_add, Cursor.faults_append, Cursor.faults_take_of_unexpected failed other,
    List.length_append, List.length_replicate] at all
  omega

/-- A dollar sign behind a string is reported once, and the next call succeeds. A hash sign there is
never passed. -/
theorem lexical_faults_reported_first_signs :
    (∃ parser, Parser.start "'a' $" = .ok parser ∧
      (parser.afterCalls [.whole]).answer .whole = .ok (.literal "'a'" (.text "a") ⟨0, 3⟩) ∧
      ∃ enough, ∀ count, enough ≤ count → Cursor.faults ((Cursor.start "'a' $").take count) =
        [⟨.unexpectedCharacter '$', 4⟩]) ∧
    ∃ parser, Parser.start "'a' #" = .ok parser ∧
      ∀ calls tree, (parser.afterCalls calls).answer .whole ≠ .ok tree := by
  obtain ⟨started, accepted, once⟩ :
      Parser.start "'a' $" = .ok ⟨⟨3, [' ', '$']⟩, ⟨.literal (.text "a"), ⟨0, 3⟩, "'a'"⟩, 0⟩ ∧
      (Parser.afterCalls ⟨⟨3, [' ', '$']⟩, ⟨.literal (.text "a"), ⟨0, 3⟩, "'a'"⟩, 0⟩ [.whole]).answer
        .whole = .ok (.literal "'a'" (.text "a") ⟨0, 3⟩) ∧
      Parser.reported (Parser.answers ⟨⟨3, [' ', '$']⟩, ⟨.literal (.text "a"), ⟨0, 3⟩, "'a'"⟩, 0⟩
        [.whole]) = [⟨.unexpectedCharacter '$', 4⟩] := by cbv
  obtain ⟨startedHash, hash⟩ :
      Parser.start "'a' #" = .ok ⟨⟨3, [' ', '#']⟩, ⟨.literal (.text "a"), ⟨0, 3⟩, "'a'"⟩, 0⟩ ∧
      (Cursor.start "'a' #").take 2 = [.ok ⟨.literal (.text "a"), ⟨0, 3⟩, "'a'"⟩,
        .error ⟨.unexpectedCharacter '#', 4⟩] := by cbv
  have facts := (lexical_faults_reported_first _ _ started [.whole]).2.1 _ accepted
  rw [once] at facts
  refine ⟨⟨_, started, accepted, facts⟩, _, startedHash, fun calls => ?_⟩
  refine (lexical_faults_reported_first _ _ startedHash calls).2.2 2 '#' 4 (by decide) ?_
  rw [hash]
  simp

/-- The text `'a' $` has a lexical fault. Yet the second of two calls for a whole text succeeds. -/
theorem reported_fault_forgotten :
    lexed "'a' $" = .error ⟨.unexpectedCharacter '$', 4⟩ ∧
      ∃ parser, Parser.start "'a' $" = .ok parser ∧
        parser.answers [.whole, .whole] =
          [.error (.lexical ⟨.unexpectedCharacter '$', 4⟩),
            .ok (.literal "'a'" (.text "a") ⟨0, 3⟩)] := by
  refine ⟨?_, ⟨⟨3, [' ', '$']⟩, ⟨.literal (.text "a"), ⟨0, 3⟩, "'a'"⟩, 0⟩, ?_, ?_⟩
  · cbv
  · cbv
  · cbv

end QueryClause
