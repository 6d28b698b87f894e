import Mathlib
import QueryClause.Proofs.ReusedParser
import QueryClause.Proofs.Slices

/-!
# The count of nestings

A parser counts the nestings it is inside. Every routine leads by single steps from one parser to
another: it advances, enters a nesting or leaves one. A nesting is entered only where the count is
below the greatest depth, so no parser on the way is deeper than that, and what is nested is never
handed a deeper one. A nesting is left only where the count is not zero. In the end the count is what
it was in the beginning, whether the routine succeeds or fails. So it is zero between any calls on a
parser that starts with a text. The height of what is returned is bounded on its own: leaves are
low, and every other tree has passed the check of its height.
-/

namespace QueryClause

namespace Parser

/-! ## Single steps -/

/-- A single step from one parser to the next: a lexeme is taken, a fault is met, or a nesting is
entered or left. -/
inductive Step : Parser → Parser → Prop where
  | takes {parser next : Parser} {lexeme : Lexeme} (advanced : advance parser = .ok lexeme next) :
      Step parser next
  | meets {parser next : Parser} {error : ParseError}
      (advanced : advance parser = .error error next) : Step parser next
  | enters {parser next : Parser} (entered : enter parser = .ok () next) : Step parser next
  | leaves {parser : Parser} (inside : 0 < parser.depth) : Step parser parser.leave

/-- The path leads from one parser to another by single steps. -/
inductive Steps : Parser → List Parser → Parser → Prop where
  | stays {parser : Parser} : Steps parser [parser] parser
  | goesOn {first middle last : Parser} {path : List Parser} (step : Step first middle)
      (steps : Steps middle path last) : Steps first (first :: path) last

/-- A nesting that is entered is not too deep. -/
theorem depth_le_of_enter {parser entered : Parser} (enters : enter parser = .ok () entered) :
    entered.depth ≤ maxDepth := by
  obtain ⟨shallow, rfl⟩ := enter_eq_ok_iff.mp enters
  exact shallow

theorem Step.depth_le {first last : Parser} (step : Step first last)
    (low : first.depth ≤ maxDepth) : last.depth ≤ maxDepth := by
  have same := conduct_depth.advance first
  cases step with
  | takes advanced =>
      rw [advanced] at same
      exact same.trans_le low
  | meets advanced =>
      rw [advanced] at same
      exact same.trans_le low
  | enters entered => exact depth_le_of_enter entered
  | leaves _ => exact Nat.le_trans (Nat.sub_le _ _) low

/-- What is nested is handed no parser that is too deep, so actions that agree on all others are the
same one nesting further in. -/
theorem nested_congr {action other : Action Expr}
    (agree : ∀ parser, parser.depth ≤ maxDepth → action parser = other parser) :
    nested action = nested other := by
  funext parser
  cases enters : enter parser with
  | error error last => rw [nested_of_refused enters, nested_of_refused enters]
  | ok _ entered =>
      rw [nested_of_entered enters, nested_of_entered enters,
        agree entered (depth_le_of_enter enters)]

namespace Steps

theorem depth_le {first last : Parser} {path : List Parser} (steps : Steps first path last)
    (low : first.depth ≤ maxDepth) : ∀ passed ∈ path, passed.depth ≤ maxDepth := by
  induction steps with
  | stays => simpa using low
  | goesOn step _ ih => exact List.forall_mem_cons.mpr ⟨low, ih (step.depth_le low)⟩

/-- A path goes on with another that begins a step behind its end. -/
theorem append {first middle next last : Parser} {path more : List Parser}
    (before : Steps first path middle) (step : Step middle next) (behind : Steps next more last) :
    Steps first (path ++ more) last := by
  induction before with
  | stays => exact .goesOn step behind
  | goesOn begins _ ih => exact .goesOn begins (ih step)

end Steps

/-! ## The way of a script -/

/-- The parser where an action ends, whether it succeeds or fails. -/
def finish {α : Type} : EStateM.Result ParseError Parser α → Parser
  | .ok _ last => last
  | .error _ last => last

namespace Script

variable {α : Type} (script : Script α) (parser : Parser)

/-- A script ends at the nesting where it began. -/
theorem depth_finish : (finish (script.run parser)).depth = parser.depth := by
  have ran := conduct_depth.script script parser
  cases result : script.run parser <;> rw [result] at ran <;> exact ran

/-- The path of a script leads by single steps to where the script ends. -/
theorem steps_path : Steps parser (script.path parser) (finish (script.run parser)) := by
  induction script generalizing parser with
  | done value => exact .stays
  | refuse expected => exact .stays
  | tooDeep span => exact .stays
  | look rest ih => exact ih parser parser
  | take rest ih =>
      rw [path, run]
      cases advanced : Parser.advance parser with
      | ok lexeme next =>
          rw [bind_of_ok advanced]
          exact .goesOn (.takes advanced) (ih lexeme next)
      | error error next =>
          rw [bind_of_error advanced]
          exact .goesOn (.meets advanced) .stays
  | nest inner rest ihInner ih =>
      rw [path, run]
      cases enters : enter parser with
      | error error last =>
          obtain ⟨_, _, rfl⟩ := enter_eq_error_iff.mp enters
          rw [bind_of_error (nested_of_refused enters)]
          exact .stays
      | ok _ entered =>
          have within := ihInner entered
          -- The count was raised and is the same again, so the nesting can be left.
          have inside : 0 < (finish (inner.run entered)).depth := by
            obtain ⟨_, rfl⟩ := enter_eq_ok_iff.mp enters
            rw [inner.depth_finish]
            exact Nat.succ_pos _
          have leaves := Step.leaves inside
          dsimp only
          cases ran : inner.run entered with
          | ok tree last =>
              rw [ran] at within leaves
              rw [bind_of_ok (nested_of_ok enters ran)]
              exact .goesOn (.enters enters) (within.append leaves (ih tree _))
          | error error last =>
              rw [ran] at within leaves
              rw [bind_of_error (nested_of_error enters ran)]
              exact .goesOn (.enters enters) (within.append leaves .stays)

end Script

/-! ## The height of what is returned -/

theorem call_height_le {inner : Inner} {name : String} {span : Span} {parser last : Parser}
    {tree : Expr} (ran : call inner name span parser = .ok tree last) : tree.height ≤ maxDepth := by
  obtain ⟨_, _, _, ranArguments⟩ := bind_eq_ok.mp ran
  obtain ⟨_, _, _, ranClose⟩ := bind_eq_ok.mp ranArguments
  obtain ⟨_, _, _, built⟩ := bind_eq_ok.mp ranClose
  obtain ⟨rfl, -, low⟩ := node_eq_ok built
  exact low

/-- What a routine returns is not too tall, at whatever nesting it was run. -/
theorem Routine.height_le {routine : Routine} {parser last : Parser} {tree : Expr}
    (ran : routine.action parser = .ok tree last) : tree.height ≤ maxDepth := by
  cases routine with
  | reads layer =>
      obtain ⟨_, _, _, low⟩ := action_sound layer parser ran
      exact low
  | call name span => exact call_height_le ran
  | whole =>
      obtain ⟨ranExpression, -⟩ := whole_eq_ok ran
      obtain ⟨_, _, _, low⟩ := expression_sound ranExpression
      exact low

theorem height_le_of_mem_answers {parser : Parser} {calls : List Call} {tree : Expr}
    (mem : .ok tree ∈ parser.answers calls) : tree.height ≤ maxDepth := by
  induction calls generalizing parser with
  | nil => cases mem
  | cons call rest ih =>
      rcases List.mem_cons.mp mem with answered | later
      · rw [answer, ← call.action_routine] at answered
        cases ran : call.routine.action parser with
        | ok value last =>
            rw [ran] at answered
            cases answered
            exact Routine.height_le ran
        | error error last =>
            rw [ran] at answered
            cases answered
      · exact ih later

end Parser

/-- An action that is nested is handed no parser deeper than 128: what it does with such a parser
does not matter. Every routine of the parser is the run of its script. From a parser that is at most
128 nestings deep, it leads by single steps over parsers that are no deeper than 128 to one that is
as deep as the first, whether it succeeds or fails, and no node of a tree that it returns is taller
than 128. So a parser that starts with a text is inside no nesting after any calls, and the calls
have returned no taller tree either. -/
theorem nesting_bounded_and_restored :
    (∀ action other : Parser.Action Expr,
      (∀ parser, parser.depth ≤ 128 → action parser = other parser) →
        Parser.nested action = Parser.nested other) ∧
    (∀ routine : Parser.Routine, routine.script.run = routine.action) ∧
    (∀ (routine : Parser.Routine) (parser : Parser), parser.depth ≤ 128 →
      Parser.Steps parser (routine.script.path parser) (Parser.finish (routine.action parser)) ∧
      (∀ passed ∈ routine.script.path parser, passed.depth ≤ 128) ∧
      (Parser.finish (routine.action parser)).depth = parser.depth ∧
      ∀ tree last, routine.action parser = .ok tree last →
        ∀ node ∈ tree.preorder, node.height ≤ 128) ∧
    ∀ text parser, Parser.start text = .ok parser → ∀ calls,
      (parser.afterCalls calls).depth = 0 ∧
      ∀ tree, .ok tree ∈ parser.answers calls → ∀ node ∈ tree.preorder, node.height ≤ 128 := by
  refine ⟨fun action other => Parser.nested_congr, Parser.Routine.run_script,
    fun routine parser low => ?_, fun text parser started calls => ?_⟩
  · have steps := routine.script.steps_path parser
    have restored := routine.script.depth_finish parser
    rw [routine.run_script] at steps restored
    refine ⟨steps, steps.depth_le low, restored, fun tree last ran node mem => ?_⟩
    exact (tree.height_le_of_mem_preorder node mem).trans (Parser.Routine.height_le ran)
  · obtain ⟨-, outermost⟩ := Parser.start_eq_ok started
    refine ⟨(parser.depth_afterCalls calls).trans outermost, fun tree mem node inside => ?_⟩
    exact (tree.height_le_of_mem_preorder node inside).trans (Parser.height_le_of_mem_answers mem)

/-- An action that fails beyond the greatest depth is nested like one that does not. A string in
parentheses is read one nesting further in. At the greatest depth its parenthesis is refused, and a
dollar sign behind the string ends the nesting with an error. -/
theorem nesting_bounded_and_restored_parens :
    (∀ tree : Expr, Parser.nested (pure tree) = Parser.nested fun parser =>
      if parser.depth ≤ 128 then .ok tree parser
      else .error (.tooDeep parser.current.span) parser) ∧
    (∃ parser tree, Parser.start "('a')" = .ok parser ∧ .ok tree ∈ parser.answers [.whole] ∧
      (Parser.Routine.whole.script.path parser).map Parser.depth = [0, 0, 1, 1, 0, 0] ∧
      (Parser.finish (Parser.Routine.whole.action parser)).depth = parser.depth ∧
      (∀ node ∈ tree.preorder, node.height ≤ 128) ∧
      (Parser.Routine.whole.script.path { parser with depth := 128 }).map Parser.depth =
        [128, 128] ∧
      (Parser.finish (Parser.Routine.whole.action { parser with depth := 128 })).depth = 128) ∧
    ∃ parser, Parser.start "('a' $" = .ok parser ∧
      (Parser.Routine.whole.script.path parser).map Parser.depth = [0, 0, 1, 1, 0] ∧
      ∀ calls, (parser.afterCalls calls).depth = 0 := by
  obtain ⟨parser, tree, started, low, answered, depths, deepest⟩ :
      ∃ parser tree, Parser.start "('a')" = .ok parser ∧ parser.depth = 0 ∧
        parser.answers [.whole] = [.ok tree] ∧
        (Parser.Routine.whole.script.path parser).map Parser.depth = [0, 0, 1, 1, 0, 0] ∧
        (Parser.Routine.whole.script.path { parser with depth := 128 }).map Parser.depth =
          [128, 128] :=
    ⟨⟨⟨1, ['\'', 'a', '\'', ')']⟩, ⟨.openParen, ⟨0, 1⟩, "("⟩, 0⟩,
      .paren (.literal "'a'" (.text "a") ⟨1, 4⟩) ⟨0, 5⟩, by cbv⟩
  obtain ⟨faulty, startedFaulty, depthsFaulty⟩ :
      ∃ parser, Parser.start "('a' $" = .ok parser ∧
        (Parser.Routine.whole.script.path parser).map Parser.depth = [0, 0, 1, 1, 0] :=
    ⟨⟨⟨1, ['\'', 'a', '\'', ' ', '$']⟩, ⟨.openParen, ⟨0, 1⟩, "("⟩, 0⟩, by cbv⟩
  obtain ⟨handed, -, keeps, between⟩ := nesting_bounded_and_restored
  have mem : .ok tree ∈ parser.answers [.whole] := answered ▸ List.mem_singleton_self _
  obtain ⟨-, -, restored, -⟩ := keeps .whole parser (by omega)
  obtain ⟨-, -, restoredDeepest, -⟩ := keeps .whole { parser with depth := 128 } (Nat.le_refl 128)
  refine ⟨fun tree => handed _ _ fun parser low => (if_pos low).symm, ?_, ?_⟩
  · exact ⟨parser, tree, started, mem, depths, restored, (between _ _ started _).2 tree mem,
      deepest, restoredDeepest⟩
  · exact ⟨faulty, startedFaulty, depthsFaulty, fun calls => (between _ _ startedFaulty calls).1⟩

end QueryClause
