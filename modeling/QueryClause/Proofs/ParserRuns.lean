import QueryClause.Proofs.Scripts

/-!
# What holds of every run of the parser

A run of the parser leads from one parser to another, and it may fail on the way. A relation
between the two parsers and the error, if there is one, holds of every run as soon as it holds of
the steps that runs are made of: taking a lexeme, meeting a fault, refusing a token or a height,
and going one nesting further in and back. That is shown once, by induction on scripts, and holds of
every routine because it is the run of a script.
-/

namespace QueryClause.Parser

/-- The relation holds of the single steps of the parser, and runs can be put together. -/
structure Conduct (leads : Parser → Option ParseError → Parser → Prop) : Prop where
  stays : ∀ parser, leads parser none parser
  goesOn : ∀ {first middle last error}, leads first none middle → leads middle error last →
    leads first error last
  takes : ∀ {parser cursor lexeme}, parser.cursor.next = (.ok lexeme, cursor) →
    leads parser none { parser with cursor := cursor, current := lexeme }
  meets : ∀ {parser cursor error}, parser.cursor.next = (.error error, cursor) →
    leads parser (some (.lexical error)) { parser with cursor := cursor }
  refuses : ∀ parser expected,
    leads parser (some (.unexpectedToken expected parser.current.token parser.current.span)) parser
  tooDeep : ∀ parser span, leads parser (some (.tooDeep span)) parser
  nests : ∀ {parser entered last error}, enter parser = .ok () entered →
    leads entered error last → leads parser error last.leave

/-- The relation leads from a parser to a result. -/
def LeadsTo {α : Type} (leads : Parser → Option ParseError → Parser → Prop) (parser : Parser) :
    EStateM.Result ParseError Parser α → Prop
  | .ok _ last => leads parser none last
  | .error error last => leads parser (some error) last

/-- From every parser the relation leads to the result of the action. -/
def Abides {α : Type} (leads : Parser → Option ParseError → Parser → Prop) (action : Action α) :
    Prop :=
  ∀ parser, LeadsTo leads parser (action parser)

namespace Conduct

variable {leads : Parser → Option ParseError → Parser → Prop} (conduct : Conduct leads)

include conduct

/-! ## Rules for single actions -/

section Rules

variable {α β : Type}

theorem pure {value : α} : Abides leads (pure value : Action α) :=
  conduct.stays

theorem bind {action : Action α} {rest : α → Action β} (first : Abides leads action)
    (second : ∀ value, Abides leads (rest value)) : Abides leads (action >>= rest) := by
  intro parser
  have ran := first parser
  cases result : action parser with
  | error error last =>
      rw [result] at ran
      rw [bind_of_error result]
      exact ran
  | ok value middle =>
      rw [result] at ran
      rw [bind_of_ok result]
      have later := second value middle
      cases final : rest value middle <;> rw [final] at later <;> exact conduct.goesOn ran later

omit conduct in
/-- What is done next may depend on where the parser stands. -/
theorem get {rest : Parser → Action α} (goesOn : ∀ parser, Abides leads (rest parser)) :
    Abides leads (get >>= rest) :=
  fun parser => goesOn parser parser

theorem advance : Abides leads advance := by
  intro parser
  unfold Parser.advance
  cases found : parser.cursor.next with
  | mk result cursor =>
      cases result with
      | ok lexeme => exact conduct.takes found
      | error error => exact conduct.meets found

theorem refuse {expected : Expectation} : Abides leads (refuse expected : Action α) :=
  fun parser => conduct.refuses parser expected

theorem nested {action : Action Expr} (inner : Abides leads action) :
    Abides leads (nested action) := by
  intro parser
  refine nested_elim ?_ ?_ ?_
  · intro error last refused
    obtain ⟨_, rfl, rfl⟩ := enter_eq_error_iff.mp refused
    exact conduct.tooDeep _ _
  · intro entered tree final enters result
    have ran := inner entered
    rw [result] at ran
    exact conduct.nests enters ran
  · intro entered error final enters result
    have ran := inner entered
    rw [result] at ran
    exact conduct.nests enters ran

end Rules

/-! ## Scripts and routines -/

/-- The relation leads to the results of the run of every script. -/
theorem script {α : Type} (script : Script α) : Abides leads script.run := by
  induction script with
  | done value => exact conduct.pure
  | refuse expected => exact conduct.refuse
  | tooDeep span => exact fun parser => conduct.tooDeep parser span
  | look rest ih => exact get ih
  | take rest ih => exact conduct.bind conduct.advance ih
  | nest inner rest ihInner ih => exact conduct.bind (conduct.nested ihInner) ih

theorem routine (routine : Routine) : Abides leads routine.action := by
  rw [← routine.run_script]
  exact conduct.script routine.script

end Conduct

end QueryClause.Parser
