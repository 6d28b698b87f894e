import QueryClause.Proofs.Faults
import QueryClause.Proofs.Tiling

/-!
# Errors of the parser point into the text

A parser that stands in a text stays there, and the spans of the lexemes and trees it handles
lie in the text. So does the span or the position of any error, and a lexical error stands where
the characters begin that it is about. Each action of the parser has one lemma, and the grammar
is followed from the steps over single lexemes up to whole texts.
-/

namespace QueryClause

/-! ## Places in a text -/

/-- The span is a part of the text. -/
def Span.Within (text : String) (span : Span) : Prop :=
  span.start ≤ span.stop ∧ span.stop ≤ text.toList.length

theorem Span.Within.cover {text : String} {first second : Span} (within : first.Within text)
    (other : second.Within text) : (first.cover second).Within text := by
  simp only [Span.Within, Span.cover] at within other ⊢
  omega

/-- The error points at a part of the text, or at the characters that a fault is about. -/
def ParseError.PointsInto (text : String) : ParseError → Prop
  | .lexical error => error.position ≤ text.toList.length ∧
      Faulty (text.toList.drop error.position) error.fault
  | .unexpectedToken _ _ span => span.Within text
  | .tooDeep span => span.Within text

namespace Cursor.Inside

variable {text : String} {cursor : Cursor}

/-- A lexeme that is found, or the end, is a part of the text. -/
theorem within_of_next {next : Cursor} {lexeme : Lexeme} (inside : Inside text cursor)
    (found : cursor.next = (.ok lexeme, next)) : lexeme.span.Within text := by
  by_cases ended : lexeme.token = .endOfInput
  · rw [inside.span_endOfInput (by rw [found]) ended]
    exact ⟨Nat.le_refl _, Nat.le_refl _⟩
  · have stands := inside.standsIn found ended
    exact ⟨Nat.le_of_lt stands.visible, stands.fits⟩

/-- A fault is reported where the characters begin that it is about. -/
theorem pointsInto_of_next {error : LexError} (inside : Inside text cursor)
    (failed : cursor.next.1 = .error error) : (ParseError.lexical error).PointsInto text := by
  obtain ⟨faulty, position⟩ := next_eq_error_iff.mp failed
  rw [ParseError.PointsInto, position, inside.skipBlanks.drop_eq]
  exact ⟨inside.skipBlanks.position_le, faulty⟩

end Cursor.Inside

namespace Parser

/-- The parser stands in the text, and the lexeme ahead is a part of it. -/
structure Located (text : String) (parser : Parser) : Prop where
  cursor : Cursor.Inside text parser.cursor
  current : parser.current.span.Within text

/-- A result in a text: a value with a property, and a parser that still stands there, or an error
that points into the text. -/
def Fares {α : Type} (text : String) (holds : α → Prop) :
    EStateM.Result ParseError Parser α → Prop
  | .ok value last => holds value ∧ Located text last
  | .error error _ => error.PointsInto text

/-- Wherever the parser stands in the text, the action has a result in the text. -/
def Points {α : Type} (text : String) (holds : α → Prop) (action : Action α) : Prop :=
  ∀ parser, Located text parser → Fares text holds (action parser)

/-- The action returns trees that are parts of the text. -/
abbrev Places (text : String) (action : Action Expr) : Prop :=
  Points text (fun tree => tree.span.Within text) action

section Rules

variable {α β : Type} {text : String} {holds : α → Prop} {after : β → Prop}

theorem points_pure {value : α} (held : holds value) : Points text holds (pure value) :=
  fun _ located => ⟨held, located⟩

theorem Points.bind {action : Action α} {rest : α → Action β} (first : Points text holds action)
    (second : ∀ value, holds value → Points text after (rest value)) :
    Points text after (action >>= rest) := by
  intro parser located
  have ran := first parser located
  cases result : action parser with
  | error error last =>
      rw [result] at ran
      rw [bind_of_error result]
      exact ran
  | ok value last =>
      rw [result] at ran
      rw [bind_of_ok result]
      exact second value ran.1 last ran.2

/-- What is done next may depend on where the parser stands. -/
theorem points_get {rest : Parser → Action α}
    (goesOn : ∀ parser, Located text parser → Points text holds (rest parser)) :
    Points text holds (get >>= rest) :=
  fun parser located => goesOn parser located parser located

theorem points_peek {rest : Token → Action α} (goesOn : ∀ token, Points text holds (rest token)) :
    Points text holds (peek >>= rest) :=
  fun parser => goesOn parser.current.token parser

theorem points_advance : Points text (fun lexeme => lexeme.span.Within text) advance := by
  intro parser located
  have onward := located.cursor.next
  unfold advance
  split
  · rename_i found
    rw [found] at onward
    exact ⟨located.current, onward, located.cursor.within_of_next found⟩
  · rename_i found
    exact located.cursor.pointsInto_of_next (by rw [found])

theorem points_refuse {expected : Expectation} : Points text holds (refuse expected) :=
  fun _ located => located.current

end Rules

/-! ## The actions of the parser -/

section Actions

variable {text : String}

theorem places_node {tree : Expr} (within : tree.span.Within text) : Places text (node tree) := by
  unfold node
  split
  · exact points_pure within
  · exact fun _ _ => within

theorem Points.nested {action : Action Expr} (places : Places text action) :
    Places text (nested action) := by
  intro parser located
  have inside {entered : Parser} (enters : enter parser = .ok () entered) :
      Located text entered := by
    obtain ⟨_, rfl⟩ := enter_eq_ok_iff.mp enters
    exact ⟨located.cursor, located.current⟩
  refine nested_elim ?_ ?_ ?_
  · intro error last refused
    obtain ⟨_, rfl, rfl⟩ := enter_eq_error_iff.mp refused
    exact located.current
  · intro entered tree final enters result
    have ran := places entered (inside enters)
    rw [result] at ran
    exact ⟨ran.1, ran.2.cursor, ran.2.current⟩
  · intro entered error final enters result
    have ran := places entered (inside enters)
    rw [result] at ran
    exact ran

theorem points_expect {token : Token} {expected : Expectation} :
    Points text (Span.Within text) (expect token expected) := by
  refine points_peek fun ahead => ?_
  split
  · exact points_advance.bind fun _ within => points_pure within
  · exact points_refuse

theorem places_join {operator : BinaryOp} {left right : Expr} (before : left.span.Within text)
    (behind : right.span.Within text) : Places text (join operator left right) :=
  places_node (before.cover behind)

theorem points_operator? {tier : Tier} : Points text (fun _ => True) (operator? tier) := by
  refine points_peek fun token => ?_
  split
  · split
    · exact points_advance.bind fun _ _ => points_pure trivial
    · exact points_pure trivial
  · exact points_pure trivial

theorem places_chainFrom {tier : Tier} {operand : Action Expr} (places : Places text operand)
    {steps : Nat} {left : Expr} (within : left.span.Within text) :
    Places text (chainFrom tier operand steps left) := by
  induction steps generalizing left with
  | zero => exact points_pure within
  | succ steps ih =>
      refine points_operator?.bind fun found _ => ?_
      cases found with
      | none => exact points_pure within
      | some operator =>
          refine places.bind fun right behind => ?_
          exact (places_join within behind).bind fun joined => ih

theorem places_chain {tier : Tier} {operand : Action Expr} (places : Places text operand) :
    Places text (chain tier operand) :=
  places.bind fun _ => places_chainFrom places

theorem points_argumentsFrom {argument : Action Expr} (places : Places text argument)
    {count : Nat} : Points text (fun _ => True) (argumentsFrom argument count) := by
  induction count with
  | zero => exact points_pure trivial
  | succ count ih =>
      refine places.bind fun first _ => points_peek fun token => ?_
      split
      · exact points_advance.bind fun _ _ => ih.bind fun _ _ => points_pure trivial
      · exact points_pure trivial

theorem points_arguments {argument : Action Expr} (places : Places text argument) :
    Points text (fun _ => True) (arguments argument) := by
  refine points_peek fun token => ?_
  split
  · exact points_pure trivial
  · exact points_get fun _ _ => points_argumentsFrom places

/-- The inner actions return parts of the text. -/
structure Inner.Places (text : String) (inner : Inner) : Prop where
  expression : Parser.Places text inner.expression
  negation : Parser.Places text inner.negation
  unary : Parser.Places text inner.unary

variable {inner : Inner} (places : inner.Places text)

include places

theorem places_call {name : String} {span : Span} (here : span.Within text) :
    Places text (call inner name span) := by
  refine points_expect.bind fun _ _ => ?_
  refine (points_arguments places.expression.nested).bind fun _ _ => ?_
  exact points_expect.bind fun _ close => places_node (here.cover close)

theorem places_primary : Places text (primary inner) := by
  refine points_get fun parser located => ?_
  have here := located.current
  dsimp only
  split
  · exact points_advance.bind fun _ _ => points_pure here
  · refine points_advance.bind fun _ _ => points_peek fun token => ?_
    split
    · exact places_call places here
    · exact points_pure here
  · refine points_advance.bind fun _ _ => places.expression.nested.bind fun _ _ => ?_
    exact points_expect.bind fun _ close => places_node (here.cover close)
  · exact points_refuse

theorem places_unary : Places text (unary inner) := by
  refine points_peek fun token => ?_
  split
  · refine points_advance.bind fun sign within => places.unary.nested.bind fun operand behind => ?_
    exact places_node (within.cover behind)
  · exact places_primary places

theorem places_sum : Places text (sum inner) :=
  places_chain (places_chain (places_unary places))

theorem places_comparison : Places text (comparison inner) := by
  refine (places_sum places).bind fun left before => points_operator?.bind fun found _ => ?_
  cases found with
  | none => exact points_pure before
  | some operator => exact (places_sum places).bind fun _ behind => places_join before behind

theorem places_negation : Places text (negation inner) := by
  refine points_peek fun token => ?_
  split
  · refine points_advance.bind fun sign within =>
      places.negation.nested.bind fun operand behind => ?_
    exact places_node (within.cover behind)
  · exact places_comparison places

theorem places_disjunction : Places text (disjunction inner) :=
  places_chain (places_chain (places_negation places))

omit places

/-- The inner actions return parts of the text for however many nestings they are prepared. -/
theorem inner_places (prepared : Nat) : (Parser.inner prepared).Places text := by
  induction prepared with
  | zero => constructor <;> exact fun _ located => located.current
  | succ prepared ih => exact ⟨places_disjunction ih, places_negation ih, places_unary ih⟩

theorem places_expression : Places text expression :=
  fun parser => places_disjunction (inner_places _) parser

theorem places_whole : Places text whole := by
  refine places_expression.bind fun tree within => points_peek fun token => ?_
  split
  · exact points_pure within
  · exact points_refuse

end Actions

end Parser

/-- Every error of the parser points into the text. -/
theorem pointsInto_of_parse {text : String} {error : ParseError}
    (failed : parse text = .error error) : error.PointsInto text := by
  have inside := Cursor.inside_start text
  rcases parse_eq_error failed with ⟨fault, rfl, found⟩ | ⟨parser, last, stands, ran⟩
  · exact inside.pointsInto_of_next found
  · have onward := inside.next
    rw [stands] at onward
    have points := Parser.places_whole parser ⟨onward, inside.within_of_next stands⟩
    rw [ran] at points
    exact points

end QueryClause
