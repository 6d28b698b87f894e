import Mathlib
import QueryClause.Proofs.Isolated
import QueryClause.Proofs.Moved
import QueryClause.Proofs.ParserCompleteness
import QueryClause.Proofs.Spans

/-!
# A node and the text of its span

The span of a node is exactly its source: the characters of the span, taken as a text of
their own, are parsed to that node, moved to the start of the text.
-/

namespace QueryClause

open QueryClause.Text QueryClause.Grammar

/-! ## Cutting a text at lexemes -/

namespace Cursor.Walk

/-- A walk takes the front of what is left of the text. -/
theorem exists_front {cursor last : Cursor} {lexemes : List Lexeme}
    (walk : Walk cursor lexemes last) :
    ∃ front, cursor.rest = front ++ last.rest ∧
      last.position = cursor.position + front.length := by
  induction walk with
  | done => exact ⟨[], rfl, rfl⟩
  | @step cursor after last lexeme lexemes found inside walk ih =>
      obtain ⟨front, behind, moved⟩ := ih
      obtain ⟨gap, taken, rest, _, _, whole, _, rfl⟩ := exists_of_next found inside
      simp only at behind moved
      refine ⟨gap ++ (taken ++ front), ?_, ?_⟩
      · rw [whole, behind]
        simp only [List.append_assoc]
      · rw [moved]
        simp only [List.length_append]
        omega

/-- What follows the lexemes of a walk can be cut off. A name that is a reserved word too
would lose the slash after it. -/
theorem prune {cursor last : Cursor} {lexemes : List Lexeme} {core : List Char}
    (walk : Walk cursor lexemes last) (whole : cursor.rest = core ++ last.rest)
    (free : ∀ lexeme ∈ lexemes, ∀ name, lexeme.token = .identifier name →
      Token.keyword? name = none) :
    Walk ⟨cursor.position, core⟩ lexemes ⟨last.position, []⟩ := by
  induction walk generalizing core with
  | done =>
      obtain rfl : core = [] := List.append_left_eq_self.mp whole.symm
      exact .done
  | @step cursor after last lexeme lexemes found inside walk ih =>
      rw [List.forall_mem_cons] at free
      obtain ⟨front, behind, _⟩ := walk.exists_front
      obtain ⟨gap, taken, rest, blank, scanned, shape, written, rfl⟩ :=
        exists_of_next found inside
      simp only at behind
      subst behind
      have pruned := scanned.prune fun _ => free.1
      have next := next_of_scanned cursor.position blank pruned
      obtain rfl : core = gap ++ (taken ++ front) := by
        rw [shape, ← List.append_assoc taken, ← List.append_assoc gap] at whole
        exact (List.append_cancel_right whole).symm
      rw [← written] at next
      exact .step next inside (ih rfl free.2)

/-- No name among the lexemes of a text without faults is a reserved word. -/
theorem names_free {cursor last : Cursor} {lexemes : List Lexeme} (walk : Walk cursor lexemes last)
    (ended : ∀ char ∈ last.rest, isBlank char = true) :
    ∀ lexeme ∈ lexemes, ∀ name, lexeme.token = .identifier name → Token.keyword? name = none := by
  intro lexeme mem name isName
  have alone := (plain_and_scanned_of_walk walk ended lexeme mem).2
  rw [isName] at alone
  exact alone.name_inv.resolve_right (by simp)

end Cursor.Walk

/-- The lexemes of a text are parsed to the tree that they derive in any layer. -/
theorem parse_of_lexed {text : String} {found : List Lexeme} {layer : Layer} {whole : Expr}
    (lexes : lexed text = .ok found) (derived : Derives layer found whole)
    (low : whole.height ≤ maxDepth) : parse text = .ok whole := by
  rcases parse_of_derives lexes derived.loosen with parsed | ⟨_, tall⟩
  · exact parsed
  · exact absurd tall (Nat.not_lt.mpr low)

/-- A phrase that fills a text is parsed to its tree, moved to the start of the text. -/
theorem parse_of_walk {position : Nat} {core : List Char} {lexemes : List Lexeme} {last : Cursor}
    {layer : Layer} {node : Expr} (walk : Cursor.Walk ⟨position, core⟩ lexemes last)
    (ended : ∀ char ∈ last.rest, isBlank char = true) (derived : Derives layer lexemes node)
    (low : node.height ≤ maxDepth) :
    parse (String.ofList core) = .ok (node.moved position 0) := by
  have walkMoved := walk.moved 0 (Nat.le_refl position)
  have starts : Cursor.moved position 0 ⟨position, core⟩ = Cursor.start (String.ofList core) := by
    simp only [Cursor.moved, Cursor.start, Nat.sub_self, String.toList_ofList]
  rw [starts] at walkMoved
  exact parse_of_lexed (lexed_eq_ok_iff.mpr ⟨_, walkMoved, ended⟩) derived.moved
    (by rwa [Expr.height_moved])

theorem Span.slice_eq {text : String} {front core rest : List Char} {span : Span}
    (whole : text.toList = front ++ (core ++ rest))
    (stands : span = ⟨front.length, front.length + core.length⟩) :
    span.slice text = String.ofList core := by
  have kept : text.toList.take span.stop = front ++ core := by
    rw [whole, stands, ← List.append_assoc, ← List.length_append, List.take_left]
  rw [slice, kept, stands, List.drop_left]

/-- The characters of a phrase inside a text, and what it is parsed to on its own. -/
theorem exists_slice {text : String} {before part after : List Lexeme} {last : Cursor}
    {layer : Layer} {node : Expr}
    (walk : Cursor.Walk (.start text) (before ++ (part ++ after)) last)
    (ended : ∀ char ∈ last.rest, isBlank char = true) (derived : Derives layer part node)
    (low : node.height ≤ maxDepth) :
    ∃ start stop, node.span = ⟨start, stop⟩ ∧ Occupies start stop part ∧
      stop ≤ text.toList.length ∧
      parse (node.span.slice text) = .ok (node.moved start 0) := by
  have free := walk.names_free ended
  obtain ⟨middle, walkBefore, walkRest⟩ := walk.split
  obtain ⟨final, walkPart, _⟩ := walkRest.split
  obtain ⟨front, whole, position⟩ := walkBefore.exists_front
  obtain ⟨gap, core, _, shape, stops, occupies, walkCore⟩ :=
    walkPart.exists_occupies derived.ne_nil
  have pruned := walkCore.prune rfl fun lexeme mem => free lexeme (by simp [mem])
  simp only [Cursor.start, Nat.zero_add] at whole position
  have text_eq : text.toList = (front ++ gap) ++ (core ++ final.rest) := by
    rw [whole, shape, List.append_assoc]
  have starts : middle.position + gap.length = (front ++ gap).length := by
    rw [position, List.length_append]
  have span := derived.span_eq occupies
  have stands : node.span = ⟨(front ++ gap).length, (front ++ gap).length + core.length⟩ := by
    rw [span, stops, starts]
  refine ⟨_, _, span, occupies, ?_, ?_⟩
  · rw [stops, starts, text_eq]
    simp only [List.length_append]
    omega
  · rw [Span.slice_eq text_eq stands]
    exact parse_of_walk pruned (by simp) derived low

/-! ## Every node of a tree -/

namespace Expr

mutual

/-- No node is taller than the tree it belongs to. -/
theorem height_le_of_mem_preorder : (whole : Expr) → ∀ node ∈ whole.preorder,
    node.height ≤ whole.height
  | .member .. => by simp [preorder]
  | .literal .. => by simp [preorder]
  | .unary _ operand _ => by
      have below := height_le_of_mem_preorder operand
      simp only [preorder, List.forall_mem_cons, height]
      exact ⟨Nat.le_refl _, fun node mem => Nat.le_succ_of_le (below node mem)⟩
  | .binary _ left right _ => by
      have inLeft := height_le_of_mem_preorder left
      have inRight := height_le_of_mem_preorder right
      simp only [preorder, List.cons_append, List.forall_mem_cons, List.forall_mem_append, height]
      refine ⟨Nat.le_refl _, fun node mem => ?_, fun node mem => ?_⟩
      · have := inLeft node mem
        omega
      · have := inRight node mem
        omega
  | .call _ arguments _ => by
      have below := height_le_of_mem_preorderAll arguments
      simp only [preorder, List.forall_mem_cons, height]
      exact ⟨Nat.le_refl _, fun node mem => Nat.le_succ_of_le (below node mem)⟩
  | .paren inner _ => by
      have below := height_le_of_mem_preorder inner
      simp only [preorder, List.forall_mem_cons, height]
      exact ⟨Nat.le_refl _, fun node mem => Nat.le_succ_of_le (below node mem)⟩

theorem height_le_of_mem_preorderAll : (trees : List Expr) → ∀ node ∈ preorderAll trees,
    node.height ≤ greatestHeight trees
  | [] => by simp [preorderAll]
  | first :: rest => by
      have inFirst := height_le_of_mem_preorder first
      have inRest := height_le_of_mem_preorderAll rest
      simp only [preorderAll, List.forall_mem_append, greatestHeight]
      refine ⟨fun node mem => ?_, fun node mem => ?_⟩
      · have := inFirst node mem
        omega
      · have := inRest node mem
        omega

end

end Expr

/-- Every node of a parsed tree is what the characters of its span are parsed to, moved to
the start of the text. The spans of its children lie inside its own, one after the other. -/
theorem parse_slice {text : String} {whole : Expr} (parsed : parse text = .ok whole) :
    ∀ node ∈ whole.preorder,
      parse (node.span.slice text) = .ok (node.moved node.span.start 0) ∧
      node.span.start < node.span.stop ∧ node.span.stop ≤ text.toList.length ∧
      (∀ child ∈ node.children,
        node.span.start ≤ child.span.start ∧ child.span.stop ≤ node.span.stop) ∧
      node.children.Pairwise fun first second => first.span.stop ≤ second.span.start := by
  intro node mem
  obtain ⟨found, lexes, derived, low⟩ := exists_derives_of_parse parsed
  obtain ⟨last, walk, ended⟩ := lexed_eq_ok_iff.mp lexes
  obtain ⟨before, part, after, layer, rfl, derivedNode⟩ :=
    holds_of_mem_preorder whole derived node mem
  have lowNode := Nat.le_trans (whole.height_le_of_mem_preorder node mem) low
  obtain ⟨start, stop, span, occupies, fits, parsedNode⟩ :=
    exists_slice walk ended derivedNode lowNode
  have lined := derivedNode.lined_children occupies
  rw [span] at parsedNode ⊢
  exact ⟨parsedNode, occupies.start_lt_stop, fits, lined.inside, lined.inOrder⟩

theorem parse_slice_paren :
    ∃ whole, parse " -( 'b' )" = .ok whole ∧
      .paren (.literal "'b'" (.text "b") ⟨4, 7⟩) ⟨2, 9⟩ ∈ whole.preorder ∧
      parse "( 'b' )" = .ok (.paren (.literal "'b'" (.text "b") ⟨2, 5⟩) ⟨0, 7⟩) := by
  have parsed : parse " -( 'b' )" =
      .ok (.unary .negate (.paren (.literal "'b'" (.text "b") ⟨4, 7⟩) ⟨2, 9⟩) ⟨1, 9⟩) := by cbv
  have below : .paren (.literal "'b'" (.text "b") ⟨4, 7⟩) ⟨2, 9⟩ ∈ Expr.preorder
      (.unary .negate (.paren (.literal "'b'" (.text "b") ⟨4, 7⟩) ⟨2, 9⟩) ⟨1, 9⟩) := by
    simp [Expr.preorder]
  have source : Span.slice ⟨2, 9⟩ " -( 'b' )" = "( 'b' )" := by decide
  have alone := (parse_slice parsed _ below).1
  simp only [Expr.span, source] at alone
  exact ⟨_, parsed, below, alone⟩

end QueryClause
