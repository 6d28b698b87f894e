import QueryClause.Proofs.Productions
import QueryClause.Proofs.Walk

/-!
# Where trees stand

Lexemes that stand one after the other occupy a stretch of the text. The span of a derived
tree is the stretch of its lexemes, and the children of a node stand inside its span, one
after the other.
-/

namespace QueryClause

open QueryClause.Grammar

/-- Lexemes stand one after the other, from the start of the first to the end of the last. -/
inductive Occupies : Nat → Nat → List Lexeme → Prop where
  | last {lexeme : Lexeme} (visible : lexeme.span.start < lexeme.span.stop) :
      Occupies lexeme.span.start lexeme.span.stop [lexeme]
  | more {lexeme : Lexeme} {lexemes : List Lexeme} {next stop : Nat}
      (visible : lexeme.span.start < lexeme.span.stop) (apart : lexeme.span.stop ≤ next)
      (others : Occupies next stop lexemes) :
      Occupies lexeme.span.start stop (lexeme :: lexemes)

namespace Occupies

variable {start stop : Nat} {lexeme : Lexeme} {lexemes first second : List Lexeme}

theorem start_lt_stop (occupies : Occupies start stop lexemes) : start < stop := by
  induction occupies with
  | last visible => exact visible
  | more visible apart _ ih => omega

theorem span_of_singleton (occupies : Occupies start stop [lexeme]) :
    lexeme.span = ⟨start, stop⟩ := by
  cases occupies with
  | last => rfl
  | more _ _ others => cases others

/-- The first lexeme stands before the others. -/
theorem uncons (occupies : Occupies start stop (lexeme :: lexemes)) (more : lexemes ≠ []) :
    lexeme.span.start = start ∧ start < lexeme.span.stop ∧
      ∃ next, lexeme.span.stop ≤ next ∧ Occupies next stop lexemes := by
  cases occupies with
  | last => exact absurd rfl more
  | more visible apart others => exact ⟨rfl, visible, _, apart, others⟩

/-- Two parts of the lexemes occupy two stretches, one before the other. -/
theorem split (occupies : Occupies start stop (first ++ second)) (some : first ≠ [])
    (more : second ≠ []) :
    ∃ middle next, Occupies start middle first ∧ middle ≤ next ∧ Occupies next stop second := by
  induction first generalizing start with
  | nil => exact absurd rfl some
  | cons lexeme others ih =>
      rw [List.cons_append] at occupies
      obtain ⟨rfl, visible, next, apart, behind⟩ := occupies.uncons (by simp [more])
      cases others with
      | nil => exact ⟨_, next, .last visible, apart, behind⟩
      | cons second rest =>
          obtain ⟨middle, later, before, between, after⟩ := ih behind (List.cons_ne_nil _ _)
          exact ⟨middle, later, .more visible apart before, between, after⟩

/-- Lexemes on both sides of another one occupy two stretches, one before the other. -/
theorem around (occupies : Occupies start stop (first ++ lexeme :: second)) (some : first ≠ [])
    (more : second ≠ []) :
    ∃ middle next, Occupies start middle first ∧ middle ≤ next ∧ Occupies next stop second := by
  obtain ⟨middle, here, before, apart, behind⟩ := occupies.split some (List.cons_ne_nil _ _)
  obtain ⟨_, visible, next, between, after⟩ := behind.uncons more
  exact ⟨middle, next, before, by omega, after⟩

/-- The last lexeme stands behind the others. -/
theorem unsnoc (occupies : Occupies start stop (lexemes ++ [lexeme])) (some : lexemes ≠ []) :
    ∃ middle here, Occupies start middle lexemes ∧ middle ≤ here ∧ here < stop ∧
      lexeme.span = ⟨here, stop⟩ := by
  obtain ⟨middle, here, before, apart, final⟩ := occupies.split some (List.cons_ne_nil _ _)
  exact ⟨middle, here, before, apart, final.start_lt_stop, final.span_of_singleton⟩

end Occupies

theorem Grammar.Derives.ne_nil {layer : Layer} {lexemes : List Lexeme} {whole : Expr}
    (derived : Derives layer lexemes whole) : lexemes ≠ [] := by
  obtain ⟨first, rest, rfl, _⟩ := derived.head
  exact List.cons_ne_nil _ _

theorem Grammar.Arguments.ne_nil {lexemes : List Lexeme} {arguments : List Expr}
    (derived : Arguments lexemes arguments) : lexemes ≠ [] := by
  obtain ⟨first, rest, rfl, _⟩ := derived.head
  exact List.cons_ne_nil _ _

/-- Of two spans in order, the least span that holds both goes from the start of the first to
the end of the second. -/
theorem Span.cover_eq {first second : Span} {start stop : Nat} (starts : first.start = start)
    (stops : second.stop = stop) (before : first.start ≤ second.start)
    (behind : first.stop ≤ second.stop) : first.cover second = ⟨start, stop⟩ := by
  rw [cover, Nat.min_eq_left before, Nat.max_eq_right behind, starts, stops]

/-- The least span that holds the first lexeme and the last holds those between them. -/
theorem Occupies.cover_eq {start stop : Nat} {opening closing : Lexeme} {lexemes : List Lexeme}
    (occupies : Occupies start stop (opening :: (lexemes ++ [closing]))) :
    opening.span.cover closing.span = ⟨start, stop⟩ := by
  obtain ⟨starts, _, next, apart, behind⟩ := occupies.uncons (by simp)
  rw [← List.cons_append] at occupies
  obtain ⟨middle, here, before, between, _, closes⟩ := occupies.unsnoc (List.cons_ne_nil _ _)
  have wideBefore := before.start_lt_stop
  have wideBehind := behind.start_lt_stop
  refine Span.cover_eq starts ?_ ?_ ?_
  all_goals simp only [closes]
  all_goals omega

/-- The span of a derived tree is the stretch of its lexemes. -/
theorem Grammar.Derives.span_eq {layer : Layer} {lexemes : List Lexeme} {whole : Expr}
    {start stop : Nat} (derived : Derives layer lexemes whole)
    (occupies : Occupies start stop lexemes) : whole.span = ⟨start, stop⟩ := by
  cases derived.production with
  | leaf _ same => rw [same, occupies.span_of_singleton]
  | unary inner =>
      obtain ⟨starts, visible, next, apart, behind⟩ := occupies.uncons inner.ne_nil
      have below := inner.span_eq behind
      have wide := behind.start_lt_stop
      refine Span.cover_eq starts ?_ ?_ ?_
      all_goals simp only [below]
      all_goals omega
  | binary derivedLeft derivedRight =>
      obtain ⟨middle, next, before, apart, after⟩ :=
        occupies.around derivedLeft.ne_nil derivedRight.ne_nil
      have spanLeft := derivedLeft.span_eq before
      have spanRight := derivedRight.span_eq after
      have wideLeft := before.start_lt_stop
      have wideRight := after.start_lt_stop
      refine Span.cover_eq ?_ ?_ ?_ ?_
      all_goals simp only [spanLeft, spanRight]
      all_goals omega
  | @callEmpty _ opening => exact @Occupies.cover_eq _ _ _ _ [opening] occupies
  | @call _ opening _ _ lexemes => exact @Occupies.cover_eq _ _ _ _ (opening :: lexemes) occupies
  | paren => exact occupies.cover_eq
termination_by whole

/-! ## Children -/

/-- Trees stand between two positions, one after the other. -/
structure Lined (start stop : Nat) (trees : List Expr) : Prop where
  inside : ∀ tree ∈ trees, start ≤ tree.span.start ∧ tree.span.stop ≤ stop
  inOrder : trees.Pairwise fun first second => first.span.stop ≤ second.span.start

namespace Lined

variable {start stop : Nat} {tree : Expr} {trees : List Expr}

theorem nil : Lined start stop [] :=
  ⟨by simp, .nil⟩

theorem cons {low high next : Nat} (span : tree.span = ⟨low, high⟩) (starts : start ≤ low)
    (wide : low ≤ high) (apart : high ≤ next) (bounded : next ≤ stop)
    (lined : Lined next stop trees) : Lined start stop (tree :: trees) := by
  constructor
  · intro other mem
    rcases List.mem_cons.mp mem with rfl | later
    · rw [span]
      exact ⟨starts, Nat.le_trans apart bounded⟩
    · have inside := lined.inside other later
      omega
  · refine List.Pairwise.cons (fun other later => ?_) lined.inOrder
    rw [span]
    exact Nat.le_trans apart (lined.inside other later).1

theorem singleton {low high : Nat} (span : tree.span = ⟨low, high⟩) (starts : start ≤ low)
    (stops : high ≤ stop) : Lined start stop [tree] := by
  constructor
  · intro other mem
    obtain rfl := List.mem_singleton.mp mem
    rw [span]
    exact ⟨starts, stops⟩
  · exact List.pairwise_singleton _ _

theorem widen {low high : Nat} (lined : Lined start stop trees) (less : low ≤ start)
    (greater : stop ≤ high) : Lined low high trees := by
  refine ⟨fun tree mem => ?_, lined.inOrder⟩
  have inside := lined.inside tree mem
  omega

end Lined

theorem Grammar.Arguments.lined {lexemes : List Lexeme} {arguments : List Expr} {start stop : Nat}
    (derived : Arguments lexemes arguments) (occupies : Occupies start stop lexemes) :
    Lined start stop arguments := by
  induction arguments generalizing lexemes start with
  | nil => exact .nil
  | cons first rest ih =>
      cases derived with
      | last inner =>
          exact .singleton (inner.span_eq occupies) (Nat.le_refl _) (Nat.le_refl _)
      | more inner _ tail =>
          obtain ⟨middle, next, before, apart, after⟩ := occupies.around inner.ne_nil tail.ne_nil
          have wide := before.start_lt_stop
          have wideAfter := after.start_lt_stop
          exact .cons (inner.span_eq before) (by omega) (by omega) (by omega) (by omega)
            (ih tail after)

/-- The children of a tree stand inside the stretch of its lexemes, one after the other. -/
theorem Grammar.Derives.lined_children {layer : Layer} {lexemes : List Lexeme} {whole : Expr}
    {start stop : Nat} (derived : Derives layer lexemes whole)
    (occupies : Occupies start stop lexemes) : Lined start stop whole.children := by
  cases derived.production with
  | leaf bare =>
      rw [bare]
      exact .nil
  | unary inner =>
      obtain ⟨_, visible, next, apart, behind⟩ := occupies.uncons inner.ne_nil
      exact .singleton (inner.span_eq behind) (by omega) (Nat.le_refl _)
  | binary derivedLeft derivedRight =>
      obtain ⟨middle, next, before, apart, after⟩ :=
        occupies.around derivedLeft.ne_nil derivedRight.ne_nil
      have wideLeft := before.start_lt_stop
      have wideRight := after.start_lt_stop
      have right : Lined next stop [_] :=
        .singleton (derivedRight.span_eq after) (Nat.le_refl _) (Nat.le_refl _)
      exact .cons (derivedLeft.span_eq before) (by omega) (by omega) (by omega) (by omega) right
  | callEmpty => exact .nil
  | call inner =>
      obtain ⟨_, visible, next, apart, behind⟩ := occupies.uncons (List.cons_ne_nil _ _)
      obtain ⟨_, visibleOpen, later, between, after⟩ := behind.uncons (by simp)
      obtain ⟨middle, here, inside, gap, wide, _⟩ := after.unsnoc inner.ne_nil
      exact (inner.lined inside).widen (by omega) (by omega)
  | paren inner =>
      obtain ⟨_, visible, next, apart, behind⟩ := occupies.uncons (by simp)
      obtain ⟨middle, here, inside, gap, wide, _⟩ := behind.unsnoc inner.ne_nil
      exact .singleton (inner.span_eq inside) (by omega) (by omega)

/-! ## Lexemes on a walk -/

/-- The lexemes of a walk stand one after the other. Blanks stand before the first of them,
and the last ends where the walk ends. -/
theorem Cursor.Walk.exists_occupies {cursor last : Cursor} {lexemes : List Lexeme}
    (walk : Walk cursor lexemes last) (some : lexemes ≠ []) :
    ∃ gap core, (∀ char ∈ gap, Text.isBlank char = true) ∧
      cursor.rest = gap ++ (core ++ last.rest) ∧
      last.position = cursor.position + gap.length + core.length ∧
      Occupies (cursor.position + gap.length) last.position lexemes ∧
      Walk ⟨cursor.position + gap.length, core ++ last.rest⟩ lexemes last := by
  induction walk with
  | done => exact absurd rfl some
  | @step cursor after last lexeme lexemes found inside walk ih =>
      obtain ⟨gap, taken, rest, blank, scanned, whole, written, rfl⟩ :=
        exists_of_next found inside
      obtain ⟨first, others, shape, _⟩ := scanned.exists_first
      have length : 0 < taken.length := by rw [shape]; exact Nat.zero_lt_succ _
      have span : lexeme.span = ⟨cursor.position + gap.length,
          cursor.position + gap.length + taken.length⟩ := by
        rw [written]
        rfl
      have visible : lexeme.span.start < lexeme.span.stop := by
        rw [span]
        exact Nat.lt_add_of_pos_right length
      have here := next_of_scanned (cursor.position + gap.length) (List.forall_mem_nil _) scanned
      rw [List.nil_append, List.length_nil, Nat.add_zero, ← written] at here
      cases lexemes with
      | nil =>
          cases walk
          refine ⟨gap, taken, blank, whole, rfl, ?_, .step here inside .done⟩
          have occupies := Occupies.last visible
          rwa [span] at occupies
      | cons second more =>
          obtain ⟨between, core, _, behind, position, occupies, _⟩ := ih (List.cons_ne_nil _ _)
          simp only at behind position occupies
          refine ⟨gap, taken ++ (between ++ core), blank, ?_, ?_, ?_, ?_⟩
          · rw [whole, behind]
            simp only [List.append_assoc]
          · rw [position]
            simp only [List.length_append]
            omega
          · have apart : lexeme.span.stop ≤
                cursor.position + gap.length + taken.length + between.length := by
              rw [span]
              exact Nat.le_add_right _ _
            have longer := Occupies.more visible apart occupies
            rwa [span] at longer
          · have same : taken ++ (between ++ core) ++ last.rest = taken ++ rest := by
              rw [behind]
              simp only [List.append_assoc]
            rw [same]
            exact .step here inside walk

end QueryClause
