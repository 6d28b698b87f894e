import QueryClause.Fragment

/-!
# Placeholders in sequence

Rendering takes fragments one after the other to their texts one after the other, where the
placeholders of each are numbered on from those before it. So a fragment can be put into any
statement, and however fragments are put together, the values keep to their placeholders.
-/

namespace QueryClause

/-- Writes one segment behind what is rendered so far. The number of a placeholder follows
from how many values there are already. -/
def Rendered.push (first : Nat) (rendered : Rendered) : Segment → Rendered
  | .keyword text => ⟨rendered.sql ++ text, rendered.params⟩
  | .identifier column => ⟨rendered.sql ++ column.sql, rendered.params⟩
  | .value bound =>
      ⟨rendered.sql ++ ("$" ++ (first + rendered.params.length).repr), rendered.params ++ [bound]⟩

namespace Fragment

theorem renderFrom_keyword (text : String) (first : Nat) :
    (keyword text).renderFrom first = ⟨text, []⟩ := by
  simp [renderFrom, keyword, sqlFrom, params, Segment.value?]

theorem renderFrom_identifier (column : Column) (first : Nat) :
    (identifier column).renderFrom first = ⟨column.sql, []⟩ := by
  simp [renderFrom, identifier, sqlFrom, params, Segment.value?]

theorem renderFrom_value (bound : Value) (first : Nat) :
    (value bound).renderFrom first = ⟨"$" ++ first.repr, [bound]⟩ := by
  simp [renderFrom, value, sqlFrom, params, Segment.value?]

/-- The second of two fragments is numbered on from the first. -/
theorem renderFrom_append (left right : Fragment) (first : Nat) :
    (left ++ right).renderFrom first =
      ⟨(left.renderFrom first).sql ++ (right.renderFrom (first + left.params.length)).sql,
        left.params ++ right.params⟩ := by
  rw [renderFrom, segments_append, sqlFrom_append, params_append]
  rfl

/-- A value is written as its placeholder, whose number counts the values before it. -/
theorem renderFrom_around_value (before after : Fragment) (bound : Value) (first : Nat) :
    (before ++ value bound ++ after).renderFrom first =
      ⟨(before.renderFrom first).sql ++ ("$" ++ (first + before.params.length).repr) ++
          (after.renderFrom (first + before.params.length + 1)).sql,
        before.params ++ bound :: after.params⟩ := by
  simp [renderFrom_append, renderFrom_value, Nat.add_assoc]

theorem renderFrom_parenthesized (fragment : Fragment) (first : Nat) :
    fragment.parenthesized.renderFrom first =
      ⟨"(" ++ (fragment.renderFrom first).sql ++ ")", fragment.params⟩ := by
  simp [parenthesized, renderFrom_append, renderFrom_keyword]

/-! ## Fragments with a separator between them -/

/-- The texts of fragments, each numbered on from those before it. -/
def sqlEach (first : Nat) (fragments : List Fragment) : List String :=
  fragments.mapIdx fun index fragment =>
    (fragment.renderFrom (first + ((fragments.take index).flatMap params).length)).sql

theorem sqlEach_cons (first : Nat) (fragment : Fragment) (others : List Fragment) :
    sqlEach first (fragment :: others) =
      (fragment.renderFrom first).sql :: sqlEach (first + fragment.params.length) others := by
  simp [sqlEach, List.mapIdx_cons, Nat.add_assoc]

/-- Joined fragments are rendered in order, with the separator between their texts. -/
theorem renderFrom_join (separator : String) : (fragments : List Fragment) → (first : Nat) →
    (join separator fragments).renderFrom first =
      ⟨separator.intercalate (sqlEach first fragments), fragments.flatMap params⟩
  | [], _ => rfl
  | [last], first => by
      rw [join, sqlEach_cons, sqlEach, List.mapIdx_nil, String.intercalate_singleton]
      simp [renderFrom]
  | left :: right :: others, first => by
      have behind := renderFrom_join separator (right :: others) (first + left.params.length)
      have values : (join separator (right :: others)).params = (right :: others).flatMap params :=
        congrArg Rendered.params behind
      rw [sqlEach_cons] at behind
      rw [join, renderFrom_append, renderFrom_append, renderFrom_keyword, params_append,
        params_keyword, List.append_nil, behind, values, sqlEach_cons, sqlEach_cons,
        String.intercalate_cons_cons, ← List.flatMap_cons]

/-! ## One pass over the segments -/

theorem foldl_push (first : Nat) (segments : List Segment) (rendered : Rendered) :
    segments.foldl (Rendered.push first) rendered =
      ⟨rendered.sql ++ sqlFrom (first + rendered.params.length) segments,
        rendered.params ++ segments.filterMap Segment.value?⟩ := by
  induction segments generalizing rendered with
  | nil => simp [sqlFrom]
  | cons segment rest ih =>
      rw [List.foldl_cons, ih]
      cases segment with
      | keyword text =>
          simp [Rendered.push, sqlFrom, List.filterMap_cons, Segment.value?, String.append_assoc]
      | identifier column =>
          simp [Rendered.push, sqlFrom, List.filterMap_cons, Segment.value?, String.append_assoc]
      | value bound =>
          simp [Rendered.push, sqlFrom, Segment.value?, String.append_assoc, Nat.add_assoc]

/-- Rendering is one pass over the segments that collects the values on its way. -/
theorem renderFrom_eq_foldl (fragment : Fragment) (first : Nat) :
    fragment.renderFrom first = fragment.segments.foldl (Rendered.push first) ⟨"", []⟩ := by
  rw [foldl_push, String.empty_append]
  rfl

end Fragment

/-- Two fragments one after the other are rendered to the text of the first and the text of the
second numbered on from it, with the values of both in order. So are fragments joined by a
separator, and a fragment in parentheses. However they are numbered, the values are those of the
segments, each of which has the number that counts the values before it. Appending is associative,
with the empty fragment on either side of it. -/
theorem rendering_numbers_on :
    (∀ (left right : Fragment) (first : Nat),
      (left ++ right).renderFrom first =
        ⟨(left.renderFrom first).sql ++ (right.renderFrom (first + left.params.length)).sql,
          (left.renderFrom first).params ++
            (right.renderFrom (first + left.params.length)).params⟩) ∧
    (∀ (separator : String) (fragments : List Fragment) (first : Nat),
      (Fragment.join separator fragments).renderFrom first =
        ⟨separator.intercalate (fragments.mapIdx fun index fragment =>
            (fragment.renderFrom
              (first + ((fragments.take index).flatMap Fragment.params).length)).sql),
          fragments.flatMap Fragment.params⟩) ∧
    (∀ (fragment : Fragment) (first : Nat),
      fragment.parenthesized.renderFrom first =
        ⟨"(" ++ (fragment.renderFrom first).sql ++ ")", (fragment.renderFrom first).params⟩) ∧
    (∀ (fragment : Fragment) (first : Nat),
      (fragment.renderFrom first).params = fragment.params ∧
        fragment.renderFrom first = fragment.segments.foldl (Rendered.push first) ⟨"", []⟩) ∧
    (∀ (before after : Fragment) (bound : Value) (first : Nat),
      let rendered := (before ++ .value bound ++ after).renderFrom first
      rendered.sql = (before.renderFrom first).sql ++
        ("$" ++ (first + before.params.length).repr) ++
        (after.renderFrom (first + before.params.length + 1)).sql ∧
      rendered.params[before.params.length]? = some bound) ∧
    (∀ left middle right : Fragment, left ++ middle ++ right = left ++ (middle ++ right)) ∧
    ∀ fragment : Fragment, .empty ++ fragment = fragment ∧ fragment ++ .empty = fragment := by
  refine ⟨Fragment.renderFrom_append, Fragment.renderFrom_join, Fragment.renderFrom_parenthesized,
    fun fragment first => ⟨rfl, fragment.renderFrom_eq_foldl first⟩, ?_, Fragment.append_assoc,
    fun fragment => ⟨fragment.empty_append, fragment.append_empty⟩⟩
  intro before after bound first rendered
  have shape : rendered = _ := before.renderFrom_around_value after bound first
  rw [shape]
  exact ⟨rfl, by simp⟩

end QueryClause
