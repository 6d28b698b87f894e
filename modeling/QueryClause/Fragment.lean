import QueryClause.Column
import QueryClause.Value

/-!
# SQL fragments

A fragment is a list of segments and not a text. Keywords are written as they
are, identifiers are quoted columns, and a value is written as a numbered
placeholder and travels beside the text. Values have no other way into the text.
-/

namespace QueryClause

inductive Segment where
  | keyword (text : String)
  | identifier (column : Column)
  | value (bound : Value)
  deriving DecidableEq

namespace Segment

/-- Equality of segments, where numbers are equal if they have the same value. -/
def same : Segment → Segment → Bool
  | .value first, .value second => first.same second
  | first, second => first == second

def value? : Segment → Option Value
  | .value bound => some bound
  | _ => none

end Segment

structure Rendered where
  sql : String
  params : List Value
  deriving DecidableEq

structure Fragment where
  segments : List Segment
  deriving DecidableEq

namespace Fragment

def empty : Fragment :=
  ⟨[]⟩

def keyword (text : String) : Fragment :=
  ⟨[.keyword text]⟩

def identifier (column : Column) : Fragment :=
  ⟨[.identifier column]⟩

def value (bound : Value) : Fragment :=
  ⟨[.value bound]⟩

def append (first second : Fragment) : Fragment :=
  ⟨first.segments ++ second.segments⟩

instance : Append Fragment :=
  ⟨append⟩

def parenthesized (fragment : Fragment) : Fragment :=
  keyword "(" ++ fragment ++ keyword ")"

/-- Fragments one after the other, with a keyword between any two. -/
def join (separator : String) : List Fragment → Fragment
  | [] => empty
  | [last] => last
  | first :: second :: rest => first ++ keyword separator ++ join separator (second :: rest)

def isEmpty (fragment : Fragment) : Bool :=
  fragment.segments.isEmpty

def same (first second : Fragment) : Bool :=
  first.segments.length == second.segments.length &&
    (first.segments.zip second.segments).all fun (left, right) => left.same right

def params (fragment : Fragment) : List Value :=
  fragment.segments.filterMap Segment.value?

/-- The text of segments whose first placeholder has the number `next`. -/
def sqlFrom (next : Nat) : List Segment → String
  | [] => ""
  | .keyword text :: rest => text ++ sqlFrom next rest
  | .identifier column :: rest => column.sql ++ sqlFrom next rest
  | .value _ :: rest => "$" ++ next.repr ++ sqlFrom (next + 1) rest

/-- Renders the fragment with placeholders numbered from `first`, for use inside
a statement that has placeholders before it. -/
def renderFrom (first : Nat) (fragment : Fragment) : Rendered :=
  ⟨sqlFrom first fragment.segments, fragment.params⟩

def render (fragment : Fragment) : Rendered :=
  fragment.renderFrom 1

@[simp]
theorem segments_append (first second : Fragment) :
    (first ++ second).segments = first.segments ++ second.segments :=
  rfl

@[simp]
theorem params_keyword (text : String) : (keyword text).params = [] :=
  rfl

@[simp]
theorem params_identifier (column : Column) : (identifier column).params = [] :=
  rfl

@[simp]
theorem params_value (bound : Value) : (value bound).params = [bound] :=
  rfl

@[simp]
theorem params_append (first second : Fragment) :
    (first ++ second).params = first.params ++ second.params :=
  List.filterMap_append

theorem append_assoc (first second third : Fragment) :
    first ++ second ++ third = first ++ (second ++ third) :=
  congrArg Fragment.mk (List.append_assoc ..)

@[simp]
theorem empty_append (fragment : Fragment) : empty ++ fragment = fragment :=
  rfl

@[simp]
theorem append_empty (fragment : Fragment) : fragment ++ empty = fragment :=
  congrArg Fragment.mk (List.append_nil _)

/-- The placeholders of later segments are numbered on from those before them. -/
theorem sqlFrom_append (next : Nat) (first second : List Segment) :
    sqlFrom next (first ++ second) =
      sqlFrom next first ++ sqlFrom (next + (first.filterMap Segment.value?).length) second := by
  induction first generalizing next with
  | nil => simp [sqlFrom]
  | cons segment rest ih =>
      cases segment with
      | keyword text =>
          simp [sqlFrom, List.filterMap_cons, Segment.value?, ih, String.append_assoc]
      | identifier column =>
          simp [sqlFrom, List.filterMap_cons, Segment.value?, ih, String.append_assoc]
      | value bound =>
          simp [sqlFrom, Segment.value?, ih, String.append_assoc, Nat.add_assoc, Nat.add_comm 1]

end Fragment

end QueryClause
