import QueryClause.CompileError
import QueryClause.FieldMap
import QueryClause.Fragment

/-!
# Sort orders

A sort order is a list of clauses divided by commas. Each clause is a field,
which a direction may follow. The SQL puts null before every value in ascending
order, and after every value in descending order.
-/

namespace QueryClause.OrderBy

inductive Direction where
  | ascending
  | descending
  deriving DecidableEq, Repr, Inhabited

namespace Direction

/-- Whether two words are equal without regard to ASCII case. -/
def sameWord (first second : String) : Bool :=
  first.toList.map Char.toLower == second.toList.map Char.toLower

def ofWord? (word : String) : Option Direction :=
  if sameWord word "asc" then some .ascending
  else if sameWord word "desc" then some .descending
  else none

/-- The direction of a clause that names none. -/
def usual : Direction :=
  .ascending

def sql : Direction → String
  | .ascending => " ASC NULLS FIRST"
  | .descending => " DESC NULLS LAST"

end Direction

structure SortKey where
  column : Column
  direction : Direction
  deriving DecidableEq

def SortKey.fragment (key : SortKey) : Fragment :=
  .identifier key.column ++ .keyword key.direction.sql

inductive Fault where
  | unknownField (field : String)
  | badDirection (word : String)
  | trailingText (word : String)
  deriving DecidableEq

def Fault.word : Fault → String
  | .unknownField field => field
  | .badDirection word => word
  | .trailingText word => word

/-- The fault as an error of compilation; every fault is reported like a field. -/
def Fault.error (fault : Fault) : CompileError :=
  .unsupportedField fault.word none

def directionOf : List String → Except Fault Direction
  | [] => .ok .usual
  | word :: rest =>
      match Direction.ofWord? word with
      | none => .error (.badDirection word)
      | some direction =>
          match rest with
          | [] => .ok direction
          | extra :: _ => .error (.trailingText extra)

/-- The sort key of the words of a clause. A clause without words names the empty
field. -/
def keyOfWords (fields : FieldMap) (field : String) (rest : List String) :
    Except Fault SortKey :=
  match fields.get? field with
  | none => .error (.unknownField field)
  | some column => (directionOf rest).map fun direction => ⟨column, direction⟩

def wordsOf (clause : List Char) : List String :=
  (Text.words clause).map String.ofList

def sortKey (fields : FieldMap) (clause : List Char) : Except Fault SortKey :=
  match wordsOf clause with
  | [] => keyOfWords fields "" []
  | field :: rest => keyOfWords fields field rest

def clauses (text : String) : List (List Char) :=
  Text.pieces (fun char => char == ',') text.toList

def sortKeys (fields : FieldMap) (text : String) : Except Fault (List SortKey) :=
  (clauses text).mapM (sortKey fields)

/-- Sort keys with a last key that makes the order definite, in the direction of
the first. -/
def withStable (keys : List SortKey) : Option Column → List SortKey
  | none => keys
  | some column => keys ++ [⟨column, (keys.head?.map SortKey.direction).getD .usual⟩]

def orderFragment (keys : List SortKey) : Fragment :=
  .keyword "ORDER BY " ++ Fragment.join ", " (keys.map SortKey.fragment)

/-- Compiles the text of a sort order. The stable column, if given, comes last. -/
def compile (text : String) (fields : FieldMap) (stable : Option Column) :
    Except CompileError Fragment :=
  match sortKeys fields text with
  | .ok keys => .ok (orderFragment (withStable keys stable))
  | .error fault => .error fault.error

end QueryClause.OrderBy
