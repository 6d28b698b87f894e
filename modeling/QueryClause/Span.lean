/-!
# Spans

A span is a half-open range of character positions in a text. Positions count
characters from zero.
-/

namespace QueryClause

/-- The positions from `start` up to, and not including, `stop`. -/
structure Span where
  start : Nat := 0
  stop : Nat := 0
  deriving DecidableEq, Repr, Inhabited

namespace Span

def cover (first second : Span) : Span :=
  ⟨min first.start second.start, max first.stop second.stop⟩

def display (span : Span) : String :=
  span.start.repr ++ ".." ++ span.stop.repr

/-- The characters of a text at the positions of a span; positions past the end
of the text hold none. -/
def slice (span : Span) (text : String) : String :=
  String.ofList ((text.toList.take span.stop).drop span.start)

end Span

end QueryClause
