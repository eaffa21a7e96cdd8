/-!
# Spans

A span is a stretch of a source text, given by the byte offsets of its ends.
-/

namespace CornerPoint.Source

/-- The bytes from `start` up to, and without, `stop`. -/
structure Span where
  start : Nat
  stop : Nat
deriving DecidableEq

namespace Span

/-- The least span around two. -/
def merge (a b : Span) : Span := ⟨min a.start b.start, max a.stop b.stop⟩

/-- How an error message writes a span. -/
def text (s : Span) : String :=
  "Span \x7b start: " ++ toString s.start ++ ", end: " ++ toString s.stop ++ " \x7d"

end Span

end CornerPoint.Source
