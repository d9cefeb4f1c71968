/-!
# Spans

A span is a stretch of a text, given by two byte offsets into its UTF-8 form: where it starts, and
where the text after it starts.
-/

namespace SqlTyping

structure Span where
  start : Nat
  stop : Nat
deriving DecidableEq, Inhabited

namespace Span

/-- The smallest span that holds both. -/
def cover (a b : Span) : Span := ⟨min a.start b.start, max a.stop b.stop⟩

/-- The number of bytes in the span; a span that stops before it starts has none. -/
def length (s : Span) : Nat := s.stop - s.start

def isEmpty (s : Span) : Bool := s.length == 0

end Span

end SqlTyping
