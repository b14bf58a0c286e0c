/-!
# Spans

A span is a half-open range of character offsets into a source text. Offsets count characters, not
bytes.
-/

namespace RecordQuery

/-- The offsets from `start` on and before `stop`. -/
structure Span where
  start : Nat
  stop : Nat
deriving DecidableEq, Repr, Inhabited

namespace Span

/-- The number of offsets in a span. -/
def length (s : Span) : Nat := s.stop - s.start

/-- Whether a span holds no offset. -/
def isEmpty (s : Span) : Bool := s.start == s.stop

/-- Whether an offset lies in a span. -/
def contains (s : Span) (offset : Nat) : Bool := s.start ≤ offset && offset < s.stop

/-- Whether a span holds all of another. -/
def encloses (s other : Span) : Bool := s.start ≤ other.start && other.stop ≤ s.stop

/-- The smallest span that encloses both. -/
def cover (s other : Span) : Span := ⟨min s.start other.start, max s.stop other.stop⟩

/-- The characters of a source text that lie in a span. -/
def slice (s : Span) (source : List Char) : List Char := (source.drop s.start).take s.length

/-- A text with the characters of a span replaced by others. A span that reaches beyond the text is
cut to it. -/
def splice (s : Span) (source replacement : List Char) : List Char :=
  let start := min s.start source.length
  let stop := min (max s.stop start) source.length
  source.take start ++ replacement ++ source.drop stop

end Span

end RecordQuery
