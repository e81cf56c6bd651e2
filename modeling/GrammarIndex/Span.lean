/-!
Half-open ranges of character offsets.
-/
namespace GrammarIndex

/-- The characters from `start` up to, but not including, `stop`. -/
structure Span where
  start : Nat
  stop : Nat
  deriving DecidableEq, Repr, Inhabited

namespace Span

/-- The empty range at an offset. -/
def point (offset : Nat) : Span := ⟨offset, offset⟩

def length (s : Span) : Nat := s.stop - s.start

def isEmpty (s : Span) : Bool := s.start == s.stop

/-- The offset lies inside the range or right behind it. -/
def touches (s : Span) (offset : Nat) : Bool := s.start ≤ offset && offset ≤ s.stop

/-- The offset lies inside the range. -/
def covers (s : Span) (offset : Nat) : Bool := s.start ≤ offset && offset < s.stop

/-- The range has a part strictly between `start` and `stop`. -/
def overlaps (s : Span) (start stop : Nat) : Bool := s.start < stop && start < s.stop

end Span

end GrammarIndex
