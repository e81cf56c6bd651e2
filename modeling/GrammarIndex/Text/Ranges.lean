/-!
Classes of characters given by ranges of code points.
-/
namespace GrammarIndex.Text

/-- Ranges of code points, ascending, ends included. -/
abbrev Ranges := List (Nat × Nat)

/-- Whether a character lies in one of the ranges. -/
def Ranges.covers (ranges : Ranges) (c : Char) : Bool :=
  ranges.any fun r => r.1 ≤ c.toNat && c.toNat ≤ r.2

end GrammarIndex.Text
