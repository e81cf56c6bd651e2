import GrammarIndex.Format

/-!
Settings.
-/
namespace GrammarIndex

/-- What a user can set: how much is logged, how texts are formatted, which further files a
directory load leaves out, and how long changes are collected before they are applied. -/
structure Config where
  logLevel : Option String := none
  format : FormatOptions := {}
  exclude : List String := []
  debounceMs : Nat := 50
  deriving DecidableEq, Repr, Inhabited

end GrammarIndex
