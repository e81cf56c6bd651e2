import GrammarIndex.Classification
import GrammarIndex.Span

/-!
Symbols: names with a class, bound in one scope.
-/
namespace GrammarIndex

/-- Where a symbol is defined. -/
structure Site where
  file : Path
  node : Nat
  span : Span
  deriving DecidableEq, Repr, Inhabited

/-- A name bound in a scope. Without a site it is built in; with a target it stands for that other
symbol; a forward declaration announces a definition that may come later. -/
structure Symbol where
  name : String
  classification : Classification
  scope : Nat
  site : Option Site := none
  target : Option Nat := none
  forward : Bool := false
  deriving DecidableEq, Repr, Inhabited

namespace Symbol

def file? (s : Symbol) : Option Path := s.site.map (·.file)

def isBuiltin (s : Symbol) : Bool := s.site.isNone

/-- Two lines for display: what the symbol is, and where it comes from. -/
def describe (s : Symbol) : String :=
  let origin := match s.file?.bind Path.fileName? with
    | some name => "defined in " ++ String.ofList name
    | none => "built-in"
  s.classification.label ++ " " ++ s.name ++ "\n" ++ origin

end Symbol

end GrammarIndex
