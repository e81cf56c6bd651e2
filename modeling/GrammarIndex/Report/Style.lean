import GrammarIndex.Classification

/-!
Colours of the terminal output.
-/
namespace GrammarIndex.Report

/-- What a piece of output is, which decides how it is painted. -/
inductive Role where
  | header
  | success
  | error
  | warning
  | info
  | dim
  | muted
  | symbol (classification : Classification)
  deriving DecidableEq, Repr

/-- The display attributes of a role, in the order they are switched on. -/
def Role.attributes : Role → List Nat
  | header => [36, 1]
  | success => [32, 1]
  | error => [31, 1]
  | warning => [33, 1]
  | info => [35]
  | dim => [37, 2]
  | muted => [90]
  | symbol .nonterminal => [34, 1]
  | symbol .terminal => [32]
  | symbol .mode | symbol .channel => [35]
  | symbol .comment | symbol .keyword | symbol .literal => [90]

inductive Theme where
  | colored
  | plain
  deriving DecidableEq, Repr

/-- A text as a theme paints it. -/
def Theme.paint (theme : Theme) (role : Role) (text : String) : String :=
  match theme with
  | .plain => text
  | .colored =>
    "\x1b[" ++ String.intercalate ";" (role.attributes.map Nat.repr) ++ "m" ++ text ++ "\x1b[0m"

end GrammarIndex.Report
