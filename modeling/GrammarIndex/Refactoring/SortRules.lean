import GrammarIndex.Engine.Refactor

/-!
Sorting the parser rules of a grammar by name.

The rules trade places among themselves; whatever stands between them stays where it is.
-/
namespace GrammarIndex

/-- A refactoring: the new texts it proposes for the document at a path and an offset. -/
structure Refactoring where
  name : String
  propose : Engine → Path → Nat → Except Halt Engine.Proposal

namespace SortRules

def name : String := "sort-parser-rules"

/-- The place of a rule and its name. -/
structure Slot where
  span : Span
  name : String
  deriving DecidableEq, Repr

/-- The first name directly below a rule. -/
def ruleName (tree : SyntaxTree) (rule : Nat) : String :=
  (((tree.childrenOf rule).find? fun c => tree.token? c == some .ruleRef).bind tree.text?).getD ""

/-- The parser rules of a file in order. -/
def slots (tree : SyntaxTree) : List Slot :=
  ((tree.childrenOf 0).filter fun c => tree.rule? c == some .parserRuleSpec).map fun c =>
    ⟨tree.spanOf c, ruleName tree c⟩

/-- The characters of a range, as far as the text goes. -/
def slice (text : List Char) (span : Span) : List Char :=
  (text.take span.stop).drop span.start

def isSorted : List String → Bool
  | a :: b :: rest => compare a b != .gt && isSorted (b :: rest)
  | _ => true

/-- Fill the slots with the given bodies, one after the other; `rest` is the text from offset
`cursor` on. -/
def fill (cursor : Nat) (rest : List Char) : List (Slot × List Char) → List Char
  | [] => rest
  | (slot, body) :: others =>
    let skip := min (slot.span.start - cursor) rest.length
    let width := min (slot.span.stop - (cursor + skip)) (rest.length - skip)
    rest.take skip ++ body ++ fill (cursor + skip + width) (rest.drop (skip + width)) others

/-- The text with its rules in order of their names, rules of one name in their old order. There is
none if they are in order already. -/
def sorted? (tree : SyntaxTree) (text : List Char) : Option (List Char) :=
  let places := slots tree
  if isSorted (places.map (·.name)) then none
  else
    let ordered := places.mergeSort fun a b => compare a.name b.name != .gt
    some (fill 0 text (places.zip (ordered.map fun s => slice text s.span)))

/-- Propose the sorted text of a grammar file. -/
def propose (e : Engine) (p : Path) : Except Error Engine.Proposal :=
  match e.index.file? p with
  | none => .error (.documentNotFound p)
  | some state =>
    if state.dialect.name != "antlr4" then
      .error (.refactoring (name ++ " only applies to ANTLR4 grammars, not " ++ state.dialect.name))
    else
      match e.document? p with
      | none => .error (.documentNotFound p)
      | some d =>
        match sorted? state.parsed.tree d.text.toList with
        | none => .ok ∅
        | some text => .ok (Table.insert ∅ p (String.ofList text))

end SortRules

/-- Sort the parser rules. -/
def sortRules : Refactoring where
  name := SortRules.name
  propose e p _ := (SortRules.propose e p).mapError .error

end GrammarIndex
