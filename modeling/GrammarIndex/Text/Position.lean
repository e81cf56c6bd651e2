/-!
Lines and columns of a text.
-/
namespace GrammarIndex.Text

/-- A line and a column, both counted from one. -/
structure Position where
  line : Nat := 1
  column : Nat := 1
  deriving DecidableEq, Repr

/-- The position behind a character: a newline starts the next line. -/
def Position.next (p : Position) (c : Char) : Position :=
  if c = '\n' then ⟨p.line + 1, 1⟩ else ⟨p.line, p.column + 1⟩

/-- The position `offset` characters behind another; beyond the end of the text it is the position
of the end. -/
def Position.advance (p : Position) : (offset : Nat) → List Char → Position
  | offset + 1, c :: cs => (p.next c).advance offset cs
  | _, _ => p

/-- The position of an offset. -/
def positionOf (text : List Char) (offset : Nat) : Position := Position.advance {} offset text

end GrammarIndex.Text
