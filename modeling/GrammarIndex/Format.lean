import GrammarIndex.Text.Blank
import GrammarIndex.Text.Split

/-!
Formatting that touches white space only: tabs become spaces up to the next stop, blanks at line
ends go, and the text ends with a newline.
-/
namespace GrammarIndex

structure FormatOptions where
  tabSize : Nat := 4
  insertFinalNewline : Bool := true
  trimTrailingWhitespace : Bool := true
  deriving DecidableEq, Repr, Inhabited

namespace Format

/-- Replace each tab by spaces up to the next multiple of `size`, counting from `column`. With
`size` zero tabs stay. -/
def expandTabs (size column : Nat) : List Char → List Char
  | [] => []
  | c :: cs =>
    if c = '\t' && 0 < size then
      let width := size - column % size
      List.replicate width ' ' ++ expandTabs size (column + width) cs
    else c :: expandTabs size (column + 1) cs

/-- One line, without its newline. -/
def line (o : FormatOptions) (cs : List Char) : List Char :=
  let expanded := expandTabs o.tabSize 0 cs
  if o.trimTrailingWhitespace then Text.dropTrailing Text.isBlank expanded else expanded

/-- End a text that is not empty with a newline. -/
def endLine (cs : List Char) : List Char :=
  match cs.getLast? with
  | none => []
  | some last => if last = '\n' then cs else cs ++ ['\n']

/-- All lines of a text. -/
def chars (o : FormatOptions) (cs : List Char) : List Char :=
  let lines := Text.join '\n' ((Text.split '\n' cs).map (line o))
  if o.insertFinalNewline then endLine lines else lines

/-- Format a text. -/
def text (o : FormatOptions) (s : String) : String := String.ofList (chars o s.toList)

end Format

end GrammarIndex
