import GrammarIndex.Classification
import GrammarIndex.Format
import GrammarIndex.SyntaxTree
import GrammarIndex.Text.Alphanumeric

/-!
Dialects: what the index has to know about one kind of grammar file.

A dialect reads a text, says which terminals define a name, refer to one or are only highlighted,
and rules on names. A registry picks the first dialect that takes a file's extension.
-/
namespace GrammarIndex

/-- A test on a terminal, given the definitions of the file that are bound so far. -/
abbrev NodeTest := SyntaxTree → Table Nat Classification → Nat → Bool

/-- Tests in order; the first that holds decides. -/
abbrev Classifier := List (Classification × NodeTest)

def Classifier.classify (rules : Classifier) (tree : SyntaxTree) (defs : Table Nat Classification)
    (node : Nat) : Option Classification :=
  (rules.find? fun r => r.2 tree defs node).map (·.1)

/-- The letters, digits and underscores of all scripts. -/
def isWordChar (c : Char) : Bool := Text.isAlphanumeric c || c == '_'

/-- One kind of grammar file. The defaults describe a dialect without highlighting, forward
declarations, built-in names, reserved words and restrictions on names. Reading may break down,
with a message. -/
structure Dialect where
  name : String
  extensions : List String
  parse : String → Except String Parsed
  definitions : Classifier
  references : Classifier
  tag : SyntaxTree → Nat → Option Classification := fun _ _ => none
  isForward : SyntaxTree → Nat → Bool := fun _ _ => false
  builtins : List (String × Classification) := []
  keywords : List String := []
  validateName : Classification → String → Except Error Unit := fun _ _ => .ok ()
  isNameChar : Char → Bool := isWordChar
  format : FormatOptions → String → String := Format.text

namespace Dialect

def handles (d : Dialect) (p : Path) : Bool :=
  match p.extension? with
  | some ext => d.extensions.contains ext
  | none => false

/-- The class a terminal defines a name of, if it defines one. -/
def definition? (d : Dialect) (tree : SyntaxTree) (defs : Table Nat Classification) (node : Nat) :
    Option Classification :=
  d.definitions.classify tree defs node

/-- The class a terminal refers to a name of, if it refers to one. -/
def reference? (d : Dialect) (tree : SyntaxTree) (defs : Table Nat Classification) (node : Nat) :
    Option Classification :=
  d.references.classify tree defs node

/-- Comments with the class they are highlighted as. -/
def commentSpans (parsed : Parsed) : List (Span × Classification) :=
  parsed.comments.map fun c => (c.span, .comment)

end Dialect

/-- Dialects in order of preference. -/
abbrev Registry := List Dialect

/-- The dialect of a file. -/
def Registry.find? (r : Registry) (p : Path) : Option Dialect := List.find? (·.handles p) r

end GrammarIndex
