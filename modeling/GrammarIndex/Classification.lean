import GrammarIndex.Error

/-!
What a name or a stretch of text is, for binding and for highlighting.
-/
namespace GrammarIndex

/-- The classes in the order of their indices. -/
inductive Classification where
  | nonterminal
  | terminal
  | comment
  | keyword
  | literal
  | mode
  | channel
  deriving DecidableEq, Repr, Inhabited

namespace Classification

/-- Every class, in the order of their indices, for callers that look one up by its name. -/
def all : List Classification :=
  [nonterminal, terminal, comment, keyword, literal, mode, channel]

/-- The stable number of a class. -/
def index : Classification → Nat
  | nonterminal => 0
  | terminal => 1
  | comment => 2
  | keyword => 3
  | literal => 4
  | mode => 5
  | channel => 6

def name : Classification → String
  | nonterminal => "nonterminal"
  | terminal => "terminal"
  | comment => "comment"
  | keyword => "keyword"
  | literal => "literal"
  | mode => "mode"
  | channel => "channel"

/-- How a class is called in hovers and diagnostics. -/
def label : Classification → String
  | nonterminal => "parser rule"
  | terminal => "lexer rule"
  | comment => "comment"
  | keyword => "keyword"
  | literal => "literal"
  | mode => "mode"
  | channel => "channel"

/-- Whether symbols can have this class, or only highlighted text. -/
def isSymbolic : Classification → Bool
  | nonterminal | terminal | mode | channel => true
  | comment | keyword | literal => false

/-- The lower-case form, as far as it can be an ASCII letter: besides the capitals only the Kelvin
sign has one. Any other character stays outside ASCII when lowered, so it matches no class name. -/
def lower (c : Char) : Char :=
  if c = '\u212a' then 'k' else c.toLower

/-- The class that a name or an alias stands for, in any case. -/
def ofName? (text : String) : Option Classification :=
  match String.ofList (text.toList.map lower) with
  | "nonterminal" | "parser" | "rule" => some nonterminal
  | "terminal" | "lexer" | "token" => some terminal
  | "comment" => some comment
  | "keyword" => some keyword
  | "literal" | "string" => some literal
  | "mode" => some mode
  | "channel" => some channel
  | _ => none

/-- Read a class name, or say that it is none. -/
def parse (text : String) : Except Error Classification :=
  match ofName? text with
  | some c => .ok c
  | none => .error (.invalidName text "unknown classification")

end Classification

end GrammarIndex
