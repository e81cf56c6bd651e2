import GrammarIndex.Grammar.Classify

/-!
The dialect of grammar files: reserved and built-in names, rules on names, and the registry that
knows only this dialect.
-/
namespace GrammarIndex.Grammar

/-- Names that are bound everywhere. -/
def builtins : List (String × Classification) :=
  [("EOF", .terminal), ("HIDDEN", .channel), ("DEFAULT_TOKEN_CHANNEL", .channel),
    ("DEFAULT_MODE", .mode)]

/-- A name: a first letter that satisfies `first`, then letters, digits and underscores. -/
def isNameWith (first : Char → Bool) : List Char → Bool
  | [] => false
  | c :: cs => first c && cs.all isNameChar

/-- The first letters that a class allows. -/
def firstLetter : Classification → Char → Bool
  | .nonterminal => Char.isLower
  | .terminal => Char.isUpper
  | _ => Char.isAlpha

/-- Why a text is no name of its class. -/
def nameRule : Classification → String
  | .nonterminal => "parser rule names must start with a lower-case letter"
  | .terminal => "lexer rule names must start with an upper-case letter"
  | _ => "not a valid identifier"

/-- Refuse reserved words and what is no name of the class. -/
def validateName (c : Classification) (name : String) : Except Error Unit :=
  if keywords.contains name then .error (.invalidName name "reserved word")
  else if isNameWith (firstLetter c) name.toList then .ok ()
  else .error (.invalidName name (nameRule c))

/-- The dialect of `.g4` files. -/
def dialect : Dialect where
  name := "antlr4"
  extensions := ["g4"]
  parse text := .ok (parse text)
  definitions := definitionRules
  references := referenceRules
  tag := tagOf
  isForward := isForward
  builtins := builtins
  keywords := keywords
  validateName := validateName
  isNameChar := isNameChar

/-- Grammar files only. -/
def registry : Registry := [dialect]

end GrammarIndex.Grammar
