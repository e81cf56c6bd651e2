import GrammarIndex.Text.Blank
import GrammarIndex.Token

/-!
Cutting grammar text into pieces.

`pieces` cuts a text into tokens, comments and single blanks, left to right and without a gap;
`tokenize` keeps the tokens and the comments. A literal that its line does not close becomes an
`error` token, as does every character that starts nothing else, so no text is ever refused.
-/
namespace GrammarIndex.Grammar

/-- The reserved words. -/
def keywords : List String :=
  ["catch", "channels", "finally", "fragment", "grammar", "import", "lexer", "locals", "mode",
    "options", "parser", "returns", "throws", "tokens"]

/-- The reserved words after which a brace opens a list of names instead of an action. -/
def blockWords : List String := ["options", "tokens", "channels"]

/-- The characters that may follow the first letter of a name. -/
def isNameChar (c : Char) : Bool := c.isAlphanum || c == '_'

/-- What a piece of text is. -/
inductive Lexeme where
  | blank
  | comment
  | token (kind : TokenKind)
  deriving DecidableEq, Repr

/-- How far a quoted literal reaches behind its opening character, and whether it is closed.
A backslash takes the next character with it; the end of the line stops an open literal. -/
def quotedLength (close : Char) : List Char → Nat × Bool
  | [] => (0, false)
  | ['\\'] => (1, false)
  | '\\' :: _ :: cs => let (n, closed) := quotedLength close cs; (n + 2, closed)
  | c :: cs =>
    if c = close then (1, true)
    else if c = '\n' then (0, false)
    else let (n, closed) := quotedLength close cs; (n + 1, closed)

/-- How far a block comment reaches behind its opening; an open one takes all the rest. -/
def blockCommentLength : List Char → Nat
  | [] => 0
  | '*' :: '/' :: _ => 2
  | _ :: cs => blockCommentLength cs + 1

/-- How far an action reaches behind its opening brace, inside `depth` further braces. A backslash
takes the next character with it; an open action takes all the rest. -/
def actionLength : (depth : Nat) → List Char → Nat
  | _, [] => 0
  | _, ['\\'] => 1
  | depth, '\\' :: _ :: cs => actionLength depth cs + 2
  | depth, c :: cs =>
    if c = '{' then actionLength (depth + 1) cs + 1
    else if c = '}' then
      match depth with
      | 0 => 1
      | depth + 1 => actionLength depth cs + 1
    else actionLength depth cs + 1

/-- The kind of a name: reserved word, capitalised or not. -/
def nameKind (name : List Char) : TokenKind :=
  if keywords.contains (String.ofList name) then .keyword
  else if (name.head?.map Char.isUpper).getD false then .tokenRef
  else .ruleRef

/-- A token that is one character long. -/
def singleKind (c : Char) : TokenKind :=
  match c with
  | ':' => .colon
  | ';' => .semi
  | '|' => .bar
  | '(' => .lparen
  | ')' => .rparen
  | '}' => .rbrace
  | ',' => .comma
  | '@' => .atSign
  | '=' => .assign
  | '?' | '*' | '+' | '~' | '.' | '#' | '<' | '>' => .punct
  | _ => .error

/-- A token that is two characters long, told from both. -/
def pairKind? (c next : Char) : Option TokenKind :=
  if c = '+' && next = '=' then some .plusAssign
  else if c = '-' && next = '>' then some .rarrow
  else if c = '.' && next = '.' then some .punct
  else none

def quoted (kind : TokenKind) (close : Char) (cs : List Char) : Lexeme × Nat :=
  let (n, closed) := quotedLength close cs
  (.token (if closed then kind else .error), n)

/-- The piece that starts with `c`, and how many characters of the rest `cs` belong to it.
`opensBlock` says that the last token asks for a list of names in braces. -/
def munch (opensBlock : Bool) (c : Char) (cs : List Char) : Lexeme × Nat :=
  if Text.isBlank c then (.blank, 0)
  else if c = '/' && cs.head? = some '/' then
    (.comment, (cs.takeWhile (· != '\n')).length)
  else if c = '/' && cs.head? = some '*' then
    (.comment, blockCommentLength (cs.drop 1) + 1)
  else if c = '\x27' then quoted .stringLiteral '\x27' cs
  else if c = '[' then quoted .charSet ']' cs
  else if c = '{' then
    if opensBlock then (.token .lbrace, 0) else (.token .action, actionLength 0 cs)
  else if c.isAlpha then
    let tail := cs.takeWhile isNameChar
    (.token (nameKind (c :: tail)), tail.length)
  else if c.isDigit then (.token .int, (cs.takeWhile Char.isDigit).length)
  else
    match cs.head?.bind (pairKind? c) with
    | some kind => (.token kind, 1)
    | none => (.token (singleKind c), 0)

/-- A stretch of the text with what it is. -/
structure Piece where
  lexeme : Lexeme
  text : String
  span : Span
  deriving DecidableEq, Repr

namespace Piece

def token? (p : Piece) : Option Token :=
  match p.lexeme with
  | .token kind => some ⟨kind, p.text, p.span⟩
  | _ => none

def comment? (p : Piece) : Option Comment :=
  match p.lexeme with
  | .comment => some ⟨p.text, p.span⟩
  | _ => none

/-- Whether a brace behind this piece opens a list of names, given whether one before it would. -/
def opensBlock (p : Piece) (before : Bool) : Bool :=
  match p.lexeme with
  | .token kind => kind == .keyword && blockWords.contains p.text
  | _ => before

end Piece

/-- The pieces of a text that starts at `offset`, in order. -/
def piecesFrom (offset : Nat) (opensBlock : Bool) : List Char → List Piece
  | [] => []
  | c :: cs =>
    let (lexeme, n) := munch opensBlock c cs
    let chars := c :: cs.take n
    let piece : Piece := ⟨lexeme, String.ofList chars, ⟨offset, offset + chars.length⟩⟩
    piece :: piecesFrom (offset + chars.length) (piece.opensBlock opensBlock) (cs.drop n)
termination_by cs => cs.length
decreasing_by simp only [List.length_drop, List.length_cons]; omega

/-- The pieces of a text. -/
def pieces (text : String) : List Piece := piecesFrom 0 false text.toList

/-- The tokens and the comments of a text, each in order. -/
def tokenize (text : String) : List Token × List Comment :=
  let all := pieces text
  (all.filterMap Piece.token?, all.filterMap Piece.comment?)

end GrammarIndex.Grammar
