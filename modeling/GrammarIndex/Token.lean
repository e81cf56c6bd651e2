import GrammarIndex.Span

/-!
Tokens and comments, the leaves from which syntax trees are built.
-/
namespace GrammarIndex

/-- What a token is. Grammar files use the fixed kinds; `named` is for other vocabularies. -/
inductive TokenKind where
  | tokenRef
  | ruleRef
  | keyword
  | stringLiteral
  | charSet
  | action
  | int
  | colon
  | semi
  | bar
  | lparen
  | rparen
  | lbrace
  | rbrace
  | comma
  | assign
  | plusAssign
  | rarrow
  | atSign
  | punct
  | error
  | named (label : String)
  deriving DecidableEq, Repr, Inhabited

/-- The name under which a kind is shown. -/
def TokenKind.label : TokenKind → String
  | tokenRef => "TOKEN_REF"
  | ruleRef => "RULE_REF"
  | keyword => "KEYWORD"
  | stringLiteral => "STRING_LITERAL"
  | charSet => "LEXER_CHAR_SET"
  | action => "ACTION"
  | int => "INT"
  | colon => "COLON"
  | semi => "SEMI"
  | bar => "OR"
  | lparen => "LPAREN"
  | rparen => "RPAREN"
  | lbrace => "LBRACE"
  | rbrace => "RBRACE"
  | comma => "COMMA"
  | assign => "ASSIGN"
  | plusAssign => "PLUS_ASSIGN"
  | rarrow => "RARROW"
  | atSign => "AT"
  | punct => "PUNCT"
  | error => "ERROR"
  | named label => label

/-- A classified stretch of source text. -/
structure Token where
  kind : TokenKind
  text : String
  span : Span
  deriving DecidableEq, Repr, Inhabited

/-- A comment; comments stay out of the syntax tree. -/
structure Comment where
  text : String
  span : Span
  deriving DecidableEq, Repr, Inhabited

end GrammarIndex
