import GrammarIndex.Dialect
import GrammarIndex.Grammar.Parse

/-!
What the terminals of a grammar file are: heads of rules, entries of token and channel lists, mode
names; elements of rule bodies, arguments of lexer commands; reserved words and literals.
-/
namespace GrammarIndex.Grammar

def tokenIs (tree : SyntaxTree) (node : Nat) (kinds : List TokenKind) : Bool :=
  match tree.token? node with
  | some kind => kinds.contains kind
  | none => false

def textIs (tree : SyntaxTree) (node : Option Nat) (words : List String) : Bool :=
  match node.bind tree.text? with
  | some text => words.contains text
  | none => false

/-- A leaf directly below the given construct. -/
def below (tree : SyntaxTree) (node : Nat) (rule : RuleName) : Bool :=
  tree.parentRule? node == some rule

/-! ### Definitions -/

/-- The name in front of a parser rule. -/
def isParserRuleHead : NodeTest := fun tree _ node =>
  tokenIs tree node [.ruleRef] && below tree node .parserRuleSpec && (tree.sibling? node (-1)).isNone

/-- The name in front of a lexer rule, or behind its `fragment`. -/
def isLexerRuleHead : NodeTest := fun tree _ node =>
  tokenIs tree node [.tokenRef] && below tree node .lexerRuleSpec &&
    match tree.sibling? node (-1) with
    | none => true
    | some prev => textIs tree (some prev) ["fragment"]

def isTokenEntry : NodeTest := fun tree _ node =>
  tokenIs tree node [.tokenRef] && below tree node .tokensSpec

def isModeName : NodeTest := fun tree _ node =>
  tokenIs tree node [.tokenRef, .ruleRef] && below tree node .modeSpec &&
    textIs tree (tree.sibling? node (-1)) ["mode"]

def isChannelEntry : NodeTest := fun tree _ node =>
  tokenIs tree node [.tokenRef, .ruleRef] && below tree node .channelsSpec

def definitionRules : Classifier :=
  [(.nonterminal, isParserRuleHead), (.terminal, isLexerRuleHead), (.terminal, isTokenEntry),
    (.mode, isModeName), (.channel, isChannelEntry)]

/-! ### References -/

/-- A name that stands for itself in a rule body: no label, option or command. -/
def isElement : NodeTest := fun tree defs node =>
  !defs.contains node && (tree.ancestor? node .ruleBlock).isSome &&
    (tree.ancestor? node .elementOptions).isNone && (tree.ancestor? node .lexerCommand).isNone &&
    !(match tree.sibling? node 1 with
      | some next => tokenIs tree next [.assign, .plusAssign]
      | none => false)

/-- The argument of one of the given lexer commands. -/
def isArgumentOf (commands : List String) (tree : SyntaxTree) (node : Nat) : Bool :=
  tokenIs tree node [.tokenRef, .ruleRef] && below tree node .lexerCommand &&
    (match tree.sibling? node (-1) with
      | some prev => tokenIs tree prev [.lparen]
      | none => false) &&
    textIs tree (tree.sibling? node (-2)) commands

def isParserRuleUse : NodeTest := fun tree defs node =>
  tokenIs tree node [.ruleRef] && isElement tree defs node

def isLexerRuleUse : NodeTest := fun tree defs node =>
  (tokenIs tree node [.tokenRef] && isElement tree defs node) || isArgumentOf ["type"] tree node

def isModeUse : NodeTest := fun tree _ node => isArgumentOf ["mode", "pushMode"] tree node

def isChannelUse : NodeTest := fun tree _ node => isArgumentOf ["channel"] tree node

def referenceRules : Classifier :=
  [(.nonterminal, isParserRuleUse), (.terminal, isLexerRuleUse), (.mode, isModeUse),
    (.channel, isChannelUse)]

/-! ### Highlighting and forward declarations -/

def tagOf (tree : SyntaxTree) (node : Nat) : Option Classification :=
  match tree.token? node with
  | some .keyword => some .keyword
  | some .stringLiteral | some .charSet => some .literal
  | _ => none

/-- An entry of a token list declares a name that a lexer rule may define later. -/
def isForward (tree : SyntaxTree) (node : Nat) : Bool := below tree node .tokensSpec

end GrammarIndex.Grammar
