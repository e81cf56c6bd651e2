import GrammarIndex.Token

/-!
Syntax trees whose nodes are addressed by number.

A node's number is its position in the order of insertion, so a parent always has a smaller number
than its children; node 0 is the root. Navigation is total: a number that names no node has no
parent, no children and no text.
-/
namespace GrammarIndex

/-- The construct an interior node stands for. Grammar files use the fixed names; `named` is for
other vocabularies. -/
inductive RuleName where
  | grammarSpec
  | grammarDecl
  | optionsSpec
  | tokensSpec
  | channelsSpec
  | delegateGrammars
  | actionSpec
  | modeSpec
  | parserRuleSpec
  | lexerRuleSpec
  | ruleBlock
  | block
  | lexerCommands
  | lexerCommand
  | elementOptions
  | exceptionGroup
  | named (label : String)
  deriving DecidableEq, Repr, Inhabited

/-- The name under which a construct is shown. -/
def RuleName.label : RuleName → String
  | grammarSpec => "grammarSpec"
  | grammarDecl => "grammarDecl"
  | optionsSpec => "optionsSpec"
  | tokensSpec => "tokensSpec"
  | channelsSpec => "channelsSpec"
  | delegateGrammars => "delegateGrammars"
  | actionSpec => "action"
  | modeSpec => "modeSpec"
  | parserRuleSpec => "parserRuleSpec"
  | lexerRuleSpec => "lexerRuleSpec"
  | ruleBlock => "ruleBlock"
  | block => "block"
  | lexerCommands => "lexerCommands"
  | lexerCommand => "lexerCommand"
  | elementOptions => "elementOptions"
  | exceptionGroup => "exceptionGroup"
  | named label => label

/-- What a node is: a construct, a leaf for one token, or a leaf for what fits nowhere. -/
inductive NodeKind where
  | rule (name : RuleName)
  | terminal (token : TokenKind) (text : String)
  | error (text : String)
  deriving DecidableEq, Repr, Inhabited

namespace NodeKind

def isTerminal : NodeKind → Bool
  | terminal .. => true
  | _ => false

def isError : NodeKind → Bool
  | error _ => true
  | _ => false

def rule? : NodeKind → Option RuleName
  | rule name => some name
  | _ => none

def token? : NodeKind → Option TokenKind
  | terminal token _ => some token
  | _ => none

/-- The text of a leaf; interior nodes have none. -/
def text? : NodeKind → Option String
  | terminal _ text => some text
  | error text => some text
  | rule _ => none

end NodeKind

structure Node where
  kind : NodeKind
  span : Span
  parent : Option Nat
  children : List Nat
  deriving DecidableEq, Repr, Inhabited

structure SyntaxTree where
  nodes : Array Node
  deriving DecidableEq, Repr, Inhabited

namespace SyntaxTree

/-- The tree that is only a root. -/
def leaf (root : RuleName) : SyntaxTree := ⟨#[⟨.rule root, ⟨0, 0⟩, none, []⟩]⟩

def size (t : SyntaxTree) : Nat := t.nodes.size

/-- Whether there is nothing below the root. -/
def isEmpty (t : SyntaxTree) : Bool := t.size ≤ 1

def node? (t : SyntaxTree) (id : Nat) : Option Node := t.nodes[id]?

/-- Append a node as the last child of `parent`; its number is the old size. -/
def push (t : SyntaxTree) (parent : Nat) (kind : NodeKind) (span : Span) : SyntaxTree :=
  let id := t.nodes.size
  let linked := t.nodes.modify parent fun n => { n with children := n.children ++ [id] }
  ⟨linked.push ⟨kind, span, some parent, []⟩⟩

def setSpan (t : SyntaxTree) (id : Nat) (span : Span) : SyntaxTree :=
  ⟨t.nodes.modify id fun n => { n with span }⟩

def kind? (t : SyntaxTree) (id : Nat) : Option NodeKind := (t.node? id).map (·.kind)

def rule? (t : SyntaxTree) (id : Nat) : Option RuleName := (t.kind? id).bind NodeKind.rule?

def token? (t : SyntaxTree) (id : Nat) : Option TokenKind := (t.kind? id).bind NodeKind.token?

def text? (t : SyntaxTree) (id : Nat) : Option String := (t.kind? id).bind NodeKind.text?

/-- The text of a leaf, empty for anything else. -/
def textOf (t : SyntaxTree) (id : Nat) : String := (t.text? id).getD ""

def spanOf (t : SyntaxTree) (id : Nat) : Span := ((t.node? id).map (·.span)).getD ⟨0, 0⟩

def childrenOf (t : SyntaxTree) (id : Nat) : List Nat := ((t.node? id).map (·.children)).getD []

def parent? (t : SyntaxTree) (id : Nat) : Option Nat := (t.node? id).bind (·.parent)

def parentRule? (t : SyntaxTree) (id : Nat) : Option RuleName := (t.parent? id).bind t.rule?

/-- The nearest of the next `steps` ancestors that stands for `rule`. -/
def ancestorWithin (t : SyntaxTree) (rule : RuleName) : (steps : Nat) → Nat → Option Nat
  | 0, _ => none
  | steps + 1, id =>
    match t.parent? id with
    | none => none
    | some p => if t.rule? p = some rule then some p else t.ancestorWithin rule steps p

/-- The nearest proper ancestor that stands for `rule`. A chain of parents visits each node once,
so the size of the tree bounds the search. -/
def ancestor? (t : SyntaxTree) (id : Nat) (rule : RuleName) : Option Nat :=
  t.ancestorWithin rule t.size id

/-- The node `delta` places further among the children of the same parent. -/
def sibling? (t : SyntaxTree) (id : Nat) (delta : Int) : Option Nat := do
  let parent ← t.parent? id
  let siblings := t.childrenOf parent
  let index ← siblings.findIdx? (· == id)
  let place := (index : Int) + delta
  if place < 0 then none else siblings[place.toNat]?

/-- A node and its descendants down to `depth` levels, each before its own descendants. -/
def preorderFrom (t : SyntaxTree) : (depth : Nat) → Nat → List Nat
  | 0, id => [id]
  | depth + 1, id => id :: (t.childrenOf id).flatMap (t.preorderFrom depth)

/-- All nodes, each before its descendants and siblings in order. -/
def preorder (t : SyntaxTree) : List Nat := t.preorderFrom t.size 0

def isTerminal (t : SyntaxTree) (id : Nat) : Bool := ((t.kind? id).map NodeKind.isTerminal).getD false

/-- The terminal leaves in source order. -/
def terminals (t : SyntaxTree) : List Nat := t.preorder.filter t.isTerminal

end SyntaxTree

/-- All that reading one text gives. -/
structure Parsed where
  tree : SyntaxTree
  tokens : List Token
  comments : List Comment
  errors : List Nat
  deriving DecidableEq, Repr, Inhabited

end GrammarIndex
