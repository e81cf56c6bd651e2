import GrammarIndex.Proofs.Grammar.Built
import GrammarIndex.Proofs.Tree

/-!
How the tree of a parsed text is laid out.

Cutting a text gives pieces that are not empty and follow each other. A reader of the parser turns
the tokens it takes into leaves in their order, and builds nothing that can only stand at the top.
So the terminals stand where some of the tokens stand, in the same order: no two of them overlap,
and the start of a terminal belongs to no other. And what defines a name stands directly below the
top, where no rule body is around it, so no terminal both defines a name and refers to one.
-/
namespace GrammarIndex

namespace Derivation

mutual

/-- The ranges of the terminals, in order. -/
def terminalSpans : Derivation → List Span
  | node kind span children =>
    (if kind.isTerminal then [span] else []) ++ terminalSpansAll children

def terminalSpansAll : List Derivation → List Span
  | [] => []
  | d :: rest => d.terminalSpans ++ terminalSpansAll rest

end

@[simp] theorem terminalSpansAll_append (ds ds' : List Derivation) :
    terminalSpansAll (ds ++ ds') = terminalSpansAll ds ++ terminalSpansAll ds' := by
  induction ds with
  | nil => rfl
  | cons d ds ih => simp [terminalSpansAll, ih]

mutual

/-- What the nodes are, in order. -/
def kinds : Derivation → List NodeKind
  | node kind _ children => kind :: kindsAll children

def kindsAll : List Derivation → List NodeKind
  | [] => []
  | d :: rest => d.kinds ++ kindsAll rest

end

@[simp] theorem kindsAll_append (ds ds' : List Derivation) :
    kindsAll (ds ++ ds') = kindsAll ds ++ kindsAll ds' := by
  induction ds with
  | nil => rfl
  | cons d ds ih => simp [kindsAll, ih]

mutual

theorem map_kind_flatten (d : Derivation) (parent : Option Nat) (id : Nat) :
    (d.flatten parent id).map (·.kind) = d.kinds := by
  cases d with
  | node kind span children => simp [flatten, kinds, map_kind_flattenAll children]

theorem map_kind_flattenAll (ds : List Derivation) (parent : Option Nat) (id : Nat) :
    (flattenAll parent id ds).2.map (·.kind) = kindsAll ds := by
  cases ds with
  | nil => rfl
  | cons d rest =>
    simp only [flattenAll, kindsAll, List.map_append, map_kind_flatten d, map_kind_flattenAll rest]

end

/-- The range of a node, if it is a terminal. -/
def spanOfTerminal? (n : Node) : Option Span := if n.kind.isTerminal then some n.span else none

mutual

/-- Numbering keeps the terminals in order. -/
theorem filterMap_flatten (d : Derivation) (parent : Option Nat) (id : Nat) :
    (d.flatten parent id).filterMap spanOfTerminal? = d.terminalSpans := by
  cases d with
  | node kind span children =>
    rw [flatten, terminalSpans, List.filterMap_cons, filterMap_flattenAll children]
    cases terminal : kind.isTerminal <;> simp [spanOfTerminal?, terminal]

theorem filterMap_flattenAll (ds : List Derivation) (parent : Option Nat) (id : Nat) :
    (flattenAll parent id ds).2.filterMap spanOfTerminal? = terminalSpansAll ds := by
  cases ds with
  | nil => rfl
  | cons d rest =>
    simp only [flattenAll, terminalSpansAll, List.filterMap_append, filterMap_flatten d,
      filterMap_flattenAll rest]

end

/-- The terminals of the numbered tree stand where those of the derivation do. -/
theorem map_spanOf_terminals (d : Derivation) :
    d.toTree.terminals.map d.toTree.spanOf = d.terminalSpans := by
  have walked := congrArg (List.map fun n => (n.map (·.span)).getD ⟨0, 0⟩)
    (map_node?_preorder d (·.kind.isTerminal))
  rw [List.map_map, List.map_map] at walked
  have terminal : d.toTree.isTerminal = fun n => (d.toTree.node? n).any (·.kind.isTerminal) := by
    funext n
    rw [SyntaxTree.isTerminal, SyntaxTree.kind?]
    cases d.toTree.node? n <;> rfl
  have each : ∀ l : List Node,
      (l.filter (·.kind.isTerminal)).map (·.span) = l.filterMap spanOfTerminal? := by
    intro l
    induction l with
    | nil => rfl
    | cons n l ih =>
      rw [List.filter_cons, List.filterMap_cons, ← ih]
      cases terminal : n.kind.isTerminal <;> simp [spanOfTerminal?, terminal]
  rw [SyntaxTree.terminals, terminal, ← filterMap_flatten d none 0, ← each]
  exact walked

end Derivation

namespace Grammar

open GrammarIndex.Derivation

/-! ### Pieces -/

/-- Pieces are not empty and follow each other. -/
theorem ordered_piecesFrom (offset : Nat) (opensBlock : Bool) (cs : List Char) :
    (∀ p ∈ piecesFrom offset opensBlock cs, offset ≤ p.span.start ∧ p.span.start < p.span.stop) ∧
      (piecesFrom offset opensBlock cs).Pairwise fun p q => p.span.stop ≤ q.span.start := by
  fun_induction piecesFrom offset opensBlock cs with
  | case1 => simp
  | case2 offset opensBlock c cs lexeme n _ chars piece ih =>
    have some_ : 0 < chars.length := by simp [chars]
    refine ⟨fun p member => ?_, List.pairwise_cons.2 ⟨fun q member => (ih.1 q member).1, ih.2⟩⟩
    rcases List.mem_cons.1 member with rfl | member
    · exact ⟨Nat.le_refl _, Nat.lt_add_of_pos_right some_⟩
    · obtain ⟨behind, filled⟩ := ih.1 p member
      exact ⟨by omega, filled⟩

/-- Ranges that are not empty and follow each other. -/
structure Ordered (spans : List Span) : Prop where
  filled : ∀ s ∈ spans, s.start < s.stop
  apart : spans.Pairwise fun s t => s.stop ≤ t.start

theorem Ordered.sublist {spans spans' : List Span} (ordered : Ordered spans)
    (part : spans'.Sublist spans) : Ordered spans' :=
  ⟨fun s member => ordered.filled s (part.mem member), ordered.apart.sublist part⟩

theorem ordered_pieces (offset : Nat) (opensBlock : Bool) (cs : List Char) :
    Ordered ((piecesFrom offset opensBlock cs).map (·.span)) := by
  obtain ⟨filled, apart⟩ := ordered_piecesFrom offset opensBlock cs
  refine ⟨fun s member => ?_, List.pairwise_map.2 apart⟩
  obtain ⟨p, listed, rfl⟩ := List.mem_map.1 member
  exact (filled p listed).2

theorem ordered_tokens (text : String) : Ordered ((tokenize text).1.map (·.span)) := by
  refine (ordered_pieces 0 false text.toList).sublist ?_
  rw [tokenize, ← pieces]
  generalize pieces text = all
  induction all with
  | nil => exact .slnil
  | cons p all ih =>
    rw [List.filterMap_cons, List.map_cons]
    cases kind : p.lexeme with
    | token k => simpa [Piece.token?, kind] using ih
    | blank => simpa [Piece.token?, kind] using ih.cons _
    | comment => simpa [Piece.token?, kind] using ih.cons _

/-! ### What is built -/

/-- The terminals that were built and the tokens that are left are in order among the tokens. -/
def InOrder (ds : List Derivation) (left toks : List Token) : Prop :=
  (terminalSpansAll ds ++ left.map (·.span)).Sublist (toks.map (·.span))

theorem InOrder.trans {ds ds' : List Derivation} {toks mid left : List Token}
    (first : InOrder ds mid toks) (second : InOrder ds' left mid) :
    InOrder (ds ++ ds') left toks := by
  unfold InOrder at *
  rw [terminalSpansAll_append, List.append_assoc]
  exact (second.append_left _).trans first

/-- What was built keeps its terminals in the order of the tokens. -/
theorem Built.inOrder {fits : RuleName → List Derivation → Prop} {stop : Nat} {ds : List Derivation}
    {left toks : List Token} (built : Built fits stop ds left toks) : InOrder ds left toks := by
  induction built with
  | nil toks => exact List.Sublist.refl _
  | leaf t rest =>
    unfold Grammar.leaf
    split <;> simp [InOrder, terminalSpansAll, terminalSpans, NodeKind.isTerminal]
  | stray t rest =>
    simp [InOrder, Grammar.stray, terminalSpansAll, terminalSpans, NodeKind.isTerminal]
  | missing what toks =>
    simp [InOrder, Grammar.missing, terminalSpansAll, terminalSpans, NodeKind.isTerminal]
  | construct _ _ inside =>
    simpa [InOrder, Grammar.construct, terminalSpansAll, terminalSpans, NodeKind.isTerminal] using
      inside
  | append _ _ first second => exact first.trans second

/-- Below the top no construct stands that belongs there. -/
theorem Built.nested {stop : Nat} {ds : List Derivation} {left toks : List Token}
    (built : Built Inner stop ds left toks) : ∀ k ∈ kindsAll ds, isTop k = false := by
  induction built with
  | nil toks => simp [kindsAll]
  | leaf t rest =>
    unfold Grammar.leaf
    split <;> simp [kindsAll, kinds, isTop]
  | stray t rest => simp [Grammar.stray, kindsAll, kinds, isTop]
  | missing what toks => simp [Grammar.missing, kindsAll, kinds, isTop]
  | construct fit _ inside =>
    intro k member
    simp only [Grammar.construct, kindsAll, kinds, List.append_nil, List.mem_cons] at member
    rcases member with rfl | member
    · exact fit.1
    · exact inside k member
  | append _ _ first second =>
    intro k member
    rw [kindsAll_append] at member
    exact (List.mem_append.1 member).elim (first k) (second k)

theorem items_spec (stop : Nat) (toks : List Token) : InOrder (items stop toks) [] toks ∧
    ∀ d ∈ items stop toks, ∀ k ∈ kindsAll d.children, isTop k = false := by
  refine ⟨(built_items stop toks).inOrder, fun d member => ?_⟩
  obtain ⟨left, toks', inside⟩ := built_of_mem_items stop toks member
  exact inside.nested

/-! ### Terminals -/

/-- The terminals of a text stand where tokens do, in their order. -/
theorem sublist_terminals (text : String) :
    ((parse text).tree.terminals.map (parse text).tree.spanOf).Sublist
      ((tokenize text).1.map (·.span)) := by
  have built : (parse text).tree = (derive text.length (tokenize text).1).toTree := rfl
  rw [built, map_spanOf_terminals]
  have all := (items_spec text.length (tokenize text).1).1
  unfold InOrder at all
  simpa [derive, terminalSpans, NodeKind.isTerminal] using all

/-- The terminals of a text, in source order, are not empty and do not overlap. -/
theorem ordered_terminals (text : String) :
    Ordered ((parse text).tree.terminals.map (parse text).tree.spanOf) :=
  (ordered_tokens text).sublist (sublist_terminals text)

/-- The start of a terminal belongs to no other terminal. -/
theorem eq_of_covers (text : String) {n m : Nat} (terminal : n ∈ (parse text).tree.terminals)
    (terminal' : m ∈ (parse text).tree.terminals)
    (covers : ((parse text).tree.spanOf m).covers ((parse text).tree.spanOf n).start = true) :
    m = n := by
  obtain ⟨filled, apart⟩ := ordered_terminals text
  have some_ := filled _ (List.mem_map.2 ⟨n, terminal, rfl⟩)
  rw [List.pairwise_map] at apart
  simp only [Span.covers, Bool.and_eq_true, decide_eq_true_eq] at covers
  generalize (parse text).tree.terminals = l at terminal terminal' apart
  induction l with
  | nil => cases terminal
  | cons k l ih =>
    obtain ⟨first, rest⟩ := List.pairwise_cons.1 apart
    rcases List.mem_cons.1 terminal with rfl | later <;>
      rcases List.mem_cons.1 terminal' with rfl | later'
    · rfl
    · have := first m later'
      omega
    · have := first n later
      omega
    · exact ih later later' rest

theorem covers_start (text : String) {n : Nat} (terminal : n ∈ (parse text).tree.terminals) :
    ((parse text).tree.spanOf n).covers ((parse text).tree.spanOf n).start = true := by
  have filled := (ordered_terminals text).filled _ (List.mem_map.2 ⟨n, terminal, rfl⟩)
  simpa [Span.covers] using filled

/-- Terminals that stand at the same place are one. -/
theorem spanOf_inj (text : String) {n m : Nat} (terminal : n ∈ (parse text).tree.terminals)
    (terminal' : m ∈ (parse text).tree.terminals)
    (same : (parse text).tree.spanOf m = (parse text).tree.spanOf n) : m = n :=
  eq_of_covers text terminal terminal' (by rw [same]; exact covers_start text terminal)

/-! ### Definitions and references -/

/-- Below the top, the constructs that only stand at the top are children of the root. -/
theorem parent_of_isTop {id : Nat} {ds : List Derivation}
    (nested : ∀ d ∈ ds, ∀ k ∈ kindsAll d.children, isTop k = false) {n : Node}
    (member : n ∈ (flattenAll (some 0) id ds).2) (top : isTop n.kind = true) :
    n.parent = some 0 := by
  induction ds generalizing id with
  | nil => cases member
  | cons d rest ih =>
    rw [flattenAll, List.mem_append] at member
    rcases member with member | member
    · obtain ⟨kind, span, children⟩ := d
      rw [flatten, List.mem_cons] at member
      rcases member with rfl | member
      · rfl
      · have kindN : n.kind ∈ kindsAll children := by
          rw [← map_kind_flattenAll children (some id) (id + 1)]
          exact List.mem_map.2 ⟨n, member, rfl⟩
        have inner := nested (.node kind span children) (by simp) n.kind kindN
        rw [top] at inner
        cases inner
    · exact ih (fun d member => nested d (by simp [member])) member

theorem nodes_parse (text : String) : (parse text).tree.nodes.toList =
    ⟨.rule .grammarSpec, ⟨0, text.length⟩, none,
      (flattenAll (some 0) 1 (items text.length (tokenize text).1)).1⟩ ::
      (flattenAll (some 0) 1 (items text.length (tokenize text).1)).2 := by
  show (derive text.length (tokenize text).1).toTree.nodes.toList = _
  simp [toTree, derive, flatten]

theorem node?_parse_zero (text : String) : ∃ n, (parse text).tree.node? 0 = some n ∧
    n.kind = .rule .grammarSpec ∧ n.parent = none := by
  have node : (parse text).tree.node? 0 = (parse text).tree.nodes.toList[0]? := by
    rw [SyntaxTree.node?, ← Array.getElem?_toList]
  rw [nodes_parse] at node
  exact ⟨_, node, rfl, rfl⟩

theorem parent?_of_isTop (text : String) {p : Nat} {r : RuleName}
    (rule : (parse text).tree.rule? p = some r) (top : isTop (.rule r) = true) :
    (parse text).tree.parent? p = some 0 := by
  obtain ⟨n, node, kindR⟩ := Option.map_eq_some_iff.1 (SyntaxTree.kind?_of_rule? rule)
  have listed : n ∈ (parse text).tree.nodes.toList := by
    rw [SyntaxTree.node?, ← Array.getElem?_toList] at node
    exact List.mem_of_getElem? node
  rw [nodes_parse, List.mem_cons] at listed
  rw [SyntaxTree.parent?, node, Option.bind_some]
  rcases listed with rfl | listed
  · cases kindR
    cases top
  · exact parent_of_isTop (items_spec _ _).2 listed (kindR ▸ top)

/-- Nothing directly below such a construct is part of a rule body. -/
theorem ancestor?_ruleBlock (text : String) {n : Nat} {r : RuleName}
    (parent : (parse text).tree.parentRule? n = some r) (top : isTop (.rule r) = true) :
    (parse text).tree.ancestor? n .ruleBlock = none := by
  obtain ⟨p, up, rule⟩ := Option.bind_eq_some_iff.1 parent
  have above := parent?_of_isTop text rule top
  obtain ⟨root, node, kind, none_⟩ := node?_parse_zero text
  have ruleRoot : (parse text).tree.rule? 0 = some .grammarSpec := by
    rw [SyntaxTree.rule?, SyntaxTree.kind?, node, Option.map_some, kind]
    rfl
  have upRoot : (parse text).tree.parent? 0 = none := by
    rw [SyntaxTree.parent?, node, Option.bind_some, none_]
  have inner : r ≠ .ruleBlock := by
    rintro rfl
    cases top
  have walk : ∀ steps, (parse text).tree.ancestorWithin .ruleBlock steps n = none := by
    intro steps
    rcases steps with _ | _ | _ | steps <;>
      simp [SyntaxTree.ancestorWithin, up, rule, inner, above, ruleRoot, upRoot]
  exact walk _

/-- A terminal that defines a name stands directly below a construct at the top. -/
theorem parentRule?_of_definition {tree : SyntaxTree} {defs : Table Nat Classification} {n : Nat}
    (defines : (dialect.definition? tree defs n).isSome = true) :
    ∃ r, tree.parentRule? n = some r ∧ isTop (.rule r) = true := by
  rw [Dialect.definition?, Classifier.classify, Option.isSome_map] at defines
  obtain ⟨rule, found⟩ := Option.isSome_iff_exists.1 defines
  have holds := List.find?_some found
  have member := List.mem_of_find?_eq_some found
  have below_ : ∀ r, below tree n r = true → tree.parentRule? n = some r := fun r h => by
    simpa [below] using h
  simp only [dialect, definitionRules, List.mem_cons, List.not_mem_nil, or_false] at member
  rcases member with rfl | rfl | rfl | rfl | rfl
  · simp only [isParserRuleHead, Bool.and_eq_true] at holds
    exact ⟨_, below_ _ holds.1.2, rfl⟩
  · simp only [isLexerRuleHead, Bool.and_eq_true] at holds
    exact ⟨_, below_ _ holds.1.2, rfl⟩
  · simp only [isTokenEntry, Bool.and_eq_true] at holds
    exact ⟨_, below_ _ holds.2, rfl⟩
  · simp only [isModeName, Bool.and_eq_true] at holds
    exact ⟨_, below_ _ holds.1.2, rfl⟩
  · simp only [isChannelEntry, Bool.and_eq_true] at holds
    exact ⟨_, below_ _ holds.2, rfl⟩

/-- No terminal both defines a name and refers to one. -/
theorem reference?_of_definition (text : String) {defs defs' : Table Nat Classification} {n : Nat}
    (defines : (dialect.definition? (parse text).tree defs n).isSome = true) :
    dialect.reference? (parse text).tree defs' n = none := by
  obtain ⟨r, parent, top⟩ := parentRule?_of_definition defines
  have outside := ancestor?_ruleBlock text parent top
  have inner : ∀ words, isArgumentOf words (parse text).tree n = false := by
    intro words
    have other : below (parse text).tree n .lexerCommand = false := by
      rw [below, parent]
      cases r <;> first | rfl | cases top
    simp [isArgumentOf, other]
  have element : isElement (parse text).tree defs' n = false := by simp [isElement, outside]
  simp [Dialect.reference?, Classifier.classify, dialect, referenceRules, isParserRuleUse,
    isLexerRuleUse, isModeUse, isChannelUse, inner, element]

/-- Whether a terminal that defines nothing is a reference does not hang on what is bound. -/
theorem reference?_congr {tree : SyntaxTree} {defs defs' : Table Nat Classification} {n : Nat}
    (same : defs.contains n = defs'.contains n) :
    dialect.reference? tree defs n = dialect.reference? tree defs' n := by
  have element : isElement tree defs n = isElement tree defs' n := by
    simp only [isElement, same]
  simp only [Dialect.reference?, Classifier.classify, dialect, referenceRules, List.find?_cons,
    List.find?_nil, isParserRuleUse, isLexerRuleUse, isModeUse, isChannelUse, element]

end Grammar

end GrammarIndex
