import GrammarIndex.Proofs.Grammar.Lossless
import GrammarIndex.Proofs.Refactoring.Weave

/-!
The constructs of a parsed text.

A tree is read back as what its nodes are made of, without their numbers and places. For a parsed
text these are the constructs that were read, so whether there are errors, and where the parser
rules stand, is told from them.
-/
namespace GrammarIndex

namespace SyntaxTree

/-- A node and all that is below it down to `depth` levels, without places. -/
def subtree (t : SyntaxTree) : (depth : Nat) → Nat → Derivation
  | 0, id => .node ((t.kind? id).getD default) ⟨0, 0⟩ []
  | depth + 1, id =>
    .node ((t.kind? id).getD default) ⟨0, 0⟩ ((t.childrenOf id).map (t.subtree depth))

/-- The constructs at the top in order, without places. -/
def constructs (t : SyntaxTree) : List Derivation := (t.subtree t.size 0).children

end SyntaxTree

namespace Derivation

mutual

/-- A derivation that is laid out in a tree is read back from it. -/
theorem subtree_of_laid (d : Derivation) {t : SyntaxTree} {parent : Option Nat} (depth : Nat)
    (front back : List Node)
    (laid : t.nodes.toList = front ++ (d.flatten parent front.length ++ back))
    (deep : d.size ≤ depth + 1) : t.subtree depth front.length = d.bare := by
  cases d with
  | node kind span children =>
    rw [flatten] at laid
    rw [size] at deep
    have here := node?_of_laid laid
    have kind_ : t.kind? front.length = some kind := by
      rw [SyntaxTree.kind?, here]
      rfl
    cases depth with
    | zero =>
      cases children with
      | nil => rw [SyntaxTree.subtree, kind_, bare, bareAll]; rfl
      | cons d rest =>
        cases d with
        | node _ _ below =>
          rw [sizeAll, size] at deep
          omega
    | succ depth =>
      let root : Node :=
        ⟨kind, span, parent, (flattenAll (some front.length) (front.length + 1) children).1⟩
      have laidBelow : t.nodes.toList = front ++ [root] ++
          ((flattenAll (some front.length) (front ++ [root]).length children).2 ++ back) := by
        simpa using laid
      have below := map_subtree_of_laid children depth (front ++ [root]) back laidBelow (by omega)
      have numbers : t.childrenOf front.length =
          (flattenAll (some front.length) (front ++ [root]).length children).1 := by
        rw [SyntaxTree.childrenOf, here]
        simp
      rw [SyntaxTree.subtree, kind_, numbers, below, bare, bareAll_eq_map]
      rfl

theorem map_subtree_of_laid (ds : List Derivation) {t : SyntaxTree} {parent : Option Nat}
    (depth : Nat) (front back : List Node)
    (laid : t.nodes.toList = front ++ ((flattenAll parent front.length ds).2 ++ back))
    (deep : sizeAll ds ≤ depth + 1) :
    (flattenAll parent front.length ds).1.map (t.subtree depth) = ds.map bare := by
  cases ds with
  | nil => rfl
  | cons d rest =>
    simp only [flattenAll, List.append_assoc] at laid ⊢
    rw [sizeAll] at deep
    have first := subtree_of_laid d depth front _ laid (by omega)
    have laidRest : t.nodes.toList = front ++ d.flatten parent front.length ++
        ((flattenAll parent (front ++ d.flatten parent front.length).length rest).2 ++ back) := by
      simpa using laid
    have others := map_subtree_of_laid rest depth _ back laidRest (by omega)
    rw [List.length_append] at others
    rw [List.map_cons, List.map_cons, first, others]

end

theorem constructs_toTree (d : Derivation) : d.toTree.constructs = d.children.map bare := by
  have laid : d.toTree.nodes.toList = [] ++ (d.flatten none ([] : List Node).length ++ []) := by
    simp [toTree]
  have read := subtree_of_laid d d.size [] [] laid (by omega)
  rw [SyntaxTree.constructs, size_toTree, ← children_bare]
  exact congrArg children read

/-- What the nodes of a tree are. -/
theorem mem_kinds {d : Derivation} {k : NodeKind} :
    k ∈ d.kinds ↔ ∃ n, d.toTree.kind? n = some k := by
  rw [← map_kind_flatten d none 0, List.mem_iff_getElem?]
  simp [SyntaxTree.kind?, SyntaxTree.node?, toTree]

/-- Neighbouring derivations that are laid out in a tree have their nodes. -/
theorem forall₂_mirrors_of_laid (ds : List Derivation) {t : SyntaxTree} {parent : Option Nat}
    (front back : List Node)
    (laid : t.nodes.toList = front ++ ((flattenAll parent front.length ds).2 ++ back)) :
    List.Forall₂ (Mirrors t) (flattenAll parent front.length ds).1 ds := by
  induction ds generalizing front with
  | nil => exact .nil
  | cons d rest ih =>
    simp only [flattenAll, List.append_assoc] at laid ⊢
    have first : d.parts[0]? = some d := by
      cases d
      rw [parts]
      rfl
    have laidRest : t.nodes.toList = front ++ d.flatten parent front.length ++
        ((flattenAll parent (front ++ d.flatten parent front.length).length rest).2 ++ back) := by
      simpa using laid
    have others := ih _ laidRest
    rw [List.length_append] at others
    exact .cons (mirrors_of_laid d front _ laid first) others

end Derivation

namespace Grammar

open GrammarIndex.Derivation

theorem constructs_parse (text : String) : (parse text).tree.constructs =
    (items text.length (tokenize text).1).map Derivation.bare := constructs_toTree _

/-- Whether a text is read without errors is told from its tree. -/
theorem clean_items_iff (text : String) : Clean (items text.length (tokenize text).1) ↔
    (parse text).errors = [] ∧ ∀ n, (parse text).tree.rule? n ≠ some .exceptionGroup := by
  have kinds : (derive text.length (tokenize text).1).kinds =
      .rule .grammarSpec :: kindsAll (items text.length (tokenize text).1) := by
    rw [derive, Derivation.kinds]
  have found : ∀ {n k}, (parse text).tree.kind? n = some k →
      k = .rule .grammarSpec ∨ k ∈ kindsAll (items text.length (tokenize text).1) := by
    intro n k here
    rw [tree_parse] at here
    have member := mem_kinds.2 ⟨n, here⟩
    rwa [kinds, List.mem_cons] at member
  refine ⟨fun clean => ⟨List.eq_nil_iff_forall_not_mem.2 fun n member => ?_, fun n rule => ?_⟩,
    fun ends k member => ?_⟩
  · obtain ⟨message, here⟩ := mem_errorsOf.1 member
    rcases found here with root | inside
    · cases root
    · cases (clean _ inside).1
  · rcases found (SyntaxTree.kind?_of_rule? rule) with root | inside
    · cases root
    · exact (clean _ inside).2 rfl
  · obtain ⟨none_, plain⟩ := ends
    obtain ⟨n, here⟩ := mem_kinds.1 (kinds ▸ List.mem_cons_of_mem _ member)
    refine ⟨Bool.eq_false_iff.2 fun error => ?_, fun same => plain n ?_⟩
    · cases k with
      | rule => cases error
      | terminal => cases error
      | error message =>
        have listed : n ∈ (parse text).errors := mem_errorsOf.2 ⟨message, here⟩
        rw [none_] at listed
        cases listed
    · rw [SyntaxTree.rule?, tree_parse, here, same]
      rfl

theorem ruleName_of_mirrors {t : SyntaxTree} {id : Nat} {d : Derivation}
    (mirrors : Mirrors t id d) : SortRules.ruleName t id = d.ruleName := by
  -- Both look for the name among what the children are.
  let isRef (k : Option NodeKind) : Bool := k.bind NodeKind.token? == some .ruleRef
  have inTree : (t.childrenOf id).find? (fun c => t.token? c == some .ruleRef) =
      (t.childrenOf id).find? (isRef ∘ t.kind?) := rfl
  have inDerivation : d.children.find? (fun c => c.kind.token? == some .ruleRef) =
      d.children.find? (isRef ∘ (some ·.kind)) := rfl
  have same := congrArg (List.find? isRef) mirrors.kinds
  rw [List.find?_map, List.find?_map, ← inTree, ← inDerivation] at same
  have texts := congrArg (Option.bind · (Option.bind · NodeKind.text?)) same
  simp only [Option.bind_map] at texts
  exact congrArg (Option.getD · "") texts

theorem slots_of_mirrors {t : SyntaxTree} {ids : List Nat} {ds : List Derivation}
    (mirrors : List.Forall₂ (Mirrors t) ids ds) :
    ((ids.filter fun c => t.rule? c == some .parserRuleSpec).map fun c =>
      (⟨t.spanOf c, SortRules.ruleName t c⟩ : SortRules.Slot)) = ds.filterMap slot? := by
  induction mirrors with
  | nil => rfl
  | @cons id d ids ds first _ ih =>
    have rule : t.rule? id = d.kind.rule? := by
      rw [SyntaxTree.rule?, first.kind, Option.bind_some]
    by_cases isRule : d.kind = .rule .parserRuleSpec
    · have holds : (d.kind.rule? == some .parserRuleSpec) = true := by
        rw [isRule]
        rfl
      rw [List.filter_cons, rule, if_pos holds, List.map_cons, List.filterMap_cons, slot?,
        if_pos isRule, ih, first.span, ruleName_of_mirrors first]
    · have other : (d.kind.rule? == some .parserRuleSpec) = false := by
        rw [beq_eq_false_iff_ne]
        intro same
        cases kind : d.kind with
        | rule name =>
          rw [kind] at same isRule
          exact isRule (congrArg NodeKind.rule (Option.some.inj same))
        | terminal => rw [kind] at same; cases same
        | error => rw [kind] at same; cases same
      rw [List.filter_cons, rule, other, if_neg Bool.false_ne_true, List.filterMap_cons, slot?,
        if_neg isRule, ih]

/-- The places that are filled are those of the parser rules that were read. -/
theorem slots_parse (text : String) : SortRules.slots (parse text).tree =
    (items text.length (tokenize text).1).filterMap slot? := by
  have nodes := nodes_parse text
  let root : Node := ⟨.rule .grammarSpec, ⟨0, text.length⟩, none,
    (flattenAll (some 0) 1 (items text.length (tokenize text).1)).1⟩
  have laid : (parse text).tree.nodes.toList = [root] ++
      ((flattenAll (some 0) [root].length (items text.length (tokenize text).1)).2 ++ []) := by
    rw [nodes, List.append_nil]
    rfl
  have numbers : (parse text).tree.childrenOf 0 = root.children := by
    rw [SyntaxTree.childrenOf, SyntaxTree.node?, ← Array.getElem?_toList, nodes]
    rfl
  rw [SortRules.slots, numbers]
  exact slots_of_mirrors (forall₂_mirrors_of_laid _ [root] [] laid)

end Grammar

end GrammarIndex
