import GrammarIndex.Grammar.Dialect

/-!
The leaves of a parsed text.

Numbering a derivation lays its nodes out in preorder, so walking the tree meets every number once
and in order. The terminals of a parsed text are therefore pairwise different.
-/
namespace GrammarIndex

/-- Only the node of a rule stands for it. -/
theorem SyntaxTree.kind?_of_rule? {t : SyntaxTree} {n : Nat} {name : RuleName}
    (rule : t.rule? n = some name) : t.kind? n = some (.rule name) := by
  obtain ⟨kind, found, isRule⟩ := Option.bind_eq_some_iff.1 rule
  cases kind with
  | rule name' =>
    cases isRule
    exact found
  | terminal => cases isRule
  | error => cases isRule

/-- The siblings of a child are found by its place, for no number is given twice. -/
theorem SyntaxTree.sibling?_of_child {t : SyntaxTree} {p n k : Nat}
    (ascending : (t.childrenOf p).Pairwise (· < ·)) (up : t.parent? n = some p)
    (child : (t.childrenOf p)[k]? = some n) (delta : Int) :
    t.sibling? n delta =
      if (k : Int) + delta < 0 then none else (t.childrenOf p)[((k : Int) + delta).toNat]? := by
  obtain ⟨inside, here⟩ := List.getElem?_eq_some_iff.1 child
  have place : (t.childrenOf p).findIdx? (· == n) = some k := by
    refine List.findIdx?_eq_some_iff_getElem.2 ⟨inside, by simp [here], fun j earlier => ?_⟩
    have before := List.pairwise_iff_getElem.1 ascending j k (by omega) inside earlier
    rw [here] at before
    simpa using Nat.ne_of_lt before
  simp only [SyntaxTree.sibling?, up, Option.bind_eq_bind, Option.bind_some, place]

/-- A sibling stands among the children of the same parent. -/
theorem SyntaxTree.exists_of_sibling? {t : SyntaxTree} {n m : Nat} {delta : Int}
    (found : t.sibling? n delta = some m) : ∃ p i, t.parent? n = some p ∧
      (t.childrenOf p).findIdx? (· == n) = some i ∧ 0 ≤ (i : Int) + delta ∧
      (t.childrenOf p)[((i : Int) + delta).toNat]? = some m := by
  rw [SyntaxTree.sibling?] at found
  obtain ⟨p, up, found⟩ := Option.bind_eq_some_iff.1 found
  obtain ⟨i, here, found⟩ := Option.bind_eq_some_iff.1 found
  simp only at found
  split at found
  · cases found
  · next inside => exact ⟨p, i, up, here, Int.not_lt.1 inside, found⟩

namespace Derivation

/-- The node at the end of a stretch of nodes. -/
theorem node?_of_laid {t : SyntaxTree} {front back : List Node} {n : Node}
    (laid : t.nodes.toList = front ++ n :: back) : t.node? front.length = some n := by
  rw [SyntaxTree.node?, ← Array.getElem?_toList, laid]
  simp

mutual

/-- Walking a derivation that is laid out in a tree meets its numbers in order. -/
theorem preorderFrom_of_laid (d : Derivation) {t : SyntaxTree} {parent : Option Nat} (depth : Nat)
    (front back : List Node)
    (laid : t.nodes.toList = front ++ (d.flatten parent front.length ++ back))
    (deep : d.size ≤ depth + 1) :
    t.preorderFrom depth front.length = List.range' front.length d.size := by
  cases d with
  | node kind span children =>
    rw [flatten] at laid
    rw [size] at deep ⊢
    have here := node?_of_laid laid
    cases depth with
    | zero =>
      have none_ : sizeAll children = 0 := by omega
      simp [SyntaxTree.preorderFrom, none_]
    | succ depth =>
      let root : Node :=
        ⟨kind, span, parent, (flattenAll (some front.length) (front.length + 1) children).1⟩
      have laidBelow : t.nodes.toList = front ++ [root] ++
          ((flattenAll (some front.length) (front ++ [root]).length children).2 ++ back) := by
        simpa using laid
      have below := flatMap_preorderFrom_of_laid children depth (front ++ [root]) back laidBelow
        (by omega)
      rw [SyntaxTree.preorderFrom, SyntaxTree.childrenOf, here, List.range'_succ]
      simpa using below

theorem flatMap_preorderFrom_of_laid (ds : List Derivation) {t : SyntaxTree}
    {parent : Option Nat} (depth : Nat) (front back : List Node)
    (laid : t.nodes.toList = front ++ ((flattenAll parent front.length ds).2 ++ back))
    (deep : sizeAll ds ≤ depth + 1) :
    (flattenAll parent front.length ds).1.flatMap (t.preorderFrom depth) =
      List.range' front.length (sizeAll ds) := by
  cases ds with
  | nil => simp [flattenAll, sizeAll]
  | cons d rest =>
    simp only [flattenAll, List.append_assoc] at laid
    simp only [sizeAll] at deep ⊢
    have first := preorderFrom_of_laid d depth front _ laid (by omega)
    have laidRest : t.nodes.toList = front ++ d.flatten parent front.length ++
        ((flattenAll parent (front ++ d.flatten parent front.length).length rest).2 ++ back) := by
      simpa using laid
    have others := flatMap_preorderFrom_of_laid rest depth _ back laidRest (by omega)
    simp only [List.length_append, length_flatten] at others
    simp only [flattenAll, List.flatMap_cons, length_flatten, first, others, List.range'_append_1]

end

/-- Walking the tree of a derivation meets all numbers in order. -/
theorem preorder_toTree (d : Derivation) : d.toTree.preorder = List.range d.size := by
  have laid : d.toTree.nodes.toList = [] ++ (d.flatten none ([] : List Node).length ++ []) := by
    simp [toTree]
  have walk := preorderFrom_of_laid d d.size [] [] laid (by omega)
  rw [SyntaxTree.preorder, size_toTree, List.range_eq_range']
  exact walk

/-- What is walked to from a node is the node or a child of another. -/
theorem mem_preorderFrom {t : SyntaxTree} (depth : Nat) {id n : Nat}
    (member : n ∈ t.preorderFrom depth id) : n = id ∨ ∃ p, n ∈ t.childrenOf p := by
  induction depth generalizing id with
  | zero => exact .inl (List.mem_singleton.1 member)
  | succ depth ih =>
    rw [SyntaxTree.preorderFrom] at member
    rcases List.mem_cons.1 member with same | below
    · exact .inl same
    · obtain ⟨c, child, below⟩ := List.mem_flatMap.1 below
      rcases ih below with rfl | other
      · exact .inr ⟨id, child⟩
      · exact .inr other

/-- The entries of a list that satisfy a test, found by their places. -/
theorem filter_range_getElem? {α : Type} (l : List α) (p : α → Bool) :
    ((List.range l.length).filter fun n => l[n]?.any p).map (l[·]?) = (l.filter p).map some := by
  induction l with
  | nil => rfl
  | cons a l ih =>
    have rest : (((List.range l.length).map Nat.succ).filter fun n => (a :: l)[n]?.any p).map
        ((a :: l)[·]?) = (l.filter p).map some := by
      rw [← ih, List.filter_map, List.map_map]
      rfl
    rw [List.length_cons, List.range_succ_eq_map, List.filter_cons]
    cases holds : p a with
    | true => simpa [holds] using rest
    | false => simpa [holds] using rest

/-- The nodes that satisfy a test, found by walking the tree. -/
theorem map_node?_preorder (d : Derivation) (p : Node → Bool) :
    (d.toTree.preorder.filter fun n => (d.toTree.node? n).any p).map d.toTree.node? =
      ((d.flatten none 0).filter p).map some := by
  have node : d.toTree.node? = fun n => (d.flatten none 0)[n]? := by
    funext n
    simp [SyntaxTree.node?, toTree]
  rw [preorder_toTree, ← length_flatten d none 0, node]
  exact filter_range_getElem? (d.flatten none 0) p

/-! ### Nodes and parts -/

mutual

/-- A derivation and all that is below it, in preorder. -/
def parts : Derivation → List Derivation
  | node kind span children => node kind span children :: partsAll children

def partsAll : List Derivation → List Derivation
  | [] => []
  | d :: rest => d.parts ++ partsAll rest

end

@[simp] theorem partsAll_append (ds ds' : List Derivation) :
    partsAll (ds ++ ds') = partsAll ds ++ partsAll ds' := by
  induction ds with
  | nil => rfl
  | cons d ds ih => simp [partsAll, ih]

mutual

/-- Numbering keeps what the parts are and where they stand. -/
theorem map_flatten (d : Derivation) (parent : Option Nat) (id : Nat) :
    (d.flatten parent id).map (fun n => (n.kind, n.span)) =
      d.parts.map fun d => (d.kind, d.span) := by
  cases d with
  | node kind span children =>
    simp only [flatten, parts, List.map_cons, map_flattenAll children]
    rfl

theorem map_flattenAll (ds : List Derivation) (parent : Option Nat) (id : Nat) :
    (flattenAll parent id ds).2.map (fun n => (n.kind, n.span)) =
      (partsAll ds).map fun d => (d.kind, d.span) := by
  cases ds with
  | nil => rfl
  | cons d rest =>
    simp only [flattenAll, partsAll, List.map_append, map_flatten d, map_flattenAll rest]

end

theorem length_parts (d : Derivation) : d.parts.length = d.size := by
  have same := congrArg List.length (map_flatten d none 0)
  simpa [length_flatten] using same.symm

/-- A node that stands for a derivation: it is of the same kind, stands in the same place, and its
children are those of the derivation, in order. -/
structure Mirrors (t : SyntaxTree) (id : Nat) (d : Derivation) : Prop where
  kind : t.kind? id = some d.kind
  span : t.spanOf id = d.span
  parent : ∀ c ∈ t.childrenOf id, t.parent? c = some id
  children : (t.childrenOf id).map t.spanOf = d.children.map (·.span)
  kinds : (t.childrenOf id).map t.kind? = d.children.map (some ·.kind)

theorem Mirrors.child {t : SyntaxTree} {id k n : Nat} {d : Derivation} (mirrors : Mirrors t id d)
    (found : (t.childrenOf id)[k]? = some n) :
    ∃ d', d.children[k]? = some d' ∧ d'.span = t.spanOf n ∧ t.kind? n = some d'.kind := by
  have spans := congrArg (·[k]?) mirrors.children
  have kinds := congrArg (·[k]?) mirrors.kinds
  simp only [List.getElem?_map, found, Option.map_some] at spans kinds
  obtain ⟨d', child, span⟩ := Option.map_eq_some_iff.1 spans.symm
  rw [child] at kinds
  exact ⟨d', child, span, Option.some.inj kinds⟩

theorem Mirrors.number {t : SyntaxTree} {id k : Nat} {d d' : Derivation} (mirrors : Mirrors t id d)
    (child : d.children[k]? = some d') :
    ∃ n, (t.childrenOf id)[k]? = some n ∧ t.kind? n = some d'.kind := by
  have kinds := congrArg (·[k]?) mirrors.kinds
  simp only [List.getElem?_map, child, Option.map_some] at kinds
  exact Option.map_eq_some_iff.1 kinds

/-- Neighbouring derivations that are laid out in a tree are the children of one node. -/
theorem children_of_laid (ds : List Derivation) {t : SyntaxTree} {parent : Option Nat}
    (front back : List Node)
    (laid : t.nodes.toList = front ++ ((flattenAll parent front.length ds).2 ++ back)) :
    (∀ c ∈ (flattenAll parent front.length ds).1, t.parent? c = parent) ∧
      (flattenAll parent front.length ds).1.map t.spanOf = ds.map (·.span) ∧
      (flattenAll parent front.length ds).1.map t.kind? = ds.map (some ·.kind) := by
  induction ds generalizing front with
  | nil => exact ⟨fun c member => (List.not_mem_nil member).elim, rfl, rfl⟩
  | cons d rest ih =>
    simp only [flattenAll, List.append_assoc] at laid ⊢
    have first : t.parent? front.length = parent ∧ t.spanOf front.length = d.span ∧
        t.kind? front.length = some d.kind := by
      obtain ⟨kind, span, children⟩ := d
      rw [flatten] at laid
      have here := node?_of_laid laid
      rw [SyntaxTree.parent?, SyntaxTree.spanOf, SyntaxTree.kind?, here]
      exact ⟨rfl, rfl, rfl⟩
    have laidRest : t.nodes.toList = front ++ d.flatten parent front.length ++
        ((flattenAll parent (front ++ d.flatten parent front.length).length rest).2 ++ back) := by
      simpa using laid
    obtain ⟨parents, spans, kinds⟩ := ih _ laidRest
    rw [List.length_append] at parents spans kinds
    refine ⟨fun c member => ?_, by rw [List.map_cons, List.map_cons, first.2.1, spans],
      by rw [List.map_cons, List.map_cons, first.2.2, kinds]⟩
    rcases List.mem_cons.1 member with rfl | member
    · exact first.1
    · exact parents c member

mutual

/-- Every part of a derivation that is laid out in a tree has its node. -/
theorem mirrors_of_laid (d : Derivation) {t : SyntaxTree} {parent : Option Nat}
    (front back : List Node)
    (laid : t.nodes.toList = front ++ (d.flatten parent front.length ++ back)) {i : Nat}
    {d' : Derivation} (part : d.parts[i]? = some d') : Mirrors t (front.length + i) d' := by
  cases d with
  | node kind span children =>
    rw [flatten] at laid
    have here := node?_of_laid laid
    let root : Node :=
      ⟨kind, span, parent, (flattenAll (some front.length) (front.length + 1) children).1⟩
    have laidBelow : t.nodes.toList = front ++ [root] ++
        ((flattenAll (some front.length) (front ++ [root]).length children).2 ++ back) := by
      simpa using laid
    rw [parts] at part
    cases i with
    | zero =>
      cases part
      have below := children_of_laid children _ back laidBelow
      have numbers : t.childrenOf front.length =
          (flattenAll (some front.length) (front ++ [root]).length children).1 := by
        rw [SyntaxTree.childrenOf, here]
        simp
      rw [← numbers] at below
      refine ⟨?_, ?_, below.1, below.2.1, below.2.2⟩
      · rw [SyntaxTree.kind?, Nat.add_zero, here]
        rfl
      · rw [SyntaxTree.spanOf, Nat.add_zero, here]
        rfl
    | succ i =>
      have below := mirrorsAll_of_laid children (front ++ [root]) back laidBelow part
      rw [List.length_append, List.length_singleton] at below
      rw [show front.length + (i + 1) = front.length + 1 + i by omega]
      exact below

theorem mirrorsAll_of_laid (ds : List Derivation) {t : SyntaxTree} {parent : Option Nat}
    (front back : List Node)
    (laid : t.nodes.toList = front ++ ((flattenAll parent front.length ds).2 ++ back)) {i : Nat}
    {d' : Derivation} (part : (partsAll ds)[i]? = some d') : Mirrors t (front.length + i) d' := by
  cases ds with
  | nil => cases part
  | cons d rest =>
    simp only [flattenAll, List.append_assoc] at laid
    rw [partsAll, List.getElem?_append, length_parts] at part
    split at part
    · exact mirrors_of_laid d front _ laid part
    · have laidRest : t.nodes.toList = front ++ d.flatten parent front.length ++
          ((flattenAll parent (front ++ d.flatten parent front.length).length rest).2 ++ back) := by
        simpa using laid
      have later := mirrorsAll_of_laid rest _ back laidRest part
      rw [List.length_append, length_flatten] at later
      rw [show front.length + i = front.length + d.size + (i - d.size) by omega]
      exact later

end

/-- The node with a number stands for the part with this number. -/
theorem mirrors_toTree {d d' : Derivation} {n : Nat} (part : d.parts[n]? = some d') :
    Mirrors d.toTree n d' := by
  have laid : d.toTree.nodes.toList = [] ++ (d.flatten none ([] : List Node).length ++ []) := by
    simp [toTree]
  have here := mirrors_of_laid d [] [] laid part
  rwa [List.length_nil, Nat.zero_add] at here

theorem exists_part {d : Derivation} {n : Nat} (inside : n < d.toTree.size) :
    ∃ d' ∈ d.parts, Mirrors d.toTree n d' := by
  rw [size_toTree, ← length_parts] at inside
  have part := List.getElem?_eq_getElem inside
  exact ⟨d.parts[n], List.getElem_mem inside, mirrors_toTree part⟩

/-! ### Numbers of children -/

theorem flattenAll_ascending (ds : List Derivation) (parent : Option Nat) (id : Nat) :
    (flattenAll parent id ds).1.Pairwise (· < ·) ∧ ∀ n ∈ (flattenAll parent id ds).1, id ≤ n := by
  induction ds generalizing id with
  | nil => exact ⟨.nil, fun n member => (List.not_mem_nil member).elim⟩
  | cons d rest ih =>
    obtain ⟨ascending, later⟩ := ih (id + (d.flatten parent id).length)
    have some_ : 0 < (d.flatten parent id).length := by
      obtain ⟨kind, span, children⟩ := d
      simp [flatten]
    rw [flattenAll]
    refine ⟨List.pairwise_cons.2 ⟨fun n member => ?_, ascending⟩, fun n member => ?_⟩
    · have := later n member
      omega
    · rcases List.mem_cons.1 member with rfl | member
      · exact Nat.le_refl _
      · have := later n member
        omega

mutual

theorem children_flatten_ascending (d : Derivation) (parent : Option Nat) (id : Nat) :
    ∀ n ∈ d.flatten parent id, n.children.Pairwise (· < ·) := by
  intro n member
  cases d with
  | node kind span children =>
    rw [flatten] at member
    rcases List.mem_cons.1 member with rfl | member
    · exact (flattenAll_ascending children (some id) (id + 1)).1
    · exact children_flattenAll_ascending children _ _ n member

theorem children_flattenAll_ascending (ds : List Derivation) (parent : Option Nat) (id : Nat) :
    ∀ n ∈ (flattenAll parent id ds).2, n.children.Pairwise (· < ·) := by
  intro n member
  cases ds with
  | nil => cases member
  | cons d rest =>
    simp only [flattenAll, List.mem_append] at member
    exact member.elim (children_flatten_ascending d _ _ n)
      (children_flattenAll_ascending rest _ _ n)

end

/-- The children of a node have ascending numbers. -/
theorem childrenOf_ascending (d : Derivation) (p : Nat) :
    (d.toTree.childrenOf p).Pairwise (· < ·) := by
  rw [SyntaxTree.childrenOf]
  cases node : d.toTree.node? p with
  | none => exact .nil
  | some n =>
    rw [SyntaxTree.node?, toTree, ← Array.getElem?_toList] at node
    exact children_flatten_ascending d none 0 n (List.mem_of_getElem? node)

theorem nodup_terminals_toTree (d : Derivation) : d.toTree.terminals.Nodup := by
  rw [SyntaxTree.terminals, preorder_toTree]
  exact List.nodup_range.filter _

end Derivation

namespace Grammar

theorem nodup_terminals_parse (text : String) : (parse text).tree.terminals.Nodup :=
  Derivation.nodup_terminals_toTree _

end Grammar

end GrammarIndex
