import GrammarIndex.Proofs.Tree
import Mathlib.Logic.Relation

/-!
Trees that are grown node by node.

A node is appended below any node that is there, so numbers need not follow the shape of the tree.
What growing keeps is that a parent is older than its children: numbers fall on the way up, and the
way down ends. Parents and lists of children tell the same links.
-/
namespace GrammarIndex.SyntaxTree

/-- The trees that are grown from a root by appending nodes below nodes that are there and by
setting spans, in any order. -/
inductive Grown : SyntaxTree → Prop where
  | leaf (root : RuleName) : Grown (leaf root)
  | push {t : SyntaxTree} (grown : Grown t) {parent : Nat} (here : parent < t.size)
      (kind : NodeKind) (span : Span) : Grown (t.push parent kind span)
  | setSpan {t : SyntaxTree} (grown : Grown t) (id : Nat) (span : Span) : Grown (t.setSpan id span)

/-- A node is a descendant of another. -/
def Below (t : SyntaxTree) : Nat → Nat → Prop :=
  Relation.TransGen fun n p => t.parent? n = some p

/-- A node is another or a descendant of it. -/
def Within (t : SyntaxTree) : Nat → Nat → Prop :=
  Relation.ReflTransGen fun n p => t.parent? n = some p

theorem within_iff {t : SyntaxTree} {n a : Nat} : t.Within n a ↔ n = a ∨ t.Below n a := by
  rw [Within, Relation.reflTransGen_iff_eq_or_transGen, eq_comm]
  rfl

/-- The links of a tree are told alike from both of their ends, and they lead from a node to an
older one. -/
structure Rooted (t : SyntaxTree) : Prop where
  inhabited : 0 < t.size
  above : ∀ n, 0 < n → n < t.size → ∃ p, t.parent? n = some p
  older : ∀ n p, t.parent? n = some p → p < n
  linked : ∀ n p, n ∈ t.childrenOf p ↔ t.parent? n = some p
  ascending : ∀ p, (t.childrenOf p).Pairwise (· < ·)

theorem lt_size_of_parent? {t : SyntaxTree} {n p : Nat} (up : t.parent? n = some p) :
    n < t.size := by
  obtain ⟨node, found, _⟩ := Option.bind_eq_some_iff.1 up
  exact (Array.getElem?_eq_some_iff.1 found).1

/-! ### What growing does to the links -/

section

variable (t : SyntaxTree) (root : RuleName) (parent id n : Nat) (kind : NodeKind) (span : Span)

theorem size_leaf : (leaf root).size = 1 := rfl

@[simp] theorem parent?_leaf : (leaf root).parent? n = none := by
  cases n <;> simp [leaf, parent?, node?]

@[simp] theorem childrenOf_leaf : (leaf root).childrenOf n = [] := by
  cases n <;> simp [leaf, childrenOf, node?]

@[simp] theorem size_push : (t.push parent kind span).size = t.size + 1 := by
  simp [size, push]

@[simp] theorem size_setSpan : (t.setSpan id span).size = t.size := by
  simp [size, setSpan]

theorem node?_push : (t.push parent kind span).node? n =
    if n = t.size then some ⟨kind, span, some parent, []⟩
    else (t.node? n).map fun node =>
      if parent = n then { node with children := node.children ++ [t.size] } else node := by
  simp only [node?, push, size, Array.getElem?_push, Array.size_modify, Array.getElem?_modify]
  congr 1
  split <;> cases t.nodes[n]? <;> rfl

theorem node?_setSpan : (t.setSpan id span).node? n =
    (t.node? n).map fun node => if id = n then { node with span } else node := by
  simp only [node?, setSpan, Array.getElem?_modify]
  split <;> cases t.nodes[n]? <;> rfl

theorem parent?_push : (t.push parent kind span).parent? n =
    if n = t.size then some parent else t.parent? n := by
  rw [parent?, node?_push]
  split
  · rfl
  · rw [parent?]
    cases t.node? n with
    | none => rfl
    | some node => simp only [Option.map_some, Option.bind_some]; split <;> rfl

@[simp] theorem parent?_setSpan : (t.setSpan id span).parent? n = t.parent? n := by
  rw [parent?, parent?, node?_setSpan]
  cases t.node? n with
  | none => rfl
  | some node => simp only [Option.map_some, Option.bind_some]; split <;> rfl

@[simp] theorem childrenOf_setSpan : (t.setSpan id span).childrenOf n = t.childrenOf n := by
  rw [childrenOf, childrenOf, node?_setSpan]
  cases t.node? n with
  | none => rfl
  | some node => simp only [Option.map_some, Option.getD_some]; split <;> rfl

end

theorem childrenOf_push {t : SyntaxTree} {parent : Nat} (here : parent < t.size) (n : Nat)
    (kind : NodeKind) (span : Span) : (t.push parent kind span).childrenOf n =
      if n = parent then t.childrenOf n ++ [t.size] else t.childrenOf n := by
  rw [childrenOf, childrenOf, node?_push]
  by_cases new : n = t.size
  · have apart : n ≠ parent := by omega
    have absent : t.node? n = none := Array.getElem?_eq_none (Nat.le_of_eq new.symm)
    rw [if_pos new, if_neg apart, absent]
    rfl
  · rw [if_neg new]
    by_cases same : n = parent
    · subst same
      have found : t.node? n = some t.nodes[n] := Array.getElem?_eq_getElem here
      simp only [if_true, found, Option.map_some, Option.getD_some]
    · simp only [if_neg same, if_neg (Ne.symm same), Option.map_id']

/-! ### What growing keeps -/

theorem rooted_leaf (root : RuleName) : (leaf root).Rooted where
  inhabited := Nat.one_pos
  above n later inside := absurd later (by rw [size_leaf] at inside; omega)
  older n p up := by simp at up
  linked n p := by simp
  ascending p := by simp

theorem Rooted.push {t : SyntaxTree} (rooted : t.Rooted) {parent : Nat} (here : parent < t.size)
    (kind : NodeKind) (span : Span) : (t.push parent kind span).Rooted where
  inhabited := by
    rw [size_push]
    exact Nat.succ_pos _
  above n later inside := by
    rw [size_push] at inside
    rw [parent?_push]
    split
    · exact ⟨parent, rfl⟩
    · exact rooted.above n later (by omega)
  older n p up := by
    rw [parent?_push] at up
    split at up
    · cases up
      omega
    · exact rooted.older n p up
  linked n p := by
    -- The new number is in no list yet: it has no parent before.
    have fresh : t.size ∉ t.childrenOf p := by
      rw [rooted.linked]
      intro up
      exact Nat.lt_irrefl _ (lt_size_of_parent? up)
    rw [childrenOf_push here, parent?_push]
    by_cases new : n = t.size
    · subst new
      by_cases same : p = parent
      · simp [same]
      · simp [same, fresh, Ne.symm same]
    · rw [if_neg new, ← rooted.linked n p]
      split
      · simp [new]
      · rfl
  ascending p := by
    rw [childrenOf_push here]
    split
    · apply List.pairwise_append.2
      refine ⟨rooted.ascending p, List.pairwise_singleton _ _, fun n child m last => ?_⟩
      rw [List.mem_singleton.1 last]
      exact lt_size_of_parent? ((rooted.linked n p).1 child)
    · exact rooted.ascending p

theorem Rooted.setSpan {t : SyntaxTree} (rooted : t.Rooted) (id : Nat) (span : Span) :
    (t.setSpan id span).Rooted := by
  obtain ⟨inhabited, above, older, linked, ascending⟩ := rooted
  constructor <;> simpa

/-- However a tree is grown, its links are in order. -/
theorem Grown.rooted {t : SyntaxTree} (grown : Grown t) : t.Rooted := by
  induction grown with
  | leaf root => exact rooted_leaf root
  | push _ here kind span ih => exact ih.push here kind span
  | setSpan _ id span ih => exact ih.setSpan id span

/-! ### Ways up -/

section

variable {t : SyntaxTree}

/-- A node is as old as what is within it, or older. -/
theorem Rooted.le_of_within (rooted : t.Rooted) {n a : Nat} (within : t.Within n a) : a ≤ n := by
  induction within with
  | refl => exact Nat.le_refl _
  | tail _ up ih =>
    have := rooted.older _ _ up
    omega

theorem Rooted.lt_of_below (rooted : t.Rooted) {n a : Nat} (below : t.Below n a) : a < n := by
  obtain ⟨p, up, rest⟩ := Relation.TransGen.head'_iff.1 below
  have above := rooted.older _ _ up
  have := rooted.le_of_within rest
  omega

theorem lt_size_of_below {n a : Nat} (below : t.Below n a) : n < t.size := by
  obtain ⟨p, up, _⟩ := Relation.TransGen.head'_iff.1 below
  exact lt_size_of_parent? up

/-- Every node is within the root. -/
theorem Rooted.within_root (rooted : t.Rooted) (n : Nat) (inside : n < t.size) : t.Within n 0 := by
  induction n using Nat.strongRecOn with
  | ind n ih =>
    rcases Nat.eq_zero_or_pos n with rfl | later
    · exact .refl
    · obtain ⟨p, up⟩ := rooted.above n later inside
      have := rooted.older n p up
      exact .head up (ih p this (by omega))

/-- No node is within two children of one node. -/
theorem Rooted.eq_of_within (rooted : t.Rooted) {n c c' p : Nat} (left : t.Within n c)
    (right : t.Within n c') (up : t.parent? c = some p) (up' : t.parent? c' = some p) : c = c' := by
  -- Only one way leads up from `n`, so one child would be on the way up from the other.
  have single : Relator.RightUnique fun n p => t.parent? n = some p := by
    intro n p p' one other
    exact Option.some.inj (one.symm.trans other)
  have apart : ∀ {x y : Nat}, t.parent? x = some p → t.parent? y = some p → t.Within x y → x = y := by
    intro x y upX upY within
    rcases within_iff.1 within with same | below
    · exact same
    · obtain ⟨q, first, rest⟩ := Relation.TransGen.head'_iff.1 below
      obtain rfl : p = q := single upX first
      have above := rooted.le_of_within rest
      have := rooted.older _ _ upY
      omega
  rcases Relation.ReflTransGen.total_of_right_unique single left right with within | within
  · exact apart up up' within
  · exact (apart up' up within).symm

end

/-! ### Siblings -/

/-- Going back as far leads to the node one came from. -/
theorem Rooted.sibling_back {t : SyntaxTree} (rooted : t.Rooted) {n m : Nat} {delta : Int}
    (found : t.sibling? n delta = some m) : t.sibling? m (-delta) = some n := by
  obtain ⟨p, i, up, place, inside, there⟩ := exists_of_sibling? found
  obtain ⟨here, same, _⟩ := List.findIdx?_eq_some_iff_getElem.1 place
  have child : (t.childrenOf p)[i]? = some n := by
    rw [List.getElem?_eq_getElem here]
    simpa using same
  have upThere := (rooted.linked m p).1 (List.mem_of_getElem? there)
  rw [sibling?_of_child (rooted.ascending p) upThere there]
  have back : ((((i : Int) + delta).toNat : Int) + -delta) = i := by omega
  rw [back, if_neg (by omega)]
  exact child

end GrammarIndex.SyntaxTree
