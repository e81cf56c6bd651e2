import GrammarIndex.Proofs.Tree.Grown
import Mathlib.Data.List.Flatten
import Mathlib.Data.List.Nodup
import Mathlib.Data.List.Range

/-!
The order in which a walk meets the nodes of a tree.

The walk keeps a stack. What it has listed, followed by the branches of the nodes on the stack, is
the same list after every turn, so at the end it has listed the branch of the root. A branch is a
node and then the branches of its children; it holds the node and its descendants, each once.
-/
open scoped List

namespace GrammarIndex.SyntaxTree

/-! ### The loops -/

/-- The walk over a tree, for some turns: the nodes listed so far, and those that wait on a stack.
In a turn the node on top is listed and its children are put on the stack, the last one first. It is
`none` when the turns run out before the stack is empty. -/
def walk (t : SyntaxTree) : (turns : Nat) → (order stack : List Nat) → Option (List Nat)
  | _, order, [] => some order
  | 0, _, _ :: _ => none
  | turns + 1, order, n :: stack =>
    t.walk turns (order ++ [n]) ((t.childrenOf n).reverse.foldl (fun stack c => c :: stack) stack)

/-- The climb from a node to the nearest node that stands for `rule`, for some turns. The outer
`none` says that the turns ran out. -/
def climb (t : SyntaxTree) (rule : RuleName) : (turns : Nat) → Option Nat → Option (Option Nat)
  | _, none => some none
  | 0, some _ => none
  | turns + 1, some n =>
    if t.rule? n = some rule then some (some n) else t.climb rule turns (t.parent? n)

/-! ### What a complete walk is -/

/-- A node stands before another in a list. -/
def Precedes (order : List Nat) (n m : Nat) : Prop := [n, m] <+ order

/-- A list of the nodes of a tree in preorder: each once and before its descendants, who follow it
without a gap; and all that is within a child before what is within a later child. -/
structure Traversal (t : SyntaxTree) (order : List Nat) : Prop where
  once : order.Perm (List.range t.size)
  ancestorFirst : ∀ n a, t.Below n a → Precedes order a n
  block : ∀ a < t.size, ∃ front below back,
    order = front ++ a :: (below ++ back) ∧ ∀ n, n ∈ below ↔ t.Below n a
  siblings : ∀ p c c', Precedes (t.childrenOf p) c c' →
    ∀ n n', t.Within n c → t.Within n' c' → Precedes order n n'

/-! ### Branches -/

/-- A node and its descendants, as they are listed. -/
def branch (t : SyntaxTree) (n : Nat) : List Nat := t.preorderFrom t.size n

section

variable {t : SyntaxTree}

theorem Rooted.child_range (rooted : t.Rooted) {n p : Nat} (child : n ∈ t.childrenOf p) :
    p < n ∧ n < t.size := by
  have up := (rooted.linked n p).1 child
  exact ⟨rooted.older n p up, lt_size_of_parent? up⟩

/-- More levels than there are younger nodes show nothing new. -/
theorem Rooted.preorderFrom_succ (rooted : t.Rooted) (depth : Nat) {n : Nat}
    (deep : t.size ≤ n + depth + 1) : t.preorderFrom (depth + 1) n = t.preorderFrom depth n := by
  induction depth generalizing n with
  | zero =>
    have childless : t.childrenOf n = [] := by
      apply List.eq_nil_iff_forall_not_mem.2
      intro c child
      have := rooted.child_range child
      omega
    simp [preorderFrom, childless]
  | succ depth ih =>
    rw [preorderFrom, preorderFrom]
    congr 1
    apply List.flatMap_congr
    intro c child
    have := rooted.child_range child
    apply ih
    omega

/-- A branch is its node, then the branches of the children in order. -/
theorem Rooted.branch_eq (rooted : t.Rooted) (n : Nat) :
    t.branch n = n :: (t.childrenOf n).flatMap t.branch := by
  obtain ⟨s, size⟩ : ∃ s, t.size = s + 1 := ⟨t.size - 1, by have := rooted.inhabited; omega⟩
  unfold branch
  rw [size, preorderFrom]
  congr 1
  apply List.flatMap_congr
  intro c child
  have := rooted.child_range child
  apply (rooted.preorderFrom_succ s _).symm
  omega

/-- What holds of a node once it holds of its children holds of all nodes. -/
theorem Rooted.induction (rooted : t.Rooted) {P : Nat → Prop}
    (step : ∀ n, (∀ c ∈ t.childrenOf n, P c) → P n) (n : Nat) : P n := by
  induction younger : t.size - n using Nat.strongRecOn generalizing n with
  | ind left ih =>
    apply step
    intro c child
    have := rooted.child_range child
    exact ih (t.size - c) (by omega) c rfl

/-- A branch holds a node and its descendants. -/
theorem Rooted.mem_branch_iff (rooted : t.Rooted) {n a : Nat} :
    n ∈ t.branch a ↔ t.Within n a := by
  constructor
  · induction a using rooted.induction with
    | step a ih =>
      rw [rooted.branch_eq]
      intro member
      rcases List.mem_cons.1 member with rfl | below
      · exact .refl
      · obtain ⟨c, child, below⟩ := List.mem_flatMap.1 below
        exact (ih c child below).tail ((rooted.linked c a).1 child)
  · intro within
    induction within with
    | refl =>
      rw [rooted.branch_eq]
      exact List.mem_cons_self
    | tail _ up ih =>
      rw [rooted.branch_eq]
      apply List.mem_cons_of_mem
      exact List.mem_flatMap.2 ⟨_, (rooted.linked _ _).2 up, ih⟩

/-- What comes behind its node in a branch are the descendants. -/
theorem Rooted.mem_below_iff (rooted : t.Rooted) {n a : Nat} :
    n ∈ (t.childrenOf a).flatMap t.branch ↔ t.Below n a := by
  rw [List.mem_flatMap, Below, Relation.TransGen.tail'_iff]
  simp only [rooted.mem_branch_iff, rooted.linked, Within, and_comm]

/-- No node comes twice in a branch: numbers grow on the way down, and branches of different
children have no node in common. -/
theorem Rooted.nodup_branch (rooted : t.Rooted) (a : Nat) : (t.branch a).Nodup := by
  induction a using rooted.induction with
  | step a ih =>
    rw [rooted.branch_eq, List.nodup_cons, List.nodup_flatMap]
    refine ⟨fun member => ?_, ih, ?_⟩
    · exact Nat.lt_irrefl a (rooted.lt_of_below (rooted.mem_below_iff.1 member))
    · apply (rooted.ascending a).imp_of_mem
      intro c c' child child' earlier n left right
      have same := rooted.eq_of_within (rooted.mem_branch_iff.1 left)
        (rooted.mem_branch_iff.1 right) ((rooted.linked c a).1 child)
        ((rooted.linked c' a).1 child')
      omega

/-- The branch of a node is a stretch of the branch of any node above it. -/
theorem Rooted.branch_infix (rooted : t.Rooted) {n a : Nat} (within : t.Within n a) :
    t.branch n <:+: t.branch a := by
  induction within with
  | refl => exact List.infix_rfl
  | @tail b a _ up ih =>
    have child := (rooted.linked b a).2 up
    rw [rooted.branch_eq a]
    exact ih.trans ((List.infix_flatMap_of_mem child t.branch).trans (List.suffix_cons _ _).isInfix)

/-! ### The walk -/

theorem Rooted.perm_preorder (rooted : t.Rooted) : t.preorder.Perm (List.range t.size) := by
  apply (List.perm_ext_iff_of_nodup (rooted.nodup_branch 0) List.nodup_range).2
  intro n
  rw [rooted.mem_branch_iff, List.mem_range]
  constructor
  · intro within
    rcases within_iff.1 within with rfl | below
    · exact rooted.inhabited
    · exact lt_size_of_below below
  · exact rooted.within_root n

theorem Rooted.traversal_preorder (rooted : t.Rooted) : t.Traversal t.preorder where
  once := rooted.perm_preorder
  ancestorFirst n a below := by
    have inside : a < t.size := Nat.lt_trans (rooted.lt_of_below below) (lt_size_of_below below)
    have stretch := rooted.branch_infix (rooted.within_root a inside)
    rw [rooted.branch_eq a] at stretch
    have behind := List.singleton_sublist.2 (rooted.mem_below_iff.2 below)
    exact (behind.cons_cons a).trans stretch.sublist
  block a inside := by
    obtain ⟨front, back, whole⟩ := rooted.branch_infix (rooted.within_root a inside)
    refine ⟨front, (t.childrenOf a).flatMap t.branch, back, ?_, fun n => rooted.mem_below_iff⟩
    rw [rooted.branch_eq a, List.append_assoc] at whole
    exact whole.symm
  siblings p c c' ordered n n' left right := by
    have child : c ∈ t.childrenOf p := ordered.subset (by simp)
    have inside : p < t.size := by
      have := rooted.child_range child
      omega
    have stretch := rooted.branch_infix (rooted.within_root p inside)
    rw [rooted.branch_eq p] at stretch
    have branches : t.branch c ++ t.branch c' <+ (t.childrenOf p).flatMap t.branch := by
      simpa using ordered.flatMap t.branch
    have pair : [n] ++ [n'] <+ t.branch c ++ t.branch c' :=
      (List.singleton_sublist.2 (rooted.mem_branch_iff.2 left)).append
        (List.singleton_sublist.2 (rooted.mem_branch_iff.2 right))
    exact pair.trans (branches.trans ((List.sublist_cons_self _ _).trans stretch.sublist))

/-- What is listed, followed by the branches on the stack, is what the walk will have listed. -/
theorem Rooted.walk_eq (rooted : t.Rooted) (turns : Nat) (order stack : List Nat)
    (enough : (stack.flatMap t.branch).length ≤ turns) :
    t.walk turns order stack = some (order ++ stack.flatMap t.branch) := by
  induction turns generalizing order stack with
  | zero =>
    cases stack with
    | nil => simp [walk]
    | cons n stack =>
      rw [List.flatMap_cons, rooted.branch_eq] at enough
      simp at enough
  | succ turns ih =>
    cases stack with
    | nil => simp [walk]
    | cons n stack =>
      -- One turn takes the node off its branch and leaves the branches of its children.
      have pushed : (t.childrenOf n).reverse.foldl (fun stack c => c :: stack) stack =
          t.childrenOf n ++ stack := by simp
      have left : (n :: stack).flatMap t.branch =
          n :: (t.childrenOf n ++ stack).flatMap t.branch := by
        rw [List.flatMap_cons, rooted.branch_eq, List.flatMap_append, List.cons_append]
      rw [left, List.length_cons] at enough
      rw [walk, pushed, ih _ _ (by omega), left, List.append_assoc]
      rfl

/-- Numbers fall on the way up, so a climb has not more turns than the number it starts from. -/
theorem Rooted.climb_eq (rooted : t.Rooted) (rule : RuleName) (turns steps : Nat) (n : Nat)
    (enough : ∀ p, t.parent? n = some p → p < turns ∧ p < steps) :
    t.climb rule turns (t.parent? n) = some (t.ancestorWithin rule (steps + 1) n) := by
  induction steps generalizing turns n with
  | zero =>
    cases up : t.parent? n with
    | none => simp [climb, ancestorWithin, up]
    | some p => exact absurd (enough p up).2 (Nat.not_lt_zero p)
  | succ steps ih =>
    cases up : t.parent? n with
    | none => simp [climb, ancestorWithin, up]
    | some p =>
      obtain ⟨early, late⟩ := enough p up
      obtain ⟨turns, rfl⟩ : ∃ turns', turns = turns' + 1 := ⟨turns - 1, by omega⟩
      rw [climb, ancestorWithin, up]
      by_cases found : t.rule? p = some rule
      · simp only [if_pos found]
      · simp only [if_neg found]
        apply ih
        intro q further
        have := rooted.older _ _ further
        omega

end

/-- However a tree is grown, the walk ends and has listed every node once, each before its
descendants, who come right behind it, child by child. The climb to an ancestor ends, and a sibling
leads back by the same distance. -/
theorem preorder_complete {t : SyntaxTree} (grown : Grown t) :
    (∀ turns, t.size ≤ turns → t.walk turns [] [0] = some t.preorder) ∧
      t.Traversal t.preorder ∧
      (∀ n rule turns, t.size ≤ turns →
        t.climb rule turns (t.parent? n) = some (t.ancestor? n rule)) ∧
      ∀ n m delta, t.sibling? n delta = some m → t.sibling? m (-delta) = some n := by
  have rooted := grown.rooted
  have length : t.preorder.length = t.size := by
    simpa using rooted.perm_preorder.length_eq
  refine ⟨fun turns enough => ?_, rooted.traversal_preorder, fun n rule turns enough => ?_,
    fun n m delta => rooted.sibling_back⟩
  · have listed : [0].flatMap t.branch = t.preorder := List.flatMap_singleton _ _
    rw [rooted.walk_eq turns [] [0] (by rw [listed]; omega), listed]
    rfl
  · obtain ⟨steps, size⟩ : ∃ steps, t.size = steps + 1 :=
      ⟨t.size - 1, by have := rooted.inhabited; omega⟩
    rw [ancestor?, size]
    apply rooted.climb_eq
    intro p up
    have := rooted.older _ _ up
    have := lt_size_of_parent? up
    omega

/-- A tree whose nodes were not appended in preorder. -/
def interleaved : SyntaxTree :=
  let tree := (leaf .grammarSpec).push 0 (.rule .parserRuleSpec) ⟨0, 1⟩
  let tree := (tree.push 0 (.rule .lexerRuleSpec) ⟨2, 5⟩).push 1 (.terminal .ruleRef "a") ⟨0, 1⟩
  let tree := (tree.push 2 (.terminal .tokenRef "B") ⟨3, 4⟩).push 1 (.terminal .colon ":") ⟨1, 2⟩
  tree.setSpan 1 ⟨0, 2⟩

/-- The two children of the first rule come before the second rule, though one of them was appended
last; it leads to its sibling and back, and up to the root. -/
theorem preorder_complete_interleaved :
    Grown interleaved ∧ interleaved.walk 6 [] [0] = some [0, 1, 3, 5, 2, 4] ∧
      Traversal interleaved [0, 1, 3, 5, 2, 4] ∧
      interleaved.climb .grammarSpec 6 (interleaved.parent? 5) = some (some 0) ∧
      interleaved.sibling? 3 1 = some 5 ∧ interleaved.sibling? 5 (-1) = some 3 := by
  have grown : Grown interleaved := by
    apply Grown.setSpan
    iterate 5 refine Grown.push ?_ (by decide +kernel) _ _
    exact Grown.leaf _
  have order : interleaved.preorder = [0, 1, 3, 5, 2, 4] := by decide +kernel
  have next : interleaved.sibling? 3 1 = some 5 := by decide +kernel
  have up : interleaved.ancestor? 5 .grammarSpec = some 0 := by decide +kernel
  obtain ⟨walks, traversal, climbs, back⟩ := preorder_complete grown
  rw [order] at traversal
  exact ⟨grown, by rw [walks 6 (by decide +kernel), order], traversal,
    by rw [climbs 5 _ 6 (by decide +kernel), up], next, back 3 5 1 next⟩

end GrammarIndex.SyntaxTree
