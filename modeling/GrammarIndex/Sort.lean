/-!
Sorting by a key, by insertion.

Elements with one key keep their order. The recursion is on the list alone, so that sorted lists can
be computed inside proofs.
-/
namespace GrammarIndex

variable {α κ : Type} [Ord κ]

/-- Put an element before the first one whose key is not below its own. -/
def insertOn (key : α → κ) (a : α) : List α → List α
  | [] => [a]
  | b :: l => if compare (key a) (key b) != .gt then a :: b :: l else b :: insertOn key a l

/-- Sort by a key. -/
def sortOn (key : α → κ) (l : List α) : List α := l.foldr (insertOn key) []

theorem insertOn_perm (key : α → κ) (a : α) (l : List α) : (insertOn key a l).Perm (a :: l) := by
  induction l with
  | nil => exact .refl _
  | cons b l ih =>
    rw [insertOn]
    split
    · exact .refl _
    · exact (ih.cons b).trans (.swap a b l)

theorem sortOn_perm (key : α → κ) (l : List α) : (sortOn key l).Perm l := by
  induction l with
  | nil => exact .nil
  | cons a l ih => exact (insertOn_perm key a _).trans (ih.cons a)

theorem mem_sortOn {key : α → κ} {a : α} {l : List α} : a ∈ sortOn key l ↔ a ∈ l :=
  (sortOn_perm key l).mem_iff

theorem pairwise_insertOn [Std.TransOrd κ] {key : α → κ} {a : α} {l : List α}
    (sorted : l.Pairwise fun b c => compare (key b) (key c) ≠ .gt) :
    (insertOn key a l).Pairwise fun b c => compare (key b) (key c) ≠ .gt := by
  induction l with
  | nil => simp [insertOn]
  | cons b l ih =>
    obtain ⟨lower, sortedRest⟩ := List.pairwise_cons.1 sorted
    rw [insertOn]
    split
    · next first =>
      rw [bne_iff_ne] at first
      refine List.pairwise_cons.2 ⟨fun c member => ?_, sorted⟩
      rcases List.mem_cons.1 member with rfl | later
      · exact first
      · have bound := lower c later
        exact Ordering.isLE_iff_ne_gt.1 (Std.TransCmp.isLE_trans
          (Ordering.isLE_iff_ne_gt.2 first) (Ordering.isLE_iff_ne_gt.2 bound))
    · next second =>
      refine List.pairwise_cons.2 ⟨fun c member => ?_, ih sortedRest⟩
      rcases List.mem_cons.1 ((insertOn_perm key a l).mem_iff.1 member) with rfl | later
      · have upper : compare (key c) (key b) = .gt := by simpa using second
        rw [Std.OrientedCmp.lt_of_gt upper]
        decide
      · exact lower c later

theorem pairwise_sortOn [Std.TransOrd κ] (key : α → κ) (l : List α) :
    (sortOn key l).Pairwise fun b c => compare (key b) (key c) ≠ .gt := by
  induction l with
  | nil => exact .nil
  | cons a l ih => exact pairwise_insertOn ih

/-! ### Sorting what other elements became -/

section Map

variable {β : Type} (f : α → β) (key : β → κ)

theorem map_insertOn (a : α) (l : List α) :
    (insertOn (key ∘ f) a l).map f = insertOn key (f a) (l.map f) := by
  induction l with
  | nil => rfl
  | cons b l ih =>
    rw [insertOn, List.map_cons, insertOn, Function.comp_apply, Function.comp_apply]
    split
    · rfl
    · rw [List.map_cons, ih]

theorem map_sortOn (l : List α) : (sortOn (key ∘ f) l).map f = sortOn key (l.map f) := by
  induction l with
  | nil => rfl
  | cons a l ih => exact (map_insertOn f key a _).trans (congrArg (insertOn key (f a)) ih)

end Map

end GrammarIndex
