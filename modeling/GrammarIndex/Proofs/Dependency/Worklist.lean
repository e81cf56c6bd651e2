import GrammarIndex.Proofs.Dependency
import Mathlib.Logic.Relation

/-!
The search for the files that depend on a file, directly or through others.

A search keeps a list of files whose dependents are still to be met. It takes a file off the list,
meets its dependents one after the other and puts those that are new on the list. The order in which
it meets them is left open and may be another one each time.

Whatever a search has found depends on the file; and when the list is empty, nothing that depends on
it is left out. Each file on the list but the first was found by a link of its own, so no search
goes on for ever.
-/
namespace GrammarIndex.DependencyGraph

/-- A file refers into another, directly or through others. -/
def DependsOn (g : DependencyGraph) : Path → Path → Prop := Relation.TransGen g.Refers

theorem DependsOn.congr {g : DependencyGraph} {p p' q : Path} (depends : g.DependsOn p q)
    (same : p.components = p'.components) : g.DependsOn p' q := by
  rcases Relation.TransGen.head'_iff.1 depends with ⟨r, first, rest⟩
  exact Relation.TransGen.head' (first.congr same rfl) rest

/-! ### Steps -/

/-- The files whose dependents are still to be met, the next one first, and the files found. -/
structure Search where
  waiting : List Path
  found : PathSet

namespace Search

/-- How the search for the files that depend on a file starts. -/
def start (file : Path) : Search := ⟨[file], ∅⟩

/-- Meet a dependent: a new one is found and comes onto the list, the file itself never. -/
def meet (file : Path) (s : Search) (p : Path) : Search :=
  if p.same file || s.found.contains p then s else ⟨p :: s.waiting, OrderedSet.add s.found p⟩

end Search

/-- One step of a search: the next file is taken off the list, its dependents are met in some
order. -/
def Looks (g : DependencyGraph) (file : Path) (s s' : Search) : Prop :=
  ∃ (current : Path) (waiting order : List Path), s.waiting = current :: waiting ∧
    order.Perm (OrderedSet.toList (g.dependentsOf current)) ∧
    s' = order.foldl (Search.meet file) ⟨waiting, s.found⟩

/-- The files of a list that are new to a search. -/
def freshAmong (file : Path) (found : PathSet) (order : List Path) : List Path :=
  order.filter fun p => !p.same file && !found.contains p

theorem mem_freshAmong {file : Path} {found : PathSet} {order : List Path} {p : Path} :
    p ∈ freshAmong file found order ↔
      p ∈ order ∧ p.components ≠ file.components ∧ found.contains p = false := by
  rw [freshAmong, List.mem_filter]
  simp [← Path.same_iff]

/-- Meeting different files puts those on the list that were new before. -/
theorem foldl_meet {file : Path} {order : List Path}
    (different : order.Pairwise fun p q => p.components ≠ q.components) (waiting : List Path)
    (found : PathSet) :
    order.foldl (Search.meet file) ⟨waiting, found⟩ =
      ⟨(freshAmong file found order).reverse ++ waiting,
        OrderedSet.addAll found (freshAmong file found order)⟩ := by
  induction order generalizing waiting found with
  | nil => rfl
  | cons p order ih =>
    obtain ⟨others, different⟩ := List.pairwise_cons.1 different
    have first : freshAmong file found (p :: order) =
        if p.same file || found.contains p then freshAmong file found order
        else p :: freshAmong file found order := by
      rw [freshAmong, List.filter_cons, ← Bool.not_or, ← freshAmong]
      cases p.same file || found.contains p <;> rfl
    rw [List.foldl_cons, Search.meet, first]
    cases p.same file || found.contains p with
    | true => exact ih different _ _
    | false =>
      -- What comes after `p` is none of its spellings, so it is as new as it was.
      have alike : freshAmong file (OrderedSet.add found p) order =
          freshAmong file found order := by
        refine List.filter_congr fun q listed => ?_
        have same : (OrderedSet.add found p).contains q = found.contains q := by
          rw [Bool.eq_iff_iff, PathSet.contains_add, or_iff_right (others q listed).symm]
        rw [same]
      simp only [Bool.false_eq_true, if_false]
      rw [ih different, alike, List.reverse_cons, List.append_assoc]
      rfl

variable {g : DependencyGraph} {file : Path} {s s' : Search}

/-- What a step does, whatever the order is. -/
theorem Looks.eq (looks : g.Looks file s s') :
    ∃ current waiting order, s = ⟨current :: waiting, s.found⟩ ∧
      order.Perm (OrderedSet.toList (g.dependentsOf current)) ∧
      s' = ⟨(freshAmong file s.found order).reverse ++ waiting,
        OrderedSet.addAll s.found (freshAmong file s.found order)⟩ := by
  obtain ⟨listed, found⟩ := s
  obtain ⟨current, waiting, order, rfl, all, rfl⟩ := looks
  have different : order.Pairwise fun p q => p.components ≠ q.components :=
    (PathSet.pairwise_toList _).perm all.symm fun apart => Ne.symm apart
  exact ⟨current, waiting, order, rfl, all, foldl_meet different _ _⟩

/-- Dependents can always be met in path order. -/
theorem looks_sorted (g : DependencyGraph) (file current : Path) (waiting : List Path)
    (found : PathSet) :
    let order := OrderedSet.toList (g.dependentsOf current)
    g.Looks file ⟨current :: waiting, found⟩
      ⟨(freshAmong file found order).reverse ++ waiting,
        OrderedSet.addAll found (freshAmong file found order)⟩ :=
  ⟨current, waiting, _, rfl, .refl _, (foldl_meet (PathSet.pairwise_toList _) _ _).symm⟩

/-! ### What is found -/

/-- How a search stands: what is found depends on the file, and a file whose dependents are not all
found is on the list. -/
structure Searched (g : DependencyGraph) (file : Path) (s : Search) : Prop where
  sound : ∀ p, s.found.contains p = true → p.components ≠ file.components ∧ g.DependsOn p file
  waits : ∀ p ∈ s.waiting, p.components = file.components ∨ s.found.contains p = true
  closed : ∀ p, p.components = file.components ∨ s.found.contains p = true →
    (∃ r ∈ s.waiting, p.components = r.components) ∨
      ∀ q, g.Refers q p → q.components = file.components ∨ s.found.contains q = true

theorem searched_start (g : DependencyGraph) (file : Path) : g.Searched file (.start file) where
  sound _ none_ := by cases none_
  waits p member := .inl (by rw [List.mem_singleton.1 member])
  closed p start := by
    rcases start with same | none_
    · exact .inl ⟨file, List.mem_singleton.2 rfl, same⟩
    · cases none_

/-- A step, in whatever order the dependents are met. -/
theorem Looks.searched (looks : g.Looks file s s') (searched : g.Searched file s) :
    g.Searched file s' := by
  obtain ⟨current, waiting, order, split, all, rfl⟩ := looks.eq
  generalize s.found = found at split ⊢
  subst split
  have grows : ∀ {p}, found.contains p = true →
      (OrderedSet.addAll found (freshAmong file found order)).contains p = true :=
    fun was => (PathSet.contains_addAll _ _ _).2 (.inl was)
  have refers : ∀ {p}, p ∈ freshAmong file found order → g.Refers p current := fun fresh =>
    PathSet.contains_iff_mem_toList.2 ⟨_, all.mem_iff.1 (mem_freshAmong.1 fresh).1, rfl⟩
  refine ⟨fun p member => ?_, fun p member => ?_, fun p member => ?_⟩
  · rcases (PathSet.contains_addAll _ _ _).1 member with was | ⟨q, fresh, same⟩
    · exact searched.sound p was
    · rw [same]
      refine ⟨(mem_freshAmong.1 fresh).2.1, DependsOn.congr ?_ same.symm⟩
      rcases searched.waits current (by simp) with first | was
      · exact .single ((refers fresh).congr rfl first)
      · exact .head (refers fresh) (searched.sound current was).2
  · rcases List.mem_append.1 member with fresh | old
    · exact .inr ((PathSet.contains_addAll _ _ _).2 (.inr ⟨p, List.mem_reverse.1 fresh, rfl⟩))
    · exact (searched.waits p (by simp [old])).imp id grows
  · -- The dependents of the file that was looked at are found now, and what is new is on the list.
    have looked : ∀ {p}, p.components = current.components → ∀ q, g.Refers q p →
        q.components = file.components ∨
          (OrderedSet.addAll found (freshAmong file found order)).contains q = true := by
      intro p here q uses
      obtain ⟨r, listed, same⟩ := PathSet.contains_iff_mem_toList.1 (uses.congr rfl here)
      by_cases back : q.components = file.components
      · exact .inl back
      · refine .inr ?_
        cases was : Table.contains found q with
        | true => exact grows was
        | false =>
          refine (PathSet.contains_addAll _ _ _).2
            (.inr ⟨r, mem_freshAmong.2 ⟨all.mem_iff.2 listed, ?_, ?_⟩, same⟩)
          · rwa [← same]
          · rwa [← PathSet.contains_congr found same]
    have old : p.components = file.components ∨ found.contains p = true →
        (∃ r ∈ (freshAmong file found order).reverse ++ waiting, p.components = r.components) ∨
          ∀ q, g.Refers q p → q.components = file.components ∨
            (OrderedSet.addAll found (freshAmong file found order)).contains q = true := by
      intro before
      rcases searched.closed p before with ⟨r, listed, same⟩ | all
      · rcases List.mem_cons.1 listed with rfl | later
        · exact .inr (looked same)
        · exact .inl ⟨r, List.mem_append_right _ later, same⟩
      · exact .inr fun q uses => (all q uses).imp id grows
    rcases member with start | now
    · exact old (.inl start)
    · rcases (PathSet.contains_addAll _ _ _).1 now with was | ⟨q, fresh, same⟩
      · exact old (.inr was)
      · exact .inl ⟨q, List.mem_append_left _ (List.mem_reverse.2 fresh), same⟩

theorem searched_of_reached (reached : Relation.ReflTransGen (g.Looks file) (.start file) s) :
    g.Searched file s := by
  induction reached with
  | refl => exact searched_start g file
  | tail _ looks ih => exact looks.searched ih

/-- A search that has ended has found the files that depend on the file, other than itself. -/
theorem Searched.found_iff (searched : g.Searched file s) (ended : s.waiting = []) (p : Path) :
    s.found.contains p = true ↔ p.components ≠ file.components ∧ g.DependsOn p file := by
  refine ⟨searched.sound p, fun ⟨other, depends⟩ => ?_⟩
  have closed : ∀ q r, q.components = file.components ∨ s.found.contains q = true →
      g.Refers r q → r.components = file.components ∨ s.found.contains r = true :=
    fun q r reached uses =>
      ((searched.closed q reached).resolve_left (by simp [ended])) r uses
  refine Or.resolve_left ?_ other
  refine Relation.TransGen.head_induction_on depends ?_ ?_
  · exact fun uses => closed file _ (.inl rfl) uses
  · exact fun uses _ reached => closed _ _ reached uses

/-! ### The number of steps -/

/-- The members of all links, as often as they are linked. -/
def linked (g : DependencyGraph) : List Path := g.dependents.values.flatMap OrderedSet.toList

theorem length_linked (g : DependencyGraph) : g.linked.length = linkCount g.dependents := by
  unfold linked linkCount
  induction g.dependents.values with
  | nil => rfl
  | cons set sets ih =>
    rw [List.flatMap_cons, List.length_append, ih, List.foldr_cons]
    congr 1
    exact List.length_map ..

/-- The links that lead to files not found yet. -/
def unfound (g : DependencyGraph) (found : PathSet) : Nat :=
  g.linked.countP fun p => !found.contains p

/-- What is picked from a list and what is left over afterwards were both there before. -/
theorem countP_add_countP_le {α : Type} {picked after before : α → Bool} (l : List α)
    (used : ∀ a ∈ l, picked a = true → before a = true ∧ after a = false)
    (fewer : ∀ a, after a = true → before a = true) :
    l.countP picked + l.countP after ≤ l.countP before := by
  induction l with
  | nil => simp
  | cons a l ih =>
    have rest := ih fun b member => used b (by simp [member])
    rw [List.countP_cons, List.countP_cons, List.countP_cons]
    by_cases pick : picked a = true
    · obtain ⟨was, gone⟩ := used a (by simp) pick
      simp only [pick, was, gone, if_true, Bool.false_eq_true, if_false]
      omega
    · rw [if_neg pick]
      split
      · next left_ =>
        rw [if_pos (fewer a left_)]
        omega
      · omega

/-- A step uses up a link for each file that it puts on the list. -/
theorem unfound_step {g : DependencyGraph} {current : Path} {order : List Path}
    (all : order.Perm (OrderedSet.toList (g.dependentsOf current))) (file : Path)
    (found : PathSet) :
    (freshAmong file found order).length +
        g.unfound (OrderedSet.addAll found (freshAmong file found order)) ≤
      g.unfound found := by
  generalize now : OrderedSet.addAll found (freshAmong file found order) = found'
  have fewer : ∀ p : Path, (!found'.contains p) = true → (!found.contains p) = true := by
    intro p absent
    rw [Bool.not_eq_true'] at absent ⊢
    refine Bool.eq_false_iff.2 fun was => Bool.eq_false_iff.1 absent ?_
    exact now ▸ (PathSet.contains_addAll _ _ _).2 (.inl was)
  have others : ∀ l : List Path, l.countP (fun p => !found'.contains p) ≤
      l.countP fun p => !found.contains p := fun l => List.countP_mono_left fun p _ => fewer p
  cases here : g.dependents.get? current with
  | none =>
    have none_ : order = [] := by
      rw [dependentsOf, here] at all
      exact all.eq_nil
    rw [none_, freshAmong, List.filter_nil, List.length_nil, Nat.zero_add]
    exact others _
  | some set =>
    -- The links of the file that is looked at are one block of all links.
    obtain ⟨front, back, split⟩ := List.append_of_mem (Table.mem_values_iff.2 ⟨current, here⟩)
    have block : order.Perm (OrderedSet.toList set) := by
      rwa [dependentsOf, here] at all
    have whole : (freshAmong file found order).length +
        (OrderedSet.toList set).countP (fun p => !found'.contains p) ≤
          (OrderedSet.toList set).countP fun p => !found.contains p := by
      rw [freshAmong, ← List.countP_eq_length_filter, block.countP_eq]
      refine countP_add_countP_le _ (fun p listed fresh => ⟨?_, ?_⟩) fewer
      · exact (Bool.and_eq_true _ _ ▸ fresh).2
      · have taken : Table.contains found' p = true := now ▸ (PathSet.contains_addAll _ _ _).2
          (.inr ⟨p, List.mem_filter.2 ⟨block.mem_iff.2 listed, fresh⟩, rfl⟩)
        rw [taken]
        rfl
    have first := others (front.flatMap OrderedSet.toList)
    have last := others (back.flatMap OrderedSet.toList)
    unfold unfound linked
    rw [split, List.flatMap_append, List.flatMap_cons]
    simp only [List.countP_append]
    omega

/-- The files on the list and the links to files not found yet. -/
def effort (g : DependencyGraph) (s : Search) : Nat := s.waiting.length + g.unfound s.found

theorem Looks.effort_lt (looks : g.Looks file s s') : g.effort s' < g.effort s := by
  obtain ⟨current, waiting, order, split, all, rfl⟩ := looks.eq
  have used := unfound_step all file s.found
  rw [split, effort, effort, List.length_append, List.length_reverse, List.length_cons]
  dsimp only
  omega

/-- No search goes on for ever. -/
theorem acc_looks (g : DependencyGraph) (file : Path) (s : Search) :
    Acc (fun s' s => g.Looks file s s') s :=
  Subrelation.accessible (fun looks => looks.effort_lt)
    (InvImage.accessible g.effort (Nat.lt_wfRel.wf.apply (g.effort s)))

end GrammarIndex.DependencyGraph
