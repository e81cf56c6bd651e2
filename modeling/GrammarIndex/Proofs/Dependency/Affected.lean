import GrammarIndex.Proofs.Dependency.Directions
import GrammarIndex.Proofs.Dependency.Worklist

/-!
The files that depend on a file.

The search that meets dependents in path order comes to its end within the steps that it is given.
So it finds the files from which the file can be reached along edges, as every other search does.
-/
namespace GrammarIndex.DependencyGraph

/-- With enough steps, the search in path order is a search that comes to its end. -/
theorem looks_affectedFrom {g : DependencyGraph} {file : Path} (steps : Nat) {waiting : List Path}
    {found : PathSet} (enough : g.effort ⟨waiting, found⟩ ≤ steps) :
    Relation.ReflTransGen (g.Looks file) ⟨waiting, found⟩
      ⟨[], g.affectedFrom file steps waiting found⟩ := by
  induction steps generalizing waiting found with
  | zero =>
    obtain rfl : waiting = [] := List.length_eq_zero_iff.1 (by
      simp only [effort] at enough
      omega)
    exact .refl
  | succ steps ih =>
    cases waiting with
    | nil => exact .refl
    | cons current waiting =>
      have looks := looks_sorted g file current waiting found
      exact .head looks (ih (by have := looks.effort_lt; omega))

/-- The steps that a search is given are enough. -/
theorem looks_affected (g : DependencyGraph) (file : Path) :
    Relation.ReflTransGen (g.Looks file) (.start file) ⟨[], g.affected file⟩ := by
  have most : g.unfound ∅ ≤ linkCount g.dependents := by
    rw [← length_linked]
    exact List.countP_le_length
  refine looks_affectedFrom _ ?_
  show [file].length + g.unfound ∅ ≤ _
  rw [List.length_singleton]
  omega

/-- The files that a search finds are those that depend on the file, other than the file itself. -/
theorem affected_iff (g : DependencyGraph) (file p : Path) :
    (g.affected file).contains p = true ↔
      p.components ≠ file.components ∧ g.DependsOn p file :=
  (searched_of_reached (g.looks_affected file)).found_iff rfl p

/-- The edges along which a file depends on others are seen from either side. -/
theorem dependsOn_built (changes : List Change) (p q : Path) :
    (built changes).DependsOn p q ↔ Relation.TransGen
      (fun p q => ((built changes).dependenciesOf p).contains q = true) p q := by
  have holds := holds_built changes
  have same : (built changes).Refers =
      fun p q => ((built changes).dependenciesOf p).contains q = true :=
    funext fun p => funext fun q =>
      propext ((holds.incoming p q).trans (holds.outgoing p q).symm)
  rw [DependsOn, same]

/-- In a graph that any changes lead to: no search for the files that depend on a file goes on for
ever or stops before its list is empty, whatever the order in which dependents are met. When the
list is empty, it has found the other files from which the file can be reached along one or more
edges. The search in path order is such a search. -/
theorem search_built (changes : List Change) (file : Path) :
    let g := built changes
    let Reaches := Relation.TransGen fun p q => (g.dependenciesOf p).contains q = true
    Acc (fun s' s => g.Looks file s s') (.start file) ∧
      (∀ s : Search, s.waiting ≠ [] → ∃ s', g.Looks file s s') ∧
      (∀ s, Relation.ReflTransGen (g.Looks file) (.start file) s → s.waiting = [] →
        ∀ p, s.found.contains p = true ↔ p.components ≠ file.components ∧ Reaches p file) ∧
      Relation.ReflTransGen (g.Looks file) (.start file) ⟨[], g.affected file⟩ ∧
      ∀ p, (g.affected file).contains p = true ↔
        p.components ≠ file.components ∧ Reaches p file := by
  intro g Reaches
  have exact_ : ∀ s, Relation.ReflTransGen (g.Looks file) (.start file) s → s.waiting = [] →
      ∀ p, s.found.contains p = true ↔ p.components ≠ file.components ∧ Reaches p file := by
    intro s reached ended p
    rw [(searched_of_reached reached).found_iff ended p, dependsOn_built]
  refine ⟨g.acc_looks file _, fun ⟨waiting, found⟩ some_ => ?_, exact_, g.looks_affected file,
    exact_ _ (g.looks_affected file) rfl⟩
  obtain ⟨current, waiting, rfl⟩ := List.exists_cons_of_ne_nil some_
  exact ⟨_, g.looks_sorted file current waiting found⟩

/-- Some steps of the search that meets dependents in the opposite of path order. -/
def backwards (g : DependencyGraph) (file : Path) : Nat → Search → Search
  | 0, s => s
  | steps + 1, s =>
    match s.waiting with
    | [] => s
    | current :: waiting =>
      g.backwards file steps ((OrderedSet.toList (g.dependentsOf current)).reverse.foldl
        (Search.meet file) ⟨waiting, s.found⟩)

theorem looks_backwards (g : DependencyGraph) (file : Path) (steps : Nat) (s : Search) :
    Relation.ReflTransGen (g.Looks file) s (g.backwards file steps s) := by
  induction steps generalizing s with
  | zero => exact .refl
  | succ steps ih =>
    rw [backwards]
    split
    · exact .refl
    · next current waiting listed =>
      exact .head ⟨current, waiting, _, listed, List.reverse_perm _, rfl⟩ (ih _)

/-- Three files in a cycle, one more that leads into it and one whose edges are dropped. -/
def cyclic : List Change :=
  [.record (.of "g/a.g4") (.of "g/b.g4"), .record (.of "g/d.g4") (.of "g/b.g4"),
    .record (.of "g/e.g4") (.of "g/b.g4"), .record (.of "g/b.g4") (.of "g//c.g4"),
    .record (.of "g/c.g4") (.of "g/a.g4"), .remove (.of "g/./e.g4")]

/-- The search in the opposite order looks at other files first and finds the same ones. -/
theorem search_built_backwards :
    let g := built cyclic
    let file := Path.of "g/c.g4"
    let s := g.backwards file 4 (.start file)
    ((Search.start file).waiting ≠ [] ∧ ∃ s', g.Looks file (.start file) s') ∧
      (g.backwards file 2 (.start file)).waiting = [.of "g/a.g4", .of "g/d.g4"] ∧
      Relation.ReflTransGen (g.Looks file) (.start file) s ∧ s.waiting = [] ∧
      (∀ p, s.found.contains p = true ↔ p.components ≠ file.components ∧
        Relation.TransGen (fun p q => (g.dependenciesOf p).contains q = true) p file) ∧
      OrderedSet.toList s.found = [.of "g/a.g4", .of "g/b.g4", .of "g/d.g4"] := by
  intro g file s
  have reached := g.looks_backwards file 4 (.start file)
  have ended : s.waiting = [] := by decide +kernel
  have waits : (Search.start file).waiting ≠ [] := List.cons_ne_nil _ _
  obtain ⟨_, goesOn, found, _⟩ := search_built cyclic file
  exact ⟨⟨waits, goesOn _ waits⟩, by decide +kernel, reached, ended, found s reached ended,
    by decide +kernel⟩

end GrammarIndex.DependencyGraph
