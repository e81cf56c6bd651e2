import GrammarIndex.Engine
import GrammarIndex.Proofs.Binding.References

/-!
Whose edges there are.

The two directions of the graph agree in this: an edge that is found from the file it leads to is
also kept with the file that it belongs to. So clearing a file finds all of its edges, and only
indexed files have any.
-/
namespace GrammarIndex

namespace DependencyGraph

/-- Edges are kept with the files that they belong to, and these are indexed. -/
structure Sourced (files : PathTable FileState) (g : DependencyGraph) : Prop where
  kept : ∀ p q, g.Refers p q → (g.dependenciesOf p).contains q = true
  indexed : ∀ p q, g.Refers p q → files.contains p = true

theorem sourced_empty (files : PathTable FileState) : empty.Sourced files where
  kept _ _ present := by cases present
  indexed _ _ present := by cases present

theorem Sourced.mono {files files' : PathTable FileState} {g : DependencyGraph}
    (sourced : g.Sourced files) (grows : ∀ p, files.contains p = true → files'.contains p = true) :
    g.Sourced files' :=
  ⟨sourced.kept, fun p q refers => grows p (sourced.indexed p q refers)⟩

/-- Recording an edge of an indexed file. -/
theorem Sourced.record {files : PathTable FileState} {g : DependencyGraph}
    (sourced : g.Sourced files) {file : Path} (present : files.contains file = true) (on : Path) :
    (g.record file on).Sourced files := by
  refine ⟨fun p q refers => ?_, fun p q refers => ?_⟩
  · rw [contains_dependenciesOf_record]
    refine ((refers_record g file on p q).1 refers).imp ?_ (sourced.kept p q)
    exact fun ⟨apart, there, here⟩ => ⟨apart, here, there⟩
  · rcases (refers_record g file on p q).1 refers with ⟨_, _, same⟩ | old
    · rw [Table.contains, PathTable.get?_congr files same]
      exact present
    · exact sourced.indexed p q old

/-- Clearing a file takes away all of its edges and no other. -/
theorem Sourced.clear {files : PathTable FileState} {g : DependencyGraph} (sourced : g.Sourced files)
    (file : Path) : (g.clear file).Sourced files ∧
      ∀ p q, (g.clear file).Refers p q → p.components ≠ file.components := by
  have left := refers_clear_iff sourced.kept file
  refine ⟨⟨fun p q refers => ?_, fun p q refers => ?_⟩, fun p q refers => ((left p q).1 refers).1⟩
  · obtain ⟨other, old⟩ := (left p q).1 refers
    exact (contains_dependenciesOf_clear g file p q).2 ⟨other, sourced.kept p q old⟩
  · exact sourced.indexed p q refers.of_clear

end DependencyGraph

/-- What is forgotten has no edges any more. -/
theorem Index.sourced_forget {x : Index} (p : Path) (sourced : x.graph.Sourced x.files) :
    (x.forget p).1.graph.Sourced (x.forget p).1.files := by
  unfold Index.forget
  cases x.files.get? p with
  | none => exact sourced
  | some state =>
    obtain ⟨cleared, others⟩ := sourced.clear p
    refine ⟨cleared.kept, fun q r refers => ?_⟩
    show Table.contains (Table.erase x.files p) q = true
    rw [Table.contains, PathTable.get?_erase, if_neg (others q r refers)]
    exact cleared.indexed q r refers

/-! ### Resolving references -/

namespace Binding

variable {files : PathTable FileState} {p : Path} (present : files.contains p = true)

include present

theorem sourced_dependOn {g : DependencyGraph} (sourced : g.Sourced files) (st : ScopeStore)
    (id : Nat) : (dependOn st p g id).Sourced files := by
  unfold dependOn
  split
  · next q _ => exact sourced.record present q
  · exact sourced

/-- Resolving the references of an indexed file brings edges of this file only. -/
theorem sourced_bindReferences {g : DependencyGraph} (sourced : g.Sourced files) (st : ScopeStore)
    (d : Dialect) (parsed : Parsed) (scope : Nat) (r : BindingRecord) :
    (bindReferences st d parsed p scope r g).2.Sourced files := by
  have run : ∀ (nodes : List Nat) (acc : BindingRecord × DependencyGraph), acc.2.Sourced files →
      (nodes.foldl (bindReference st d parsed.tree p scope) acc).2.Sourced files := by
    intro nodes
    induction nodes with
    | nil => exact fun _ sourced => sourced
    | cons n nodes ih =>
      rintro ⟨r, g⟩ sourced
      refine ih _ ?_
      rw [bindReference_eq]
      cases referenceAt d parsed.tree r.defs n with
      | none => exact sourced
      | some c =>
        cases st.resolve? scope (parsed.tree.textOf n) with
        | none => exact sourced
        | some direct => exact sourced_dependOn present (sourced_dependOn present sourced st _) st _
  exact run parsed.tree.terminals ({ r with refs := ∅, resolved := ∅, unresolved := ∅ }, g.clear p)
    (sourced.clear p).1

end Binding

end GrammarIndex
