import GrammarIndex.Proofs.Binding.References

/-!
Edges within directories.

A reference leads into the directory of its file or to a built-in name, so every edge joins two files
of one directory. Resolving the references of a file then changes edges in its own directory only.
-/
namespace GrammarIndex

namespace DependencyGraph

/-- Every edge joins two files of one directory, in whichever direction it is looked up. -/
structure Local (g : DependencyGraph) : Prop where
  outgoing : ∀ p q, (g.dependenciesOf p).contains q = true →
    p.directory.components = q.directory.components
  incoming : ∀ p q, (g.dependentsOf q).contains p = true →
    p.directory.components = q.directory.components

/-- Two graphs have the same edges from and to a file. -/
structure SameEdges (f : Path) (g g' : DependencyGraph) : Prop where
  outgoing : g'.dependenciesOf f = g.dependenciesOf f
  incoming : g'.dependentsOf f = g.dependentsOf f

theorem SameEdges.refl (f : Path) (g : DependencyGraph) : SameEdges f g g := ⟨rfl, rfl⟩

theorem SameEdges.trans {f : Path} {g mid g' : DependencyGraph} (first : SameEdges f g mid)
    (second : SameEdges f mid g') : SameEdges f g g' :=
  ⟨second.outgoing.trans first.outgoing, second.incoming.trans first.incoming⟩

theorem local_empty : empty.Local where
  outgoing _ _ present := by cases present
  incoming _ _ present := by cases present

/-! ### Recording -/

theorem Local.record {g : DependencyGraph} (inside : g.Local) {file on : Path}
    (same : file.directory.components = on.directory.components) : (g.record file on).Local := by
  refine ⟨fun p q present => ?_, fun p q present => ?_⟩
  · rcases (contains_dependenciesOf_record g file on p q).1 present with ⟨_, left, right⟩ | before
    · rw [Path.directory_congr left, same, Path.directory_congr right]
    · exact inside.outgoing p q before
  · rcases (refers_record g file on p q).1 present with ⟨_, left, right⟩ | before
    · rw [Path.directory_congr left, ← same, Path.directory_congr right]
    · exact inside.incoming p q before

theorem get?_link_of_ne {t : PathTable PathSet} {k f : Path} (other : f.components ≠ k.components)
    (member : Path) : (link t k member).get? f = t.get? f := by
  rw [link, PathTable.get?_insert, if_neg other]

theorem sameEdges_record (g : DependencyGraph) {file on f : Path}
    (other : f.components ≠ file.components) (otherOn : f.components ≠ on.components) :
    SameEdges f g (g.record file on) := by
  unfold record
  split
  · exact .refl f g
  · refine ⟨?_, ?_⟩
    · simp only [dependenciesOf, get?_link_of_ne other]
    · simp only [dependentsOf, get?_link_of_ne otherOn]

/-! ### Clearing -/

theorem get?_unlink_of_ne {t : PathTable PathSet} {k f : Path}
    (other : f.components ≠ k.components) (member : Path) :
    (unlink t k member).get? f = t.get? f := by
  unfold unlink
  cases t.get? k with
  | none => rfl
  | some set =>
    dsimp only
    split
    · rw [PathTable.get?_erase, if_neg other]
    · rw [PathTable.get?_insert, if_neg other]

theorem get?_foldl_unlink {file f : Path} (targets : List Path) {t : PathTable PathSet}
    (others : ∀ target ∈ targets, f.components ≠ target.components) :
    (targets.foldl (fun t target => unlink t target file) t).get? f = t.get? f := by
  induction targets generalizing t with
  | nil => rfl
  | cons target targets ih =>
    rw [List.foldl_cons, ih fun target member => others target (by simp [member]),
      get?_unlink_of_ne (others target (by simp))]

theorem Local.clear {g : DependencyGraph} (inside : g.Local) (file : Path) :
    (g.clear file).Local where
  outgoing p q present :=
    inside.outgoing p q ((contains_dependenciesOf_clear g file p q).1 present).2
  incoming p q present := inside.incoming p q (Refers.of_clear present)

/-- Clearing a file leaves the edges of other directories alone. -/
theorem Local.sameEdges_clear {g : DependencyGraph} (inside : g.Local) {file f : Path}
    (away : f.directory.components ≠ file.directory.components) : SameEdges f g (g.clear file) := by
  unfold DependencyGraph.clear
  cases found : g.dependencies.get? file with
  | none => exact .refl f g
  | some targets =>
    refine ⟨?_, ?_⟩
    · simp only [dependenciesOf, PathTable.get?_erase]
      rw [if_neg fun same => away (Path.directory_congr same)]
    · simp only [dependentsOf]
      rw [get?_foldl_unlink]
      intro target listed same
      have edge : (g.dependenciesOf file).contains target = true := by
        rw [dependenciesOf, found, Option.getD_some]
        exact PathSet.contains_iff_mem_toList.2 ⟨target, listed, rfl⟩
      exact away ((Path.directory_congr same).trans (inside.outgoing file target edge).symm)

end DependencyGraph

/-! ### Resolving references -/

namespace Binding

open DependencyGraph (SameEdges)

variable {d : Dialect} {tree : SyntaxTree} {p f : Path} {scope : Nat} {st : ScopeStore}
  {g : DependencyGraph}

/-- What a name stands for, seen from the scope of a directory, belongs to a file there, if it
belongs to a file. -/
theorem directory_of_resolved (core : st.Core) {dir : Path} (home : st.byKey.get? dir = some scope)
    {x : String} {id j : Nat} (resolved : st.resolve? scope x = some id)
    (either : j = id ∨ j = st.follow id) {q : Path}
    (file : (st.symbol? j).bind Symbol.file? = some q) :
    dir.components = q.directory.components := by
  -- The name is bound in the scope itself or above, and what it stands for lives in the same scope.
  obtain ⟨s, live, _, place⟩ := core.symbol_of_resolve? home resolved
  obtain ⟨t, liveT, fileT⟩ := Option.bind_eq_some_iff.1 file
  have same : t.scope = s.scope := by
    rcases either with rfl | rfl
    · rw [live] at liveT
      cases liveT
      rfl
    · obtain ⟨t', liveT', _, placeT, _⟩ := ScopeStore.live_follow core live
      rw [liveT] at liveT'
      cases liveT'
      exact placeT
  rcases place with here | above
  · refine core.layered.distinct _ _ scope home ?_
    rw [← here, ← same]
    exact core.homed j t q liveT fileT
  · rw [core.file?_of_global liveT (same.trans above)] at fileT
    cases fileT

theorem local_dependOn (inside : g.Local) {id : Nat}
    (near : ∀ q, (st.symbol? id).bind Symbol.file? = some q →
      p.directory.components = q.directory.components) :
    (dependOn st p g id).Local ∧
      (f.directory.components ≠ p.directory.components → SameEdges f g (dependOn st p g id)) := by
  unfold dependOn
  split
  · next q file =>
    have same := near q file
    refine ⟨inside.record same, fun away => ?_⟩
    refine DependencyGraph.sameEdges_record g (fun equal => away (Path.directory_congr equal)) ?_
    exact fun equal => away ((Path.directory_congr equal).trans same.symm)
  · exact ⟨inside, fun _ => .refl f g⟩

theorem local_bindReference (core : st.Core) (home : st.byKey.get? p.directory = some scope)
    (inside : g.Local) (r : BindingRecord) (n : Nat) :
    (bindReference st d tree p scope (r, g) n).2.Local ∧
      (f.directory.components ≠ p.directory.components →
        SameEdges f g (bindReference st d tree p scope (r, g) n).2) := by
  rw [bindReference_eq]
  cases referenceAt d tree r.defs n with
  | none => exact ⟨inside, fun _ => .refl f g⟩
  | some c =>
    cases resolved : st.resolve? scope (tree.textOf n) with
    | none => exact ⟨inside, fun _ => .refl f g⟩
    | some direct =>
      obtain ⟨first, same⟩ := local_dependOn (f := f) inside fun _ =>
        directory_of_resolved core home resolved (.inl rfl)
      obtain ⟨second, same'⟩ := local_dependOn (f := f) first fun _ =>
        directory_of_resolved core home resolved (.inr rfl)
      exact ⟨second, fun away => (same away).trans (same' away)⟩

/-- Resolving the references of a file changes edges in its directory only. -/
theorem local_bindReferences (core : st.Core) (home : st.byKey.get? p.directory = some scope)
    (inside : g.Local) (parsed : Parsed) (r : BindingRecord) :
    (bindReferences st d parsed p scope r g).2.Local ∧
      (f.directory.components ≠ p.directory.components →
        SameEdges f g (bindReferences st d parsed p scope r g).2) := by
  have run : ∀ (nodes : List Nat) (r : BindingRecord) {g : DependencyGraph}, g.Local →
      (nodes.foldl (bindReference st d parsed.tree p scope) (r, g)).2.Local ∧
        (f.directory.components ≠ p.directory.components →
          SameEdges f g (nodes.foldl (bindReference st d parsed.tree p scope) (r, g)).2) := by
    intro nodes
    induction nodes with
    | nil => exact fun _ g inside => ⟨inside, fun _ => .refl f g⟩
    | cons n nodes ih =>
      intro r g inside
      have first := @local_bindReference d parsed.tree p f scope st g core home inside r n
      rw [List.foldl_cons]
      generalize bindReference st d parsed.tree p scope (r, g) n = out at first ⊢
      obtain ⟨r', g'⟩ := out
      obtain ⟨rest, same⟩ := ih r' first.1
      exact ⟨rest, fun away => (first.2 away).trans (same away)⟩
  obtain ⟨rest, same⟩ := run parsed.tree.terminals { r with refs := ∅, resolved := ∅, unresolved := ∅ }
    (inside.clear p)
  exact ⟨rest, fun away => (inside.sameEdges_clear away).trans (same away)⟩

end Binding

end GrammarIndex
