import GrammarIndex.Proofs.Engine.SameDocuments

/-!
Workspaces in which names are unambiguous.

If no directory has two definitions of one name, then the document with the definition leads for the
name, whatever the order in which the documents came. So every index is orderly, and two engines
that are up to date with the same documents agree.
-/
namespace GrammarIndex

/-- The terminals of a text that define names. -/
def Grammar.definers (text : String) : List Nat :=
  (parse text).tree.terminals.filter fun n => (dialect.definition? (parse text).tree ∅ n).isSome

theorem Grammar.mem_definers_of_definersOf {text x : String} {n : Nat}
    (definer : n ∈ definersOf text x) : n ∈ definers text ∧ (parse text).tree.textOf n = x := by
  obtain ⟨terminal, defines, name⟩ := mem_definersOf.1 definer
  exact ⟨List.mem_filter.2 ⟨terminal, defines⟩, name⟩

namespace Engine

/-- In each directory, at most one terminal of the documents defines a name. -/
def Unambiguous (e : Engine) : Prop :=
  ∀ d ∈ e.documents, ∀ d' ∈ e.documents,
    d.path.directory.components = d'.path.directory.components →
    ∀ n ∈ Grammar.definers d.text, ∀ n' ∈ Grammar.definers d'.text,
      (Grammar.parse d.text).tree.textOf n = (Grammar.parse d'.text).tree.textOf n' →
        d.path.components = d'.path.components ∧ n = n'

instance (e : Engine) : Decidable e.Unambiguous := by
  delta Unambiguous
  infer_instance

theorem Unambiguous.of_contents {e e' : Engine} (unambiguous : e.Unambiguous)
    (same : ∀ c, c ∈ e'.contents → c ∈ e.contents) : e'.Unambiguous := by
  intro d' member' c' held' directory n definer m definer' text
  obtain ⟨d, member, path, textD⟩ := exists_document same member'
  obtain ⟨c, held, pathC, textC⟩ := exists_document same held'
  rw [← Path.directory_congr path, ← Path.directory_congr pathC] at directory
  rw [← textD] at definer text
  rw [← textC] at definer' text
  rw [← path, ← pathC]
  exact unambiguous d member c held directory n definer m definer' text

/-- Where names are unambiguous, the index is orderly. -/
theorem Fresh.orderly {before e : Engine} (fresh : Fresh before e) (unambiguous : e.Unambiguous)
    (dir : Path) (x : String) : e.Orderly dir x := by
  intro s live spelled d member _ own d' member' directory definers
  obtain ⟨id, live⟩ := ScopeStore.mem_symbols.1 live
  obtain ⟨state, found, settled, read⟩ := fresh.file_of_document member
  have definersD := definersOf_ne_nil settled.attached read live own
  rw [spelled] at definersD
  obtain ⟨n, definer⟩ := List.exists_mem_of_ne_nil _ definersD
  obtain ⟨n', definer'⟩ := List.exists_mem_of_ne_nil _ definers
  obtain ⟨listed, name⟩ := Grammar.mem_definers_of_definersOf definer
  obtain ⟨listed', name'⟩ := Grammar.mem_definers_of_definersOf definer'
  have path := (unambiguous d member d' member' directory.symm n listed n' listed'
    (name.trans name'.symm)).1
  refine ⟨?_, ?_⟩
  · rw [(Path.compare_eq_iff _ _).2 path]
    decide
  · rw [fresh.eq_of_path member member' path]
    exact fun real => real

/-- Engines that are up to date with the same documents agree. -/
theorem agree_of_fresh {before before' e e' : Engine} (fresh : Fresh before e)
    (fresh' : Fresh before' e') (unambiguous : e.Unambiguous)
    (same : ∀ c, c ∈ e.contents ↔ c ∈ e'.contents) : Agree e e' :=
  agree_of_orderly fresh fresh' same (fresh.orderly unambiguous)
    (fresh'.orderly (unambiguous.of_contents fun c => (same c).2))

end Engine

end GrammarIndex
