import GrammarIndex.Proofs.Engine.Consistency
import GrammarIndex.Proofs.Engine.Standing

/-!
Names whose definitions are all new.

If every document of a directory that defines a name has to be bound, the first round hears all
definitions of the name, in path order and source order, and later rounds have nothing to say about
it. So the name comes to stand for the first real definition, or for the first of all.
-/
namespace GrammarIndex

theorem Compile.scopes_resolveAll (x : Index) (todo : List Path) :
    (resolveAll x todo).scopes = x.scopes := by
  induction todo generalizing x with
  | nil => rfl
  | cons p todo ih =>
    rw [resolveAll_cons, ih]
    cases x.files.get? p <;> rfl

/-- The terminals of a grammar text that define a name, in source order. -/
def Grammar.definersOf (text x : String) : List Nat :=
  Binding.definersOf Grammar.dialect (Grammar.parse text).tree x

theorem Grammar.mem_definersOf {text x : String} {n : Nat} :
    n ∈ definersOf text x ↔ n ∈ (parse text).tree.terminals ∧
      (dialect.definition? (parse text).tree ∅ n).isSome = true ∧
      (parse text).tree.textOf n = x := by
  rw [definersOf, Binding.definersOf, List.mem_filter, Bool.and_eq_true, beq_iff_eq]

/-- The text has a definition of the name that does more than announce it. -/
def Grammar.defines (text x : String) : Bool :=
  (definersOf text x).any (!isForward (parse text).tree ·)

theorem Grammar.find?_of_defines {text x : String} (real : defines text x = true) :
    ∃ m, (definersOf text x).find? (!isForward (parse text).tree ·) = some m := by
  cases found : (definersOf text x).find? (!isForward (parse text).tree ·) with
  | some m => exact ⟨m, rfl⟩
  | none =>
    obtain ⟨n, member, kind⟩ := List.any_eq_true.1 real
    exact absurd kind (List.find?_eq_none.1 found n member)

/-- The definitions of a name in the documents of a directory, in their order, as symbols of the
directory's scope. -/
def definitionsOf (docs : List Document) (dir : Path) (g : Nat) (x : String) : List Symbol :=
  docs.flatMap fun d =>
    if d.path.directory.components = dir.components then
      (Grammar.definersOf d.text x).filterMap
        (Binding.symbolAt Grammar.dialect (Grammar.parse d.text).tree d.path g)
    else []

namespace Engine

/-- A file that holds a symbol of the name defines it in its text. -/
theorem definersOf_ne_nil {s : FileState} {st : ScopeStore} {p : Path} (attached : s.Attached st p)
    {text : String} (read : ReadFrom s text) {id : Nat} {sym : Symbol}
    (live : st.symbol? id = some sym) (own : sym.OwnedBy p) :
    Grammar.definersOf text sym.name ≠ [] := by
  obtain ⟨n, c, q, terminal, _, _, defines, _, alike⟩ := attached.recorded.site live own
  rw [read.dialect, read.parsed] at defines
  rw [read.parsed] at terminal
  have name : (Grammar.parse text).tree.textOf n = sym.name := by
    rw [← read.parsed]
    exact alike.name
  refine List.ne_nil_of_mem (a := n) (List.mem_filter.2 ⟨terminal, ?_⟩)
  simp [defines, name]

/-- The names after a run are those after its rounds. -/
theorem scopes_compiled (e : Engine) : e.compiled.index.scopes = (Compile.runRounds
    ((Compile.readInto e.index e.dirtyDocuments).files.size + 1)
    ⟨Compile.readInto e.index e.dirtyDocuments, ∅⟩ (e.dirtyDocuments.map (·.path))).index.scopes :=
  Compile.scopes_resolveAll _ _

/-- A run that succeeds leaves the scopes of its last round. -/
theorem scopes_of_compile {e after : Engine} (consistent : e.Consistent) {paths : List Path}
    (success : e.compile = (after, .ok paths)) : after.index.scopes = (Compile.runRounds
      ((Compile.readInto e.index e.dirtyDocuments).files.size + 1)
      ⟨Compile.readInto e.index e.dirtyDocuments, ∅⟩ (e.dirtyDocuments.map (·.path))).index.scopes := by
  rw [← scopes_compiled]
  rcases cases_of_compile consistent success with ⟨none_, rfl⟩ | ⟨_, rfl, _⟩
  · rw [scopes_compiled, none_]
    rfl
  · rfl

section Compiled

variable {e : Engine} (consistent : e.Consistent) {dir : Path} {x : String}
  (dirty : ∀ d ∈ e.documents, d.path.directory.components = dir.components →
    Grammar.definersOf d.text x ≠ [] → d.dirty = true)

include consistent dirty

/-- The old symbols of the name belong to documents that have to be bound. -/
theorem owner_dirty {g : Nat} (home : e.index.scopes.byKey.get? dir = some g) {v : Standing}
    (stands : e.index.scopes.standing g x = some v) :
    ∃ p ∈ e.dirtyDocuments.map (·.path), v.first.OwnedBy p := by
  have sound := consistent.sound
  obtain ⟨id, s, live, name, place, bare⟩ := sound.symbol_of_standing stands (.inl rfl)
  obtain ⟨q, file, here⟩ := sound.exists_file_in home live place
  have own : s.OwnedBy q := Symbol.ownedBy_iff.2 ⟨q, file, rfl⟩
  obtain ⟨t, foundQ⟩ := Option.isSome_iff_exists.1 (consistent.filed id s q live file)
  obtain ⟨d, held⟩ := consistent.backed q t foundQ
  have path := Workspace.path_of_find? consistent.tidy held
  have mark : d.dirty = true := by
    cases mark : d.dirty with
    | true => rfl
    | false =>
      -- A clean document still has the definition, so it would have to be bound.
      have read := (consistent.settled q t d foundQ held mark).2
      rw [← Path.directory_congr path] at here
      have there := dirty d (Workspace.mem_documents_of_find? consistent.tidy held) here
        (name ▸ definersOf_ne_nil (consistent.attached q t foundQ) read live own)
      rw [mark] at there
      cases there
  obtain ⟨member, same⟩ := dirtyDocuments_of_dirty consistent held mark
  refine ⟨d.path, List.mem_map.2 ⟨d, member, rfl⟩, ?_⟩
  rw [bare]
  exact own.congr same

/-- A file that does not have to be bound has nothing to say about the name. -/
theorem definitionsIn_eq_nil (g : Nat) {p : Path}
    (apart : Compile.Apart p (e.dirtyDocuments.map (·.path))) :
    Compile.definitionsIn (Compile.readInto e.index e.dirtyDocuments) dir g x p = [] := by
  unfold Compile.definitionsIn
  split
  · next here =>
    rcases get?_read consistent p with ⟨d, member, _, same, _⟩ | ⟨clean, _, kept⟩
    · exact absurd same (apart d.path (List.mem_map.2 ⟨d, member, rfl⟩))
    · cases found : e.index.files.get? p with
      | none =>
        rw [found] at kept
        simp only [Index.reading?, kept, Option.map_none]
      | some s =>
        rw [found] at kept
        obtain ⟨d, held⟩ := consistent.backed p s found
        have read := (consistent.settled p s d found held (clean d held)).2
        have path := Workspace.path_of_find? consistent.tidy held
        have reading : (Compile.readInto e.index e.dirtyDocuments).reading? p =
            some (Grammar.dialect, Grammar.parse d.text) := by
          rw [Index.reading?, kept, Option.map_some, ← read.dialect, ← read.parsed]
          rfl
        have none_ : Grammar.definersOf d.text x = [] := by
          refine Classical.byContradiction fun some_ => ?_
          rw [← Path.directory_congr path] at here
          have mark := dirty d (Workspace.mem_documents_of_find? consistent.tidy held) here some_
          rw [clean d held] at mark
          cases mark
        rw [Grammar.definersOf] at none_
        simp only [reading, none_, List.filterMap_nil]
  · rfl

/-- What the first round hears about the name. -/
theorem flatMap_definitionsIn (g : Nat) :
    (e.dirtyDocuments.map (·.path)).flatMap
        (Compile.definitionsIn (Compile.readInto e.index e.dirtyDocuments) dir g x) =
      definitionsOf e.documents dir g x := by
  have say : ∀ d ∈ e.dirtyDocuments,
      Compile.definitionsIn (Compile.readInto e.index e.dirtyDocuments) dir g x d.path =
        if d.path.directory.components = dir.components then
          (Grammar.definersOf d.text x).filterMap
            (Binding.symbolAt Grammar.dialect (Grammar.parse d.text).tree d.path g)
        else [] := by
    intro d member
    rcases get?_read consistent d.path with ⟨d', member', held, _, found⟩ | ⟨_, away, _⟩
    · rw [((mem_dirtyDocuments consistent).1 member).1] at held
      cases held
      simp only [Compile.definitionsIn, Index.reading?, found, Option.map_some]
      rfl
    · exact absurd rfl (away d member)
  rw [List.flatMap_map, definitionsOf, List.flatMap_def, List.map_congr_left say, ← List.flatMap_def,
    dirtyDocuments]
  -- The documents that are left out say nothing.
  have silent : ∀ docs : List Document, (∀ d ∈ docs, d ∈ e.documents) →
      (docs.filter (·.dirty)).flatMap (fun d =>
        if d.path.directory.components = dir.components then
          (Grammar.definersOf d.text x).filterMap
            (Binding.symbolAt Grammar.dialect (Grammar.parse d.text).tree d.path g)
        else []) = docs.flatMap fun d =>
        if d.path.directory.components = dir.components then
          (Grammar.definersOf d.text x).filterMap
            (Binding.symbolAt Grammar.dialect (Grammar.parse d.text).tree d.path g)
        else [] := by
    intro docs listed
    induction docs with
    | nil => rfl
    | cons d docs ih =>
      have rest := ih fun d member => listed d (by simp [member])
      cases mark : d.dirty with
      | true => rw [List.filter_cons_of_pos mark, List.flatMap_cons, List.flatMap_cons, rest]
      | false =>
        rw [List.filter_cons_of_neg (by simp [mark]), List.flatMap_cons, rest]
        split
        · next here =>
          have none_ : Grammar.definersOf d.text x = [] := by
            refine Classical.byContradiction fun some_ => ?_
            rw [dirty d (listed d (by simp)) here some_] at mark
            cases mark
          rw [none_]
          rfl
        · rfl
  exact silent e.documents fun _ member => member

/-- After the run the name stands as its definitions were heard in order. -/
theorem standing_compiled (some_ : e.dirtyDocuments ≠ []) {g : Nat}
    (home : e.compiled.index.scopes.scopeFor? dir = some g) :
    e.compiled.index.scopes.standing g x =
      (definitionsOf e.documents dir g x).foldl Standing.hear none := by
  rw [scopes_compiled] at home ⊢
  rw [← flatMap_definitionsIn consistent dirty]
  exact Compile.standing_runRounds (fun g p => definitionsIn_eq_nil consistent dirty g)
    (midway_read consistent) (by simpa using some_)
    (fun g home v => owner_dirty consistent dirty home) home

end Compiled

end Engine

end GrammarIndex
