import GrammarIndex.Proofs.Path
import GrammarIndex.Proofs.Table
import GrammarIndex.Workspace

/-!
Documents through what is found for a path.

In a tidy workspace every document is found under its path, whatever the project, and every
operation has one equation for what is found afterwards.
-/
namespace GrammarIndex.Workspace

/-- Documents are kept under their paths, and no path is in two projects. -/
structure Tidy (w : Workspace) : Prop where
  keyed : ∀ name docs, w.projects.get? name = some docs → ∀ p d, docs.get? p = some d →
    d.path.components = p.components
  apart : ∀ name docs name' docs', w.projects.get? name = some docs →
    w.projects.get? name' = some docs' → ∀ p, docs.contains p = true → docs'.contains p = true →
      name = name'

theorem tidy_empty : empty.Tidy where
  keyed name docs found := by cases found
  apart name docs name' docs' found := by cases found

section Find

variable {w : Workspace} (tidy : w.Tidy)

include tidy

theorem find?_eq_some_iff {p : Path} {d : Document} :
    w.find? p = some d ↔ ∃ name docs, w.projects.get? name = some docs ∧ docs.get? p = some d := by
  have exists_of : ∀ d, w.find? p = some d →
      ∃ name docs, w.projects.get? name = some docs ∧ docs.get? p = some d := by
    intro d found
    obtain ⟨docs, listed, here⟩ := List.exists_of_findSome?_eq_some found
    obtain ⟨name, held⟩ := Table.mem_values_iff.1 listed
    exact ⟨name, docs, held, here⟩
  refine ⟨exists_of d, ?_⟩
  rintro ⟨name, docs, held, here⟩
  cases found : w.find? p with
  | none =>
    have nowhere := List.findSome?_eq_none_iff.1 found docs (Table.mem_values_iff.2 ⟨name, held⟩)
    rw [here] at nowhere
    cases nowhere
  | some d' =>
    obtain ⟨name', docs', held', here'⟩ := exists_of d' found
    have same := tidy.apart name docs name' docs' held held' p (by rw [Table.contains, here]; rfl)
      (by rw [Table.contains, here']; rfl)
    subst same
    rw [held] at held'
    cases held'
    rw [here] at here'
    exact here'.symm

omit tidy in
theorem find?_congr (w : Workspace) {p q : Path} (same : p.components = q.components) :
    w.find? p = w.find? q := by
  unfold find?
  congr 1
  funext docs
  exact PathTable.get?_congr docs same

/-- A document is found under its own path. -/
theorem path_of_find? {p : Path} {d : Document} (found : w.find? p = some d) :
    d.path.components = p.components := by
  obtain ⟨name, docs, held, here⟩ := (find?_eq_some_iff tidy).1 found
  exact tidy.keyed name docs held p d here

theorem mem_documents_iff {d : Document} : d ∈ w.documents ↔ w.find? d.path = some d := by
  rw [documents, mem_sortOn, List.mem_flatMap, find?_eq_some_iff tidy]
  constructor
  · rintro ⟨docs, listed, here⟩
    obtain ⟨name, held⟩ := Table.mem_values_iff.1 listed
    obtain ⟨p, found⟩ := Table.mem_values_iff.1 here
    refine ⟨name, docs, held, ?_⟩
    rw [PathTable.get?_congr docs (tidy.keyed name docs held p d found), found]
  · rintro ⟨name, docs, held, here⟩
    exact ⟨docs, Table.mem_values_iff.2 ⟨name, held⟩, Table.mem_values_iff.2 ⟨d.path, here⟩⟩

theorem mem_documents_of_find? {p : Path} {d : Document} (found : w.find? p = some d) :
    d ∈ w.documents := by
  rw [mem_documents_iff tidy, find?_congr w (path_of_find? tidy found), found]

omit tidy in
/-- Documents come in path order. -/
theorem sorted_documents (w : Workspace) :
    w.documents.Pairwise fun d d' => compare d.path d'.path ≠ .gt :=
  pairwise_sortOn Document.path _

/-- No two documents have one path. -/
theorem pairwise_documents :
    w.documents.Pairwise fun d d' => d.path.components ≠ d'.path.components := by
  have inner : ∀ docs ∈ w.projects.values, docs.values.Pairwise fun d d' =>
      d.path.components ≠ d'.path.components := by
    intro docs listed
    obtain ⟨name, held⟩ := Table.mem_values_iff.1 listed
    refine List.pairwise_map.2 (docs.sorted.imp_of_mem fun {e e'} member member' lower same => ?_)
    have key := tidy.keyed name docs held e.1 e.2 (Table.get?_of_mem member)
    have key' := tidy.keyed name docs held e'.1 e'.2 (Table.get?_of_mem member')
    rw [(Path.compare_eq_iff _ _).2 (key.symm.trans (same.trans key'))] at lower
    cases lower
  have outer : w.projects.values.Pairwise fun docs docs' => ∀ d ∈ docs.values, ∀ d' ∈ docs'.values,
      d.path.components ≠ d'.path.components := by
    refine List.pairwise_map.2 (w.projects.sorted.imp_of_mem
      fun {e e'} member member' lower d here d' here' same => ?_)
    obtain ⟨p, found⟩ := Table.mem_values_iff.1 here
    obtain ⟨p', found'⟩ := Table.mem_values_iff.1 here'
    have key := tidy.keyed e.1 e.2 (Table.get?_of_mem member) p d found
    have key' := tidy.keyed e'.1 e'.2 (Table.get?_of_mem member') p' d' found'
    have names := tidy.apart e.1 e.2 e'.1 e'.2 (Table.get?_of_mem member)
      (Table.get?_of_mem member') p (by rw [Table.contains, found]; rfl) (by
        rw [Table.contains, PathTable.get?_congr e'.2 (key.symm.trans (same.trans key')), found']
        rfl)
    have same : compare e.1 e'.1 = .eq := by rw [names]; exact Std.ReflCmp.compare_self
    rw [same] at lower
    cases lower
  have all := List.pairwise_flatMap.2 ⟨inner, outer⟩
  exact ((sortOn_perm _ _).pairwise_iff (fun apart same => apart same.symm)).2 all

end Find

/-! ### The first project -/

theorem projectOf?_eq_some_iff {w : Workspace} (tidy : w.Tidy) {p : Path} {name : String} :
    w.projectOf? p = some name ↔
      ∃ docs, w.projects.get? name = some docs ∧ docs.contains p = true := by
  have exists_of : ∀ name, w.projectOf? p = some name →
      ∃ docs, w.projects.get? name = some docs ∧ docs.contains p = true := by
    intro name first
    obtain ⟨e, met, rfl⟩ := Option.map_eq_some_iff.1 first
    have inside := List.find?_some met
    exact ⟨e.2, Table.get?_of_mem (List.mem_of_find?_eq_some met), inside⟩
  refine ⟨exists_of name, ?_⟩
  rintro ⟨docs, project, inside⟩
  cases first : w.projectOf? p with
  | none =>
    have nowhere := List.find?_eq_none.1 (Option.map_eq_none_iff.1 first) (name, docs)
      (Table.get?_eq_some_iff.1 project)
    exact absurd inside nowhere
  | some name' =>
    obtain ⟨docs', project', inside'⟩ := exists_of name' first
    rw [tidy.apart name' docs' name docs project' project p inside' inside]

/-- A change that leaves documents without a path alone is one to all projects. -/
theorem projects_inFirst {w : Workspace} (tidy : w.Tidy) {p : Path}
    {f : PathTable Document → PathTable Document}
    (alone : ∀ docs, docs.contains p = false → f docs = docs) :
    (w.inFirst p f).projects = w.projects.mapValues fun _ docs => f docs := by
  have change : ∀ e ∈ w.projects.entries, e.2.contains p = false → (e.1, f e.2) = e :=
    fun e _ outside => by rw [alone e.2 outside]
  apply Table.ext
  unfold inFirst
  cases first : w.projectOf? p with
  | none =>
    have nowhere := List.find?_eq_none.1 (Option.map_eq_none_iff.1 first)
    refine (List.map_id _).symm.trans (List.map_congr_left fun e member => ?_)
    exact (change e member (Bool.eq_false_iff.2 (nowhere e member))).symm
  | some name =>
    obtain ⟨docs, project, inside⟩ := (projectOf?_eq_some_iff tidy).1 first
    refine List.map_congr_left fun e member => ?_
    by_cases same : name = e.1
    · simp [same]
    · have apart : ¬ compare name e.1 = .eq :=
        fun equal => same (Std.LawfulEqCmp.compare_eq_iff_eq.1 equal)
      simp only [if_neg apart]
      refine (change e member (Bool.eq_false_iff.2 fun inside' => same ?_)).symm
      exact tidy.apart name docs e.1 e.2 project (Table.get?_of_mem member) p inside inside'

theorem keyed?_of_absent {docs : PathTable Document} {p q : Path}
    (outside : docs.contains p = false) (same : q.components = p.components) :
    docs.keyed? q = none := by
  cases entry : docs.keyed? q with
  | none => rfl
  | some e =>
    have found := Table.map_keyed? docs q
    rw [entry, PathTable.get?_congr docs same] at found
    rw [Table.contains, ← found] at outside
    cases outside

theorem erase_of_absent {docs : PathTable Document} {p : Path} (outside : docs.contains p = false) :
    docs.erase p = docs := by
  apply Table.ext_keyed?
  intro q
  rw [PathTable.keyed?_erase]
  split
  · next same => exact (keyed?_of_absent outside same).symm
  · rfl

theorem modify_of_absent {docs : PathTable Document} {p : Path} (f : Document → Document)
    (outside : docs.contains p = false) : docs.modify p f = docs := by
  apply Table.ext_keyed?
  intro q
  rw [PathTable.keyed?_modify]
  split
  · next same => rw [keyed?_of_absent outside same, Option.map_none]
  · rfl

/-- Dropping a document, told of all projects. -/
theorem projects_remove {w : Workspace} (tidy : w.Tidy) (p : Path) : (w.remove p).projects =
    (w.projects.mapValues fun _ docs => docs.erase p).filter fun _ docs => !docs.isEmpty := by
  rw [remove, projects_inFirst tidy fun _ => erase_of_absent]

/-- Changing a document, told of all projects. -/
theorem projects_modify {w : Workspace} (tidy : w.Tidy) (p : Path) (f : Document → Document) :
    (w.modify p f).projects = w.projects.mapValues fun _ docs => docs.modify p f := by
  rw [modify, projects_inFirst tidy fun _ => modify_of_absent f]

/-! ### Changing a document -/

theorem project_modify {w : Workspace} (tidy : w.Tidy) (p : Path) (f : Document → Document)
    (name : String) (docs' : PathTable Document) :
    (w.modify p f).projects.get? name = some docs' ↔
      ∃ docs, w.projects.get? name = some docs ∧ docs.modify p f = docs' := by
  simp only [Table.get?_eq_some_iff, projects_modify tidy, Table.mapValues, List.mem_map,
    Prod.mk.injEq]
  constructor
  · rintro ⟨⟨n, docs⟩, entry, rfl, rfl⟩
    exact ⟨docs, entry, rfl⟩
  · rintro ⟨docs, entry, rfl⟩
    exact ⟨(name, docs), entry, rfl, rfl⟩

theorem get?_modify_docs (docs : PathTable Document) (p q : Path) (f : Document → Document) :
    (docs.modify p f).get? q =
      if q.components = p.components then (docs.get? q).map f else docs.get? q := by
  rw [Table.get?_modify]
  simp only [Path.compare_eq_iff]

theorem contains_modify_docs (docs : PathTable Document) (p q : Path) (f : Document → Document) :
    (docs.modify p f).contains q = docs.contains q := by
  rw [Table.contains, get?_modify_docs]
  split <;> simp [Table.contains]

theorem tidy_modify {w : Workspace} (tidy : w.Tidy) {p : Path} {f : Document → Document}
    (path : ∀ d, w.find? p = some d → (f d).path.components = p.components) :
    (w.modify p f).Tidy := by
  constructor
  · intro name docs' held' q d' here'
    obtain ⟨docs, held, rfl⟩ := (project_modify tidy p f name docs').1 held'
    rw [get?_modify_docs] at here'
    split at here'
    · next same =>
      obtain ⟨d, here, rfl⟩ := Option.map_eq_some_iff.1 here'
      rw [same]
      refine path d ?_
      rw [find?_eq_some_iff tidy]
      exact ⟨name, docs, held, by rw [← PathTable.get?_congr docs same, here]⟩
    · exact tidy.keyed name docs held q d' here'
  · intro name docs₁ name' docs₂ held₁ held₂ q inside inside'
    obtain ⟨docs, held, rfl⟩ := (project_modify tidy p f name docs₁).1 held₁
    obtain ⟨docs', held', rfl⟩ := (project_modify tidy p f name' docs₂).1 held₂
    rw [contains_modify_docs] at inside inside'
    exact tidy.apart name docs name' docs' held held' q inside inside'

theorem find?_modify {w : Workspace} (tidy : w.Tidy) {p : Path} {f : Document → Document}
    (path : ∀ d, w.find? p = some d → (f d).path.components = p.components) (q : Path) :
    (w.modify p f).find? q =
      if q.components = p.components then (w.find? q).map f else w.find? q := by
  apply Option.ext
  intro d'
  rw [find?_eq_some_iff (tidy_modify tidy path)]
  simp only [project_modify tidy]
  constructor
  · rintro ⟨name, _, ⟨docs, held, rfl⟩, here'⟩
    rw [get?_modify_docs] at here'
    split at here'
    · next same =>
      obtain ⟨d, here, rfl⟩ := Option.map_eq_some_iff.1 here'
      rw [if_pos same, (find?_eq_some_iff tidy).2 ⟨name, docs, held, here⟩]
      rfl
    · next other =>
      rw [if_neg other]
      exact (find?_eq_some_iff tidy).2 ⟨name, docs, held, here'⟩
  · intro found
    split at found
    · next same =>
      obtain ⟨d, found₀, rfl⟩ := Option.map_eq_some_iff.1 found
      obtain ⟨name, docs, held, here⟩ := (find?_eq_some_iff tidy).1 found₀
      exact ⟨name, _, ⟨docs, held, rfl⟩, by rw [get?_modify_docs, if_pos same, here]; rfl⟩
    · next other =>
      obtain ⟨name, docs, held, here⟩ := (find?_eq_some_iff tidy).1 found
      exact ⟨name, _, ⟨docs, held, rfl⟩, by rw [get?_modify_docs, if_neg other, here]⟩

/-! ### Dropping a document -/

theorem project_remove {w : Workspace} (tidy : w.Tidy) (p : Path) (name : String)
    (docs' : PathTable Document) : (w.remove p).projects.get? name = some docs' ↔
      docs'.isEmpty = false ∧ ∃ docs, w.projects.get? name = some docs ∧ docs.erase p = docs' := by
  simp only [Table.get?_eq_some_iff, projects_remove tidy, Table.filter, Table.mapValues,
    List.mem_filter, List.mem_map, Prod.mk.injEq, Bool.not_eq_true']
  constructor
  · rintro ⟨⟨⟨n, docs⟩, entry, rfl, rfl⟩, kept⟩
    exact ⟨kept, docs, entry, rfl⟩
  · rintro ⟨kept, docs, entry, rfl⟩
    exact ⟨⟨(name, docs), entry, rfl, rfl⟩, kept⟩

theorem tidy_remove {w : Workspace} (tidy : w.Tidy) (p : Path) : (w.remove p).Tidy := by
  have old : ∀ {docs : PathTable Document} {q : Path} {d : Document},
      (docs.erase p).get? q = some d → docs.get? q = some d :=
    fun here => (PathTable.get?_erase_eq_some.1 here).2
  constructor
  · intro name docs' held' q d here
    obtain ⟨_, docs, held, rfl⟩ := (project_remove tidy p name docs').1 held'
    exact tidy.keyed name docs held q d (old here)
  · intro name docs₁ name' docs₂ held₁ held₂ q inside inside'
    obtain ⟨_, docs, held, rfl⟩ := (project_remove tidy p name docs₁).1 held₁
    obtain ⟨_, docs', held', rfl⟩ := (project_remove tidy p name' docs₂).1 held₂
    obtain ⟨d, here⟩ := Option.isSome_iff_exists.1 inside
    obtain ⟨d', here'⟩ := Option.isSome_iff_exists.1 inside'
    exact tidy.apart name docs name' docs' held held' q (by rw [Table.contains, old here]; rfl)
      (by rw [Table.contains, old here']; rfl)

theorem find?_remove {w : Workspace} (tidy : w.Tidy) (p q : Path) :
    (w.remove p).find? q = if q.components = p.components then none else w.find? q := by
  apply Option.ext
  intro d
  rw [find?_eq_some_iff (tidy_remove tidy p)]
  simp only [project_remove tidy]
  constructor
  · rintro ⟨name, _, ⟨_, docs, held, rfl⟩, here⟩
    obtain ⟨other, here⟩ := PathTable.get?_erase_eq_some.1 here
    rw [if_neg other]
    exact (find?_eq_some_iff tidy).2 ⟨name, docs, held, here⟩
  · intro found
    split at found
    · cases found
    · next other =>
      obtain ⟨name, docs, held, here⟩ := (find?_eq_some_iff tidy).1 found
      have kept := PathTable.get?_erase_eq_some.2 ⟨other, here⟩
      refine ⟨name, _, ⟨?_, docs, held, rfl⟩, kept⟩
      obtain ⟨k, entry, _⟩ := Table.mem_of_get? kept
      cases empty : (docs.erase p).isEmpty with
      | false => rfl
      | true =>
        rw [Table.isEmpty, List.isEmpty_iff] at empty
        rw [empty] at entry
        cases entry

/-! ### Adding a document -/

theorem tidy_add {w : Workspace} (tidy : w.Tidy) (project : String) (d : Document) :
    (w.add project d).Tidy := by
  have rest := tidy_remove tidy d.path
  -- Without the path, no project holds it, so the one that takes it is the only one.
  have absent : ∀ name docs, (w.remove d.path).projects.get? name = some docs →
      ∀ q, docs.contains q = true → q.components ≠ d.path.components := by
    intro name docs held q inside same
    obtain ⟨_, docs₀, _, rfl⟩ := (project_remove tidy d.path name docs).1 held
    rw [Table.contains, PathTable.get?_erase, if_pos same] at inside
    cases inside
  have held_of : ∀ name docs', (w.add project d).projects.get? name = some docs' →
      (name = project ∧ ∃ docs, (∀ q e, docs.get? q = some e →
        (w.remove d.path).projects.get? project = some docs) ∧ docs' = docs.insert d.path d) ∨
      name ≠ project ∧ (w.remove d.path).projects.get? name = some docs' := by
    intro name docs' held'
    rw [add, Table.get?_insert_lawful] at held'
    split at held'
    · next same =>
      cases held'
      refine .inl ⟨same, _, ?_, rfl⟩
      intro q e here
      cases held : (w.remove d.path).projects.get? project with
      | none => rw [held] at here; cases here
      | some docs => rfl
    · next other => exact .inr ⟨other, held'⟩
  have inside_of : ∀ {docs : PathTable Document} {q : Path},
      (docs.insert d.path d).contains q = true →
      q.components = d.path.components ∨ docs.contains q = true := by
    intro docs q inside
    rw [Table.contains_insert, Path.compare_eq_iff] at inside
    exact inside
  constructor
  · intro name docs' held' q e here
    rcases held_of name docs' held' with ⟨rfl, docs, held, rfl⟩ | ⟨_, held⟩
    · rw [PathTable.get?_insert] at here
      split at here
      · next same =>
        cases here
        exact same.symm
      · exact rest.keyed name docs (held q e here) q e here
    · exact rest.keyed name docs' held q e here
  · intro name docs₁ name' docs₂ held₁ held₂ q inside inside'
    rcases held_of name docs₁ held₁ with ⟨rfl, docs, held, rfl⟩ | ⟨_, held⟩ <;>
      rcases held_of name' docs₂ held₂ with ⟨rfl, docs', held', rfl⟩ | ⟨_, held'⟩
    · rfl
    · rcases inside_of inside with same | inside
      · exact absurd same (absent name' docs₂ held' q inside')
      · obtain ⟨e, here⟩ := Option.isSome_iff_exists.1 inside
        exact rest.apart name docs name' docs₂ (held q e here) held' q inside inside'
    · rcases inside_of inside' with same | inside'
      · exact absurd same (absent name docs₁ held q inside)
      · obtain ⟨e, here⟩ := Option.isSome_iff_exists.1 inside'
        exact rest.apart name docs₁ name' docs' held (held' q e here) q inside inside'
    · exact rest.apart name docs₁ name' docs₂ held held' q inside inside'

theorem find?_add {w : Workspace} (tidy : w.Tidy) (project : String) (d : Document) (q : Path) :
    (w.add project d).find? q = if q.components = d.path.components then some d else w.find? q := by
  have rest := tidy_remove tidy d.path
  have gone := find?_remove tidy d.path q
  split
  · next same =>
    refine (find?_eq_some_iff (tidy_add tidy project d)).2 ⟨project,
      (((w.remove d.path).projects.get? project).getD ∅).insert d.path d, ?_, ?_⟩
    · rw [add, Table.get?_insert_lawful, if_pos rfl]
    · rw [PathTable.get?_insert, if_pos same]
  · next other =>
    rw [if_neg other] at gone
    rw [← gone]
    apply Option.ext
    intro e
    rw [find?_eq_some_iff (tidy_add tidy project d), find?_eq_some_iff rest]
    simp only [add, Table.get?_insert_lawful]
    constructor
    · rintro ⟨name, docs', held', here⟩
      split at held'
      · cases held'
        rw [PathTable.get?_insert, if_neg other] at here
        cases held : (w.remove d.path).projects.get? project with
        | none => rw [held] at here; cases here
        | some docs =>
          rw [held] at here
          exact ⟨project, docs, held, here⟩
      · exact ⟨name, docs', held', here⟩
    · rintro ⟨name, docs, held, here⟩
      by_cases same : name = project
      · subst same
        refine ⟨name, _, if_pos rfl, ?_⟩
        rw [PathTable.get?_insert, if_neg other, held, Option.getD_some, here]
      · exact ⟨name, docs, by rw [if_neg same, held], here⟩

/-! ### Writing a text -/

/-- The document that a written text becomes. -/
def written (w : Workspace) (p : Path) (text : String) : Document :=
  match w.find? p with
  | some d => d.setText text
  | none => { path := p, text }

/-- A change that keeps the path of a document. -/
theorem path_of_kept {w : Workspace} (tidy : w.Tidy) {p : Path} {f : Document → Document}
    (keeps : ∀ d, (f d).path = d.path) :
    ∀ d, w.find? p = some d → (f d).path.components = p.components := by
  intro d found
  rw [keeps d]
  exact path_of_find? tidy found

theorem tidy_write {w : Workspace} (tidy : w.Tidy) (p : Path) (text : String) :
    (w.write p text).Tidy := by
  unfold write
  split
  · exact tidy_modify tidy (path_of_kept tidy fun _ => rfl)
  · exact tidy_add tidy _ _

theorem find?_write {w : Workspace} (tidy : w.Tidy) (p : Path) (text : String) (q : Path) :
    (w.write p text).find? q =
      if q.components = p.components then some (w.written p text) else w.find? q := by
  unfold write written
  cases found : w.find? p with
  | some d =>
    simp only
    rw [find?_modify tidy (path_of_kept (f := (·.setText text)) tidy fun _ => rfl)]
    split
    · next same => rw [find?_congr w same, found]; rfl
    · rfl
  | none => exact find?_add tidy _ _ q

/-! ### Marking documents -/

/-- Set the mark of the documents with the given paths. -/
def setDirty (w : Workspace) (dirty : Bool) (paths : List Path) : Workspace :=
  paths.foldl (fun w p => w.modify p fun d => { d with dirty }) w

theorem tidy_setDirty {w : Workspace} (tidy : w.Tidy) (dirty : Bool) (paths : List Path) :
    (w.setDirty dirty paths).Tidy := by
  unfold setDirty
  induction paths generalizing w with
  | nil => exact tidy
  | cons p paths ih => exact ih (tidy_modify tidy (path_of_kept tidy fun _ => rfl))

theorem find?_setDirty {w : Workspace} (tidy : w.Tidy) (dirty : Bool) (paths : List Path)
    (q : Path) : (w.setDirty dirty paths).find? q =
      if ∃ p ∈ paths, q.components = p.components then (w.find? q).map fun d => { d with dirty }
      else w.find? q := by
  unfold setDirty
  induction paths generalizing w with
  | nil => simp
  | cons p paths ih =>
    have path := path_of_kept tidy (p := p) (f := fun d => { d with dirty }) fun _ => rfl
    rw [List.foldl_cons, ih (tidy_modify tidy path), find?_modify tidy path]
    simp only [List.mem_cons, exists_eq_or_imp]
    by_cases later : ∃ r ∈ paths, q.components = r.components
    · simp only [later, or_true, if_true]
      split
      · rw [Option.map_map]
        rfl
      · rfl
    · rw [if_neg later]
      simp only [later, or_false]

end GrammarIndex.Workspace
