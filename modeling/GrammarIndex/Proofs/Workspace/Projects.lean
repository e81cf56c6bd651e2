import GrammarIndex.Proofs.Workspace

/-!
Documents with their projects and the spelling of their keys.

A workspace without an empty project is what it holds: for every project and path, the key and the
document. Every operation has one equation for what is held afterwards, so two workspaces can be
shown equal through them.
-/
namespace GrammarIndex.Workspace

/-- No project is without documents. -/
def Filled (w : Workspace) : Prop :=
  ∀ name docs, w.projects.get? name = some docs → docs.isEmpty = false

/-- What a project holds for a path, with the key as it is spelled. -/
def held? (w : Workspace) (name : String) (p : Path) : Option (Path × Document) :=
  (w.projects.get? name).bind (·.keyed? p)

theorem held?_congr (w : Workspace) (name : String) {p q : Path}
    (same : p.components = q.components) : w.held? name p = w.held? name q := by
  unfold held?
  congr 1
  funext docs
  exact PathTable.keyed?_congr docs same

theorem find?_of_held? {w : Workspace} (tidy : w.Tidy) {name : String} {p k : Path} {d : Document}
    (held : w.held? name p = some (k, d)) : w.find? p = some d := by
  obtain ⟨docs, project, entry⟩ := Option.bind_eq_some_iff.1 held
  refine (find?_eq_some_iff tidy).2 ⟨name, docs, project, ?_⟩
  rw [← Table.map_keyed?, entry]
  rfl

/-- A workspace is what it holds. -/
theorem ext_held? {w w' : Workspace} (filled : w.Filled) (filled' : w'.Filled)
    (same : ∀ name p, w.held? name p = w'.held? name p) : w = w' := by
  have within : ∀ {u u' : Workspace}, u.Filled → (∀ name p, u.held? name p = u'.held? name p) →
      ∀ {name docs}, u.projects.get? name = some docs → u'.projects.get? name = some docs := by
    intro u u' some_ alike name docs found
    cases found' : u'.projects.get? name with
    | none =>
      -- A document of the project is held on one side only.
      cases entries : docs.entries with
      | nil =>
        have filled := some_ name docs found
        rw [Table.isEmpty, entries] at filled
        cases filled
      | cons e l =>
        have here := alike name e.1
        rw [held?, held?, found, found', Option.bind_some,
          Table.mem_entries_iff.1 (by rw [entries]; exact List.mem_cons_self)] at here
        cases here
    | some docs' =>
      congr 1
      apply Table.ext_keyed?
      intro p
      have here := alike name p
      rw [held?, held?, found, found'] at here
      exact here.symm
  obtain ⟨projects⟩ := w
  obtain ⟨projects'⟩ := w'
  congr 1
  apply Table.ext_get?
  intro name
  apply Option.ext
  intro docs
  exact ⟨fun found => within filled same found,
    fun found => within filled' (fun name p => (same name p).symm) found⟩

/-! ### Changing a document -/

theorem filled_modify {w : Workspace} (tidy : w.Tidy) (filled : w.Filled) (p : Path)
    (f : Document → Document) : (w.modify p f).Filled := by
  intro name docs' found'
  obtain ⟨docs, found, rfl⟩ := (project_modify tidy p f name docs').1 found'
  have some_ := filled name docs found
  simpa [Table.isEmpty, Table.modify, Table.mapValues] using some_

theorem held?_modify {w : Workspace} (tidy : w.Tidy) (p : Path) (f : Document → Document)
    (name : String) (q : Path) : (w.modify p f).held? name q =
      if q.components = p.components then (w.held? name q).map fun e => (e.1, f e.2)
      else w.held? name q := by
  have project : (w.modify p f).projects.get? name =
      (w.projects.get? name).map fun docs => docs.modify p f := by
    apply Option.ext
    intro docs'
    rw [project_modify tidy, Option.map_eq_some_iff]
  rw [held?, held?, project]
  cases w.projects.get? name with
  | none => simp
  | some docs => exact PathTable.keyed?_modify docs p q f

/-! ### Dropping a document -/

theorem filled_remove {w : Workspace} (tidy : w.Tidy) (p : Path) : (w.remove p).Filled :=
  fun name docs found => ((project_remove tidy p name docs).1 found).1

theorem held?_remove {w : Workspace} (tidy : w.Tidy) (p : Path) (name : String) (q : Path) :
    (w.remove p).held? name q =
      if q.components = p.components then none else w.held? name q := by
  rw [held?, held?]
  cases found : (w.remove p).projects.get? name with
  | some docs' =>
    obtain ⟨_, docs, project, rfl⟩ := (project_remove tidy p name docs').1 found
    rw [project]
    exact PathTable.keyed?_erase docs p q
  | none =>
    -- A project that is gone held nothing but the path.
    cases project : w.projects.get? name with
    | none => simp
    | some docs =>
      have gone : (docs.erase p).keyed? q = none := by
        cases empty : (docs.erase p).isEmpty with
        | false =>
          rw [(project_remove tidy p name _).2 ⟨empty, docs, project, rfl⟩] at found
          cases found
        | true =>
          have none_ : docs.erase p = ∅ := Table.ext (List.isEmpty_iff.1 empty)
          rw [none_]
          rfl
      rw [PathTable.keyed?_erase] at gone
      exact gone.symm

/-! ### Adding a document -/

theorem filled_add {w : Workspace} (tidy : w.Tidy) (project : String) (d : Document) :
    (w.add project d).Filled := by
  intro name docs found
  rw [add, Table.get?_insert_lawful] at found
  split at found
  · cases found
    have here : ((((w.remove d.path).projects.get? project).getD ∅).insert d.path d).get? d.path =
        some d := by rw [PathTable.get?_insert, if_pos rfl]
    obtain ⟨k, listed, _⟩ := Table.mem_of_get? here
    exact List.isEmpty_eq_false_iff.2 (List.ne_nil_of_mem listed)
  · exact filled_remove tidy d.path name docs found

theorem held?_add {w : Workspace} (tidy : w.Tidy) (project : String) (d : Document) (name : String)
    (q : Path) : (w.add project d).held? name q =
      if q.components = d.path.components then (if name = project then some (d.path, d) else none)
      else w.held? name q := by
  have rest : ∀ r, (((w.remove d.path).projects.get? project).getD ∅).keyed? r =
      if r.components = d.path.components then none else w.held? project r := by
    intro r
    rw [← held?_remove tidy, held?]
    cases (w.remove d.path).projects.get? project <;> rfl
  have view : (w.add project d).projects.get? name = if name = project
      then some ((((w.remove d.path).projects.get? project).getD ∅).insert d.path d)
      else (w.remove d.path).projects.get? name := by
    rw [add, Table.get?_insert_lawful]
  rw [held?, view]
  by_cases same : name = project
  · subst same
    rw [if_pos rfl, if_pos rfl, Option.bind_some, PathTable.keyed?_insert, rest, rest, if_pos rfl]
    split <;> rfl
  · rw [if_neg same, if_neg same]
    exact held?_remove tidy d.path name q

/-! ### Writing a text -/

theorem filled_write {w : Workspace} (tidy : w.Tidy) (filled : w.Filled) (p : Path)
    (text : String) : (w.write p text).Filled := by
  unfold write
  split
  · exact filled_modify tidy filled p _
  · exact filled_add tidy _ _

theorem filled_setDirty {w : Workspace} (tidy : w.Tidy) (filled : w.Filled) (dirty : Bool)
    (paths : List Path) : (w.setDirty dirty paths).Filled := by
  unfold setDirty
  induction paths generalizing w with
  | nil => exact filled
  | cons p paths ih =>
    exact ih (tidy_modify tidy (path_of_kept tidy fun _ => rfl)) (filled_modify tidy filled p _)

end GrammarIndex.Workspace
