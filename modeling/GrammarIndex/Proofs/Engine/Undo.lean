import GrammarIndex.Engine.Refactor
import GrammarIndex.Proofs.Workspace.Projects

/-!
Putting stored texts back.

Storing texts over a state changes the documents and markers of the paths that are written, and
keeps the project and the key of what was there. Giving each of these paths back what the state had
for it leaves nothing changed: no document, no project, no marker, and no spelling of a path.
-/
namespace GrammarIndex

namespace Workspace

/-- Writing a text leaves the other paths alone. -/
theorem held?_write_of_ne {w : Workspace} (tidy : w.Tidy) {p q : Path} (text : String)
    (name : String) (other : q.components ≠ p.components) :
    (w.write p text).held? name q = w.held? name q := by
  unfold write
  split
  · rw [held?_modify tidy, if_neg other]
  · rw [held?_add tidy, if_neg other]

/-- A document that is written keeps its project and its key. -/
theorem held?_write_of_found {w : Workspace} (tidy : w.Tidy) {p q : Path} (text : String)
    (name : String) {d : Document} (found : w.find? p = some d) :
    ((w.write p text).held? name q).map (·.1) = (w.held? name q).map (·.1) := by
  simp only [write, found]
  rw [held?_modify tidy]
  split
  · rw [Option.map_map]
    rfl
  · rfl

end Workspace

namespace Engine

/-- A state that differs from an earlier one only in what was stored for the touched paths. What the
earlier state had is there under the same key. -/
structure Overlay (before : Engine) (touched : List Path) (e : Engine) : Prop where
  registry : e.registry = before.registry
  index : e.index = before.index
  config : e.config = before.config
  tidy : e.workspace.Tidy
  filled : e.workspace.Filled
  otherMarkers : ∀ q, (∀ r ∈ touched, q.components ≠ r.components) →
    e.echoes.keyed? q = before.echoes.keyed? q
  otherDocuments : ∀ q, (∀ r ∈ touched, q.components ≠ r.components) → ∀ name,
    e.workspace.held? name q = before.workspace.held? name q
  markers : ∀ q k text, before.echoes.keyed? q = some (k, text) →
    ∃ text', e.echoes.keyed? q = some (k, text')
  documents : ∀ q d, before.document? q = some d → ∀ name,
    (e.workspace.held? name q).map (·.1) = (before.workspace.held? name q).map (·.1)

theorem overlay_refl {e : Engine} (tidy : e.workspace.Tidy) (filled : e.workspace.Filled)
    (touched : List Path) : Overlay e touched e :=
  ⟨rfl, rfl, rfl, tidy, filled, fun _ _ => rfl, fun _ _ _ => rfl,
    fun _ _ text found => ⟨text, found⟩, fun _ _ _ _ => rfl⟩

/-- Without touched paths nothing differs. -/
theorem Overlay.eq {before e : Engine} (filled : before.workspace.Filled)
    (overlay : Overlay before [] e) : e = before := by
  have echoes : e.echoes = before.echoes :=
    Table.ext_keyed? fun q => overlay.otherMarkers q (by simp)
  have workspace : e.workspace = before.workspace :=
    Workspace.ext_held? overlay.filled filled fun name q => overlay.otherDocuments q (by simp) name
  obtain ⟨w, registry, index, echoes', config⟩ := e
  cases overlay.registry
  cases overlay.index
  cases overlay.config
  cases echoes
  cases workspace
  rfl

/-- A document of the earlier state is found. -/
theorem Overlay.found {before e : Engine} {touched : List Path} (tidy : before.workspace.Tidy)
    (overlay : Overlay before touched e) {q : Path} {d : Document}
    (held : before.document? q = some d) : ∃ d', e.document? q = some d' := by
  obtain ⟨name, docs, project, here⟩ := (Workspace.find?_eq_some_iff tidy).1 held
  have key := overlay.documents q d held name
  rw [Workspace.held?, Workspace.held?, project, Option.bind_some] at key
  rw [← Table.map_keyed?] at here
  obtain ⟨⟨k, d₀⟩, entry, _⟩ := Option.map_eq_some_iff.1 here
  rw [entry] at key
  obtain ⟨⟨k', d'⟩, held', _⟩ := Option.map_eq_some_iff.1 key
  exact ⟨d', Workspace.find?_of_held? overlay.tidy held'⟩

/-- Storing a text for a touched path. -/
theorem Overlay.storeText {before e : Engine} {touched : List Path} (tidy : before.workspace.Tidy)
    (overlay : Overlay before touched e) {p : Path} (text : String) (member : p ∈ touched) :
    Overlay before touched (e.storeText p text) := by
  refine ⟨overlay.registry, overlay.index, overlay.config,
    Workspace.tidy_write overlay.tidy p text,
    Workspace.filled_write overlay.tidy overlay.filled p text,
    fun q away => ?_, fun q away name => ?_, fun q k t entry => ?_, fun q d held name => ?_⟩
  · rw [← overlay.otherMarkers q away]
    exact (PathTable.keyed?_insert e.echoes p q text).trans (if_neg (away p member))
  · rw [← overlay.otherDocuments q away]
    exact Workspace.held?_write_of_ne overlay.tidy text name (away p member)
  · obtain ⟨t', kept⟩ := overlay.markers q k t entry
    show ∃ text', (e.echoes.insert p text).keyed? q = some (k, text')
    rw [PathTable.keyed?_insert]
    split
    · next same =>
      rw [← PathTable.keyed?_congr e.echoes same, kept]
      exact ⟨text, rfl⟩
    · exact ⟨t', kept⟩
  · rw [← overlay.documents q d held name]
    by_cases same : q.components = p.components
    · obtain ⟨d', found⟩ := overlay.found tidy held
      exact Workspace.held?_write_of_found overlay.tidy text name
        ((Workspace.find?_congr e.workspace same).symm.trans found)
    · exact congrArg _ (Workspace.held?_write_of_ne overlay.tidy text name same)

/-- The marker of a path after it was put back. -/
theorem Overlay.keyed?_restore {before e : Engine} {touched : List Path}
    (overlay : Overlay before touched e) (p q : Path) :
    (restoreFrom before e p).echoes.keyed? q =
      if q.components = p.components then before.echoes.keyed? q else e.echoes.keyed? q := by
  show (e.echoes.restore p (before.echoes.state p)).keyed? q = _
  have was := Table.map_keyed? before.echoes p
  cases marker : before.echoes.get? p with
  | none =>
    rw [marker, Option.map_eq_none_iff] at was
    simp only [EchoTable.state, marker, EchoTable.restore, EchoTable.disarm,
      PathTable.keyed?_erase]
    split
    · next same => rw [PathTable.keyed?_congr before.echoes same, was]
    · rfl
  | some text =>
    rw [marker] at was
    obtain ⟨⟨k, text'⟩, entry, rfl⟩ := Option.map_eq_some_iff.1 was
    obtain ⟨t', kept⟩ := overlay.markers p k text' entry
    simp only [EchoTable.state, marker, EchoTable.restore, EchoTable.arm, PathTable.keyed?_insert,
      kept]
    split
    · next same => rw [PathTable.keyed?_congr before.echoes same, entry]; rfl
    · rfl

/-- What is held for a path after it was put back. -/
theorem Overlay.held?_restore {before e : Engine} {touched : List Path}
    (tidy : before.workspace.Tidy) (overlay : Overlay before touched e) (p : Path) (name : String)
    (q : Path) : (restoreFrom before e p).workspace.held? name q =
      if q.components = p.components then before.workspace.held? name q
      else e.workspace.held? name q := by
  cases was : before.document? p with
  | none =>
    simp only [restoreFrom, was]
    rw [Workspace.held?_remove overlay.tidy]
    split
    · next same =>
      cases held : before.workspace.held? name q with
      | none => rfl
      | some entry =>
        have found := Workspace.find?_of_held? tidy held
        rw [Workspace.find?_congr _ same] at found
        rw [show before.workspace.find? p = none from was] at found
        cases found
    · rfl
  | some d =>
    simp only [restoreFrom, was]
    rw [Workspace.held?_modify overlay.tidy]
    split
    · next same =>
      have key := overlay.documents p d was name
      rw [← Workspace.held?_congr _ name same, ← Workspace.held?_congr _ name same] at key
      cases held : before.workspace.held? name q with
      | none =>
        rw [held, Option.map_none, Option.map_eq_none_iff] at key
        rw [key]
        rfl
      | some entry =>
        -- The document that is held for the path is the one that is put back.
        have found := Workspace.find?_of_held? tidy held
        rw [Workspace.find?_congr _ same, show before.workspace.find? p = some d from was] at found
        rw [held] at key
        obtain ⟨entry', held', spelled⟩ := Option.map_eq_some_iff.1 key
        rw [held', Option.map_some, spelled, Option.some.inj found]
    · rfl

/-- A path that was put back is touched no more. -/
theorem Overlay.restore {before e : Engine} {p : Path} {touched : List Path}
    (tidy : before.workspace.Tidy) (overlay : Overlay before (p :: touched) e) :
    Overlay before touched (restoreFrom before e p) := by
  have marker := overlay.keyed?_restore p
  have document := overlay.held?_restore tidy p
  have away : ∀ {q : Path}, (∀ r ∈ touched, q.components ≠ r.components) →
      q.components ≠ p.components → ∀ r ∈ p :: touched, q.components ≠ r.components := by
    intro q others other r member
    rcases List.mem_cons.1 member with rfl | member
    · exact other
    · exact others r member
  have whole : (restoreFrom before e p).workspace.Tidy ∧
      (restoreFrom before e p).workspace.Filled := by
    cases was : before.document? p with
    | none =>
      simp only [restoreFrom, was]
      exact ⟨Workspace.tidy_remove overlay.tidy p, Workspace.filled_remove overlay.tidy p⟩
    | some d =>
      simp only [restoreFrom, was]
      exact ⟨Workspace.tidy_modify overlay.tidy fun _ _ => Workspace.path_of_find? tidy was,
        Workspace.filled_modify overlay.tidy overlay.filled p _⟩
  refine ⟨overlay.registry, overlay.index, overlay.config, whole.1, whole.2, fun q others => ?_,
    fun q others name => ?_, fun q k text entry => ?_, fun q d held name => ?_⟩
  · rw [marker]
    split
    · rfl
    · next other => exact overlay.otherMarkers q (away others other)
  · rw [document]
    split
    · rfl
    · next other => exact overlay.otherDocuments q (away others other) name
  · rw [marker]
    split
    · exact ⟨text, entry⟩
    · exact overlay.markers q k text entry
  · rw [document]
    split
    · rfl
    · exact overlay.documents q d held name

/-- Texts that were stored can be taken back. -/
theorem restore_storeTexts {e : Engine} (tidy : e.workspace.Tidy) (filled : e.workspace.Filled)
    (texts : List (Path × String)) :
    texts.foldl (fun s r => restoreFrom e s r.1)
      (texts.foldl (fun s r => s.storeText r.1 r.2) e) = e := by
  have stored : ∀ (todo : List (Path × String)) {s : Engine}, (∀ r ∈ todo, r ∈ texts) →
      Overlay e (texts.map (·.1)) s →
      Overlay e (texts.map (·.1)) (todo.foldl (fun s r => s.storeText r.1 r.2) s) := by
    intro todo
    induction todo with
    | nil => exact fun _ overlay => overlay
    | cons r todo ih =>
      intro s within overlay
      exact ih (fun r' member => within r' (by simp [member]))
        (overlay.storeText tidy r.2 (List.mem_map.2 ⟨r, within r (by simp), rfl⟩))
  have restored : ∀ (todo : List (Path × String)) {s : Engine}, Overlay e (todo.map (·.1)) s →
      Overlay e [] (todo.foldl (fun s r => restoreFrom e s r.1) s) := by
    intro todo
    induction todo with
    | nil => exact fun overlay => overlay
    | cons r todo ih => exact fun overlay => ih (overlay.restore tidy)
  exact (restored texts (stored texts (fun _ member => member)
    (overlay_refl tidy filled _))).eq filled

end Engine

end GrammarIndex
