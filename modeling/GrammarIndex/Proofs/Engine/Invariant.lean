import GrammarIndex.Proofs.Engine.Rounds
import GrammarIndex.Proofs.Tree
import GrammarIndex.Proofs.Workspace

/-!
The invariant of the engine.

Every indexed file has a document and an attached record. A file whose document is clean is up to
date and was read from the document's text. Writing a text, closing a document, forgetting the index
and bringing it up to date keep the invariant, and after the last of these no document is dirty.
-/
namespace GrammarIndex

theorem Grammar.steady_dialect : Grammar.dialect.Steady := fun _ _ _ => rfl

namespace Engine

/-- The store with the built-in names only. -/
def baseStore : ScopeStore := (Index.ofRegistry Grammar.registry).scopes

theorem sound_baseStore : baseStore.Sound ∧
    ∀ id s, baseStore.symbol? id = some s → s.file? = none :=
  Binding.sound_defineBuiltins ScopeStore.sound_empty (by simp [ScopeStore.symbol?, ScopeStore.empty])
    Grammar.dialect

/-- A file state that holds what was read from a text. -/
structure ReadFrom (s : FileState) (text : String) : Prop where
  dialect : s.dialect = Grammar.dialect
  parsed : s.parsed = Grammar.parse text

theorem ReadFrom.readable {s : FileState} {text : String} (read : ReadFrom s text) :
    s.Readable := by
  refine ⟨?_, ?_⟩
  · rw [read.dialect]
    exact Grammar.steady_dialect
  · rw [read.parsed]
    exact Grammar.nodup_terminals_parse text

theorem ReadFrom.congr {s s' : FileState} {text : String} (read : ReadFrom s text)
    (same : s'.reading = s.reading) : ReadFrom s' text :=
  ⟨(congrArg Prod.fst same).trans read.dialect, (congrArg Prod.snd same).trans read.parsed⟩

/-- Documents and index fit together. -/
structure Consistent (e : Engine) : Prop where
  registry : e.registry = Grammar.registry
  tidy : e.workspace.Tidy
  sound : e.index.scopes.Sound
  based : Based baseStore e.index.scopes
  filed : ∀ id s q, e.index.scopes.symbol? id = some s → s.file? = some q →
    e.index.files.contains q = true
  backed : ∀ p s, e.index.files.get? p = some s → ∃ d, e.document? p = some d
  read : ∀ p s, e.index.files.get? p = some s → ∃ text, ReadFrom s text
  attached : ∀ p s, e.index.files.get? p = some s → s.Attached e.index.scopes p
  settled : ∀ p s d, e.index.files.get? p = some s → e.document? p = some d → d.dirty = false →
    s.Settled e.index.scopes e.index.graph p ∧ ReadFrom s d.text
  indexed : ∀ p d, e.document? p = some d → d.dirty = false → e.index.files.contains p = true

theorem consistent_of_blank (e : Engine) (registry : e.registry = Grammar.registry)
    (tidy : e.workspace.Tidy) (blank : e.index = .ofRegistry Grammar.registry)
    (dirty : ∀ p d, e.document? p = some d → d.dirty = true) : e.Consistent where
  registry := registry
  tidy := tidy
  sound := by rw [blank]; exact sound_baseStore.1
  based := by rw [blank]; exact ⟨fun _ => rfl, fun _ _ _ => rfl⟩
  filed id s q live file := by
    rw [blank] at live
    rw [sound_baseStore.2 id s live] at file
    cases file
  backed p s found := by rw [blank] at found; cases found
  read p s found := by rw [blank] at found; cases found
  attached p s found := by rw [blank] at found; cases found
  settled p s d found := by rw [blank] at found; cases found
  indexed p d found clean := by rw [dirty p d found] at clean; cases clean

theorem consistent_new (config : Config) : (new Grammar.registry config).Consistent :=
  consistent_of_blank _ rfl Workspace.tidy_empty rfl fun _ _ found => by cases found

/-- After forgetting the index every document is dirty. -/
theorem dirty_reset {e : Engine} (tidy : e.workspace.Tidy) {p : Path} {d : Document}
    (found : e.reset.document? p = some d) : d.dirty = true := by
  have found' : (e.workspace.setDirty true (e.documents.map (·.path))).find? p = some d := found
  rw [Workspace.find?_setDirty tidy] at found'
  split at found'
  · obtain ⟨d₀, _, rfl⟩ := Option.map_eq_some_iff.1 found'
    rfl
  · next absent =>
    have listed := Workspace.mem_documents_of_find? tidy found'
    exact absurd ⟨d.path, List.mem_map.2 ⟨d, listed, rfl⟩,
      (Workspace.path_of_find? tidy found').symm⟩ absent

theorem consistent_reset {e : Engine} (consistent : e.Consistent) : e.reset.Consistent := by
  have tidy : e.reset.workspace.Tidy :=
    Workspace.tidy_setDirty consistent.tidy true (e.documents.map Document.path)
  exact consistent_of_blank _ consistent.registry tidy (by rw [reset, consistent.registry])
    fun _ _ found => dirty_reset consistent.tidy found

/-! ### Documents -/

/-- Only the documents matter, and of those only what is found. -/
theorem Consistent.of_documents {e e' : Engine} (consistent : e.Consistent)
    (registry : e'.registry = e.registry) (index : e'.index = e.index) (tidy : e'.workspace.Tidy)
    (kept : ∀ p d', e'.document? p = some d' → d'.dirty = false → e.document? p = some d')
    (backed : ∀ p d, e.document? p = some d → ∃ d', e'.document? p = some d') : e'.Consistent where
  registry := registry.trans consistent.registry
  tidy := tidy
  sound := by rw [index]; exact consistent.sound
  based := by rw [index]; exact consistent.based
  filed := by rw [index]; exact consistent.filed
  backed p s found := by
    rw [index] at found
    obtain ⟨d, held⟩ := consistent.backed p s found
    exact backed p d held
  read := by rw [index]; exact consistent.read
  attached := by rw [index]; exact consistent.attached
  settled p s d found held clean := by
    rw [index] at found ⊢
    exact consistent.settled p s d found (kept p d held clean) clean
  indexed p d held clean := by
    rw [index]
    exact consistent.indexed p d (kept p d held clean) clean

theorem dirty_written (w : Workspace) (p : Path) (text : String) :
    (w.written p text).dirty = true := by
  unfold Workspace.written
  split <;> rfl

theorem consistent_write {e : Engine} (consistent : e.Consistent) (p : Path) (text : String)
    (echoes : EchoTable) :
    ({ e with echoes, workspace := e.workspace.write p text } : Engine).Consistent := by
  have view := Workspace.find?_write consistent.tidy p text
  refine consistent.of_documents rfl rfl (Workspace.tidy_write consistent.tidy p text) ?_ ?_
  · intro q d found clean
    have found' : (e.workspace.write p text).find? q = some d := found
    rw [view] at found'
    split at found'
    · cases found'
      rw [dirty_written] at clean
      cases clean
    · exact found'
  · intro q d found
    show ∃ d', (e.workspace.write p text).find? q = some d'
    rw [view]
    split
    · exact ⟨_, rfl⟩
    · exact ⟨d, found⟩

theorem consistent_openDocument {e : Engine} (consistent : e.Consistent) (p : Path)
    (text : String) : (e.openDocument p text).Consistent :=
  consistent_write consistent p text _

theorem consistent_notifyChange {e : Engine} (consistent : e.Consistent) (p : Path)
    (text : String) : (e.notifyChange p text).1.Consistent := by
  unfold notifyChange
  generalize e.echoes.notify p text = out
  obtain ⟨echoes, outcome⟩ := out
  simp only
  split
  · exact consistent_write consistent p text echoes
  · exact consistent.of_documents rfl rfl consistent.tidy (fun _ _ found _ => found)
      (fun _ d found => ⟨d, found⟩)

theorem workspace_notifyChange (e : Engine) (p : Path) (text : String) :
    (e.notifyChange p text).1.workspace =
      if (e.notifyChange p text).2.needsRebind then e.workspace.write p text else e.workspace := rfl

/-- The documents after a change that has to be bound. -/
theorem document?_notifyChange {e : Engine} (consistent : e.Consistent) {p : Path} {text : String}
    (rebind : (e.notifyChange p text).2.needsRebind = true) (q : Path) :
    (e.notifyChange p text).1.document? q =
      if q.components = p.components then some (e.workspace.written p text)
      else e.document? q := by
  rw [document?, workspace_notifyChange, if_pos rebind]
  exact Workspace.find?_write consistent.tidy p text q

/-! ### Closing -/

/-- Dropping a file hurts only the files that come with the rest. -/
structure Forgotten (p : Path) (x x' : Index) (affected : PathSet) : Prop where
  files : x'.files = x.files.erase p
  sound : x'.scopes.Sound
  based : ∀ base, Based base x.scopes → Based base x'.scopes
  back : ∀ id s', x'.scopes.symbol? id = some s' → ¬ s'.OwnedBy p ∧
    ∃ s, x.scopes.symbol? id = some s ∧ s.Alike s'
  attached : ∀ q s, x'.files.get? q = some s → s.Attached x.scopes q → s.Attached x'.scopes q
  settled : ∀ q s, x'.files.get? q = some s → affected.contains q = false →
    s.Settled x.scopes x.graph q → s.Settled x'.scopes x'.graph q

theorem forgotten_of_absent {x : Index} (sound : x.scopes.Sound)
    (filed : ∀ id s q, x.scopes.symbol? id = some s → s.file? = some q → x.files.contains q = true)
    {p : Path} (absent : x.files.get? p = none) :
    Forgotten p x (x.forget p).1 (x.forget p).2 := by
  simp only [Index.forget, absent]
  refine ⟨?_, sound, fun _ based => based, ?_, fun _ _ _ attached => attached,
    fun _ _ _ _ settled => settled⟩
  · have kept : ∀ e ∈ x.files.entries, (compare p e.1 != .eq) = true := by
      intro e entry
      refine bne_iff_ne.2 fun same => ?_
      rw [PathTable.get?_congr x.files ((Path.compare_eq_iff _ _).1 same),
        Table.get?_of_mem entry] at absent
      cases absent
    apply Table.ext
    exact (List.filter_eq_self.2 kept).symm
  · intro id s live
    refine ⟨fun own => ?_, s, live, .refl s⟩
    obtain ⟨f, file, spelled⟩ := Symbol.ownedBy_iff.1 own
    have inside := filed id s f live file
    rw [Table.contains, PathTable.get?_congr x.files spelled, absent] at inside
    cases inside

theorem forgotten_of_found {x : Index} (sound : x.scopes.Sound) {p : Path} {state : FileState}
    (found : x.files.get? p = some state) (home : state.Attached x.scopes p) :
    Forgotten p x (x.forget p).1 (x.forget p).2 := by
  have gone := ScopeStore.removeFile_spec sound home.home
  simp only [Index.forget, found]
  generalize x.scopes.removeFile state.scope p = out at gone
  obtain ⟨scopes, freed⟩ := out
  simp only at gone ⊢
  have touched : Touched [p] (freed.map fun n => (state.scope, n)) [] x.scopes scopes := by
    refine ⟨sound, gone.sound, gone.frame, ?_, ?_⟩
    · intro g y id s bound live inside
      rw [Symbol.outside_singleton, Classical.not_not] at inside
      obtain ⟨s', live', _, place⟩ := sound.bound g y id bound
      rw [live] at live'
      cases live'
      have scope := sound.scope_of_ownedBy home.home live inside
      exact List.mem_map.2 ⟨y, gone.freed g y id s bound live inside, by rw [← place, scope]⟩
    · intro g y id s _ live inside
      exact absurd (Symbol.outside_singleton.2 (gone.gone id s live)) inside
  have others : ∀ {q s}, (x.files.erase p).get? q = some s →
      q.components ≠ p.components ∧ x.files.get? q = some s := PathTable.get?_erase_eq_some.1
  have apart : ∀ {q : Path}, q.components ≠ p.components → ∀ r ∈ [p], q.components ≠ r.components := by
    intro q other r member
    rw [List.mem_singleton.1 member]
    exact other
  refine ⟨rfl, gone.sound, fun base based => touched.based based, ?_, ?_, ?_⟩
  · intro id s' live'
    have other := gone.gone id s' live'
    exact ⟨other, gone.frame.back id s' live' (Symbol.outside_singleton.2 other)⟩
  · intro q s foundQ attached
    exact touched.attached (apart (others foundQ).1) attached
  · intro q s foundQ safe settled
    obtain ⟨other, foundQ₀⟩ := others foundQ
    -- A file that is not affected neither refers into the dropped one nor waits for its names.
    have uncalled : ¬ ((x.graph.clear p).Refers q p ∨ ∃ k ∈ (((x.files.erase p).entries.filter
        fun e => e.2.scope == state.scope && Index.droppedAny e.2 freed).map (·.1)),
          q.components = k.components) := by
      intro called
      rw [(PathSet.contains_erase _ p q).2 ⟨other, (PathSet.contains_addAll _ _ q).2 called⟩] at safe
      cases safe
    have graph : ∀ on, (x.graph.clear p).Refers q on ↔ x.graph.Refers q on :=
      DependencyGraph.refers_clear x.graph other
    refine FileState.Settled.of_graph (touched.settled (apart other) settled ?_ ?_ ?_)
      fun on refers => (graph on).2 refers
    · intro r member refers
      rw [List.mem_singleton.1 member] at refers
      exact uncalled (.inl ((graph p).2 refers))
    · intro y listed
      obtain ⟨n, freedN, same⟩ := List.mem_map.1 listed
      obtain ⟨scope, rfl⟩ := Prod.mk.inj same
      obtain ⟨k, entry, same⟩ := Table.mem_of_get? foundQ
      cases dropped : s.record.dropped.contains n with
      | false => rfl
      | true =>
        refine absurd (.inr ⟨k, List.mem_map.2 ⟨(k, s), List.mem_filter.2 ⟨entry, ?_⟩, rfl⟩,
          (Path.compare_eq_iff _ _).1 same⟩) uncalled
        have taker : Index.droppedAny s freed = true := List.any_eq_true.2 ⟨n, freedN, dropped⟩
        simp [taker, scope]
    · intro y listed
      cases listed

theorem consistent_closeDocument {e : Engine} (consistent : e.Consistent) (p : Path) :
    (e.closeDocument p).1.Consistent := by
  have forgotten : Forgotten p e.index (e.index.forget p).1 (e.index.forget p).2 := by
    cases found : e.index.files.get? p with
    | none => exact forgotten_of_absent consistent.sound consistent.filed found
    | some state => exact forgotten_of_found consistent.sound found (consistent.attached p state found)
  unfold closeDocument
  generalize e.index.forget p = out at forgotten
  obtain ⟨x, affected⟩ := out
  simp only at forgotten ⊢
  have removed := Workspace.tidy_remove consistent.tidy p
  have view : ∀ q, ((e.workspace.remove p).setDirty true affected.toList).find? q =
      if ∃ r ∈ affected.toList, q.components = r.components
      then ((e.workspace.remove p).find? q).map fun d => { d with dirty := true }
      else (e.workspace.remove p).find? q :=
    Workspace.find?_setDirty removed true affected.toList
  -- A document that is clean now was clean before, and its file was not affected.
  have clean_of : ∀ q d, ((e.workspace.remove p).setDirty true affected.toList).find? q = some d →
      d.dirty = false → q.components ≠ p.components ∧ e.document? q = some d ∧
        affected.contains q = false := by
    intro q d held clean
    rw [view] at held
    split at held
    · obtain ⟨d₀, _, rfl⟩ := Option.map_eq_some_iff.1 held
      cases clean
    · next absent =>
      rw [Workspace.find?_remove consistent.tidy] at held
      split at held
      · cases held
      · next other =>
        refine ⟨other, held, ?_⟩
        cases member : Table.contains affected q with
        | false => rfl
        | true => exact absurd (PathSet.contains_iff_mem_toList.1 member) absent
  have others : ∀ {q s}, x.files.get? q = some s →
      q.components ≠ p.components ∧ e.index.files.get? q = some s := by
    intro q s found
    rw [forgotten.files] at found
    exact PathTable.get?_erase_eq_some.1 found
  refine ⟨consistent.registry, Workspace.tidy_setDirty removed true affected.toList, forgotten.sound,
    forgotten.based _ consistent.based, ?_, ?_, ?_, ?_, ?_, ?_⟩
  · intro id s q live file
    obtain ⟨alien, s₀, live₀, alike⟩ := forgotten.back id s live
    have inside := consistent.filed id s₀ q live₀ (alike.file?.trans file)
    simp only [forgotten.files, Table.contains, PathTable.get?_erase]
    rw [if_neg]
    · exact inside
    · exact fun same => alien (Symbol.ownedBy_iff.2 ⟨q, file, same⟩)
  · intro q s found
    obtain ⟨other, found₀⟩ := others found
    obtain ⟨d, held⟩ := consistent.backed q s found₀
    have kept : (e.workspace.remove p).find? q = some d := by
      rw [Workspace.find?_remove consistent.tidy, if_neg other]
      exact held
    show ∃ d', ((e.workspace.remove p).setDirty true affected.toList).find? q = some d'
    rw [view, kept]
    split
    · exact ⟨_, rfl⟩
    · exact ⟨d, rfl⟩
  · exact fun q s found => consistent.read q s (others found).2
  · exact fun q s found => forgotten.attached q s found (consistent.attached q s (others found).2)
  · intro q s d found held clean
    obtain ⟨_, held₀, safe⟩ := clean_of q d held clean
    obtain ⟨settled, read⟩ := consistent.settled q s d (others found).2 held₀ clean
    exact ⟨forgotten.settled q s found safe settled, read⟩
  · intro q d held clean
    obtain ⟨other, held₀, _⟩ := clean_of q d held clean
    have inside := consistent.indexed q d held₀ clean
    simp only [forgotten.files, Table.contains, PathTable.get?_erase]
    rw [if_neg other]
    exact inside

end Engine

end GrammarIndex
