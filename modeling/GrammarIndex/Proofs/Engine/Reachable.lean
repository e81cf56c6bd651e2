import GrammarIndex.Engine.Refactor
import GrammarIndex.Proofs.Engine.Invariant

/-!
Every state that operations lead to.

Bringing the index up to date either fails and changes nothing, or leaves every document clean. A
proposal that fails leaves documents as they were. So the invariant holds after any operations.
-/
namespace GrammarIndex

/-! ### Reading -/

/-- Only the components of a path decide which dialect takes it. -/
theorem Dialect.handles_congr (d : Dialect) {p q : Path} (same : p.components = q.components) :
    d.handles p = d.handles q := by
  rw [handles, handles, Path.extension?_congr same]

theorem Registry.find?_congr (r : Registry) {p q : Path} (same : p.components = q.components) :
    r.find? p = r.find? q := by
  unfold find?
  congr 1
  funext d
  exact d.handles_congr same

namespace Compile

/-- The state of a file that was read and is not bound yet. -/
def freshState (d : Document) : FileState :=
  ⟨Grammar.dialect, Grammar.parse d.text, ScopeStore.globalScope, {}⟩

/-- The index with documents read into it. -/
def readInto (x : Index) (docs : List Document) : Index :=
  { x with files := docs.foldl (fun t d => t.insert d.path (freshState d)) x.files }

/-- The dialects that are found are those of the registry, for the documents in order. -/
theorem dialectsOf_found {registry : Registry} {docs : List Document}
    {known : List (Document × Dialect)} (success : dialectsOf registry docs = .ok known) :
    known.map (·.1) = docs ∧ ∀ k ∈ known, registry.find? k.1.path = some k.2 := by
  induction docs generalizing known with
  | nil =>
    cases success
    simp
  | cons d docs ih =>
    rw [dialectsOf, List.mapM_cons] at success
    cases taken : registry.find? d.path with
    | none => simp [taken, bind, Except.bind] at success
    | some dialect =>
      simp only [taken, bind, Except.bind] at success
      split at success
      · cases success
      · next rest later =>
        cases success
        obtain ⟨order, found⟩ := ih later
        refine ⟨by rw [List.map_cons, order], fun k member => ?_⟩
        rcases List.mem_cons.1 member with rfl | member
        · exact taken
        · exact found k member

theorem dialectsOf_ok {docs : List Document} {known : List (Document × Dialect)}
    (success : dialectsOf Grammar.registry docs = .ok known) :
    known = docs.map fun d => (d, Grammar.dialect) := by
  obtain ⟨order, found⟩ := dialectsOf_found success
  have only : ∀ k ∈ known, (k.1, Grammar.dialect) = k := by
    intro k member
    have listed := List.mem_of_find?_eq_some (found k member)
    rw [Grammar.registry, List.mem_singleton] at listed
    rw [← listed]
  rw [← order, List.map_map]
  exact ((List.map_congr_left only).trans (List.map_id known)).symm

theorem dialectsOf_handled {docs : List Document}
    (handled : ∀ d ∈ docs, Grammar.dialect.handles d.path = true) :
    dialectsOf Grammar.registry docs = .ok (docs.map fun d => (d, Grammar.dialect)) := by
  induction docs with
  | nil => rfl
  | cons d docs ih =>
    have rest := ih fun d member => handled d (by simp [member])
    rw [dialectsOf] at rest ⊢
    rw [List.mapM_cons]
    simp only [Registry.find?, Grammar.registry, List.find?_cons, handled d (by simp), bind,
      Except.bind] at rest ⊢
    rw [rest]
    rfl

theorem readAll_eq (x : Index) (docs : List Document) :
    readAll x (docs.map fun d => (d, Grammar.dialect)) = .ok (readInto x docs) := by
  induction docs generalizing x with
  | nil => rfl
  | cons d docs ih =>
    rw [List.map_cons, readAll, List.foldlM_cons]
    exact ih { x with files := x.files.insert d.path (freshState d) }

/-- What is there for a path after documents were read. -/
theorem get?_readInto {x : Index} {docs : List Document}
    (distinct : docs.Pairwise fun d d' => d.path.components ≠ d'.path.components) (p : Path) :
    (∀ d ∈ docs, p.components = d.path.components →
        (readInto x docs).files.get? p = some (freshState d)) ∧
      ((∀ d ∈ docs, p.components ≠ d.path.components) →
        (readInto x docs).files.get? p = x.files.get? p) := by
  unfold readInto
  simp only
  generalize x.files = t
  induction docs generalizing t with
  | nil => simp
  | cons d docs ih =>
    obtain ⟨apart, distinctRest⟩ := List.pairwise_cons.1 distinct
    obtain ⟨hit, miss⟩ := ih distinctRest (t.insert d.path (freshState d))
    rw [List.foldl_cons]
    constructor
    · intro d' member same
      rcases List.mem_cons.1 member with rfl | member
      · rw [miss fun d'' member' same' => apart d'' member' (same.symm.trans same'),
          PathTable.get?_insert, if_pos same]
      · exact hit d' member same
    · intro away
      rw [miss fun d' member => away d' (by simp [member]), PathTable.get?_insert,
        if_neg (away d (by simp))]

end Compile

namespace Engine

/-! ### Bringing the index up to date -/

/-- No indexed file is without a document. -/
theorem vanished_eq_nil {e : Engine}
    (backed : ∀ p s, e.index.files.get? p = some s → ∃ d, e.document? p = some d) :
    e.vanished = [] := by
  refine List.filter_eq_nil_iff.2 fun p listed => ?_
  obtain ⟨s, found⟩ := Option.isSome_iff_exists.1 (Table.contains_of_mem_keys listed)
  obtain ⟨d, held⟩ := backed p s found
  simp [held]

theorem forgetVanished_eq {e : Engine}
    (backed : ∀ p s, e.index.files.get? p = some s → ∃ d, e.document? p = some d) :
    e.forgetVanished = e := by
  rw [forgetVanished, vanished_eq_nil backed]
  rfl

/-- The documents that changed since they were bound. -/
def dirtyDocuments (e : Engine) : List Document := e.documents.filter (·.dirty)

/-- A run has nothing to do, stops before it changes anything, or reads every dirty document. -/
theorem compile_cases {e : Engine}
    (backed : ∀ p s, e.index.files.get? p = some s → ∃ d, e.document? p = some d) :
    (e.dirtyDocuments = [] ∧ e.compile = (e, .ok [])) ∨
      (∃ halt, e.compile = (e, .error halt)) ∨
      ∃ known x bound, Compile.dialectsOf e.registry e.dirtyDocuments = .ok known ∧
        Compile.readAll e.index known = .ok x ∧
        e.compile = ({ e with
          index := (Compile.bindAll x (e.dirtyDocuments.map (·.path))).index,
          workspace := e.workspace.setDirty false bound }, .ok bound) := by
  unfold compile
  rw [forgetVanished_eq backed]
  show (e.dirtyDocuments = [] ∧ ite (e.dirtyDocuments.isEmpty = true) _ _ = _) ∨ _
  by_cases none_ : e.dirtyDocuments.isEmpty = true
  · exact .inl ⟨List.isEmpty_iff.1 none_, if_pos none_⟩
  · refine .inr ?_
    simp only [show e.documents.filter (·.dirty) = e.dirtyDocuments from rfl]
    rw [if_neg none_]
    cases dialects : Compile.dialectsOf e.registry e.dirtyDocuments with
    | error halt => exact .inl ⟨halt, rfl⟩
    | ok known =>
      cases reading : Compile.readAll e.index known with
      | error halt =>
        simp only [bind, Except.bind, reading]
        exact .inl ⟨halt, rfl⟩
      | ok x =>
        simp only [bind, Except.bind, reading]
        exact .inr ⟨known, x, _, rfl, reading, rfl⟩

/-- A run that fails changes nothing. -/
theorem eq_of_compile_error {e e' : Engine} {halt : Halt}
    (backed : ∀ p s, e.index.files.get? p = some s → ∃ d, e.document? p = some d)
    (failed : e.compile = (e', .error halt)) : e' = e := by
  rcases compile_cases backed with ⟨_, run⟩ | ⟨_, run⟩ | ⟨_, _, _, _, _, run⟩
  · rw [run] at failed
    cases failed
  · rw [run] at failed
    cases failed
    rfl
  · rw [run] at failed
    cases failed

/-- The files that a run binds. -/
def rebound (e : Engine) : Compile.Progress :=
  Compile.bindAll (Compile.readInto e.index e.dirtyDocuments) (e.dirtyDocuments.map (·.path))

/-- The rounds of the coming run. -/
def rounds (e : Engine) : List (List Path) :=
  Compile.roundsOf ((Compile.readInto e.index e.dirtyDocuments).files.size + 1)
    ⟨Compile.readInto e.index e.dirtyDocuments, ∅⟩ (e.dirtyDocuments.map (·.path))

/-- The engine with its index up to date. -/
def compiled (e : Engine) : Engine :=
  { e with
    index := e.rebound.index,
    workspace := e.workspace.setDirty false (OrderedSet.toList e.rebound.bound) }

/-- A run does nothing, fails and does nothing, or brings everything up to date. -/
theorem compile_eq {e : Engine} (consistent : e.Consistent) :
    e.compile =
      if e.dirtyDocuments.isEmpty then (e, .ok [])
      else match Compile.dialectsOf Grammar.registry e.dirtyDocuments with
        | .error halt => (e, .error halt)
        | .ok _ => (e.compiled, .ok (OrderedSet.toList e.rebound.bound)) := by
  unfold compile
  rw [forgetVanished_eq consistent.backed]
  simp only [consistent.registry]
  split
  · next none_ => exact (if_pos none_).symm
  · next some_ =>
    refine Eq.trans ?_ (if_neg some_).symm
    rw [dirtyDocuments]
    cases known : Compile.dialectsOf Grammar.registry (e.documents.filter (·.dirty)) with
    | error halt => rfl
    | ok docs =>
      rw [Compile.dialectsOf_ok known]
      simp only [bind, Except.bind, Compile.readAll_eq]
      rw [compiled, consistent.registry]
      rfl

theorem compile_ok {e : Engine} (consistent : e.Consistent)
    (handled : ∀ p d, e.document? p = some d → Grammar.dialect.handles p = true) :
    ∃ after paths, e.compile = (after, .ok paths) := by
  rw [compile_eq consistent]
  split
  · exact ⟨e, [], rfl⟩
  · have all : ∀ d ∈ e.dirtyDocuments, Grammar.dialect.handles d.path = true := fun d member =>
      handled d.path d
        ((Workspace.mem_documents_iff consistent.tidy).1 (List.mem_filter.1 member).1)
    rw [Compile.dialectsOf_handled all]
    exact ⟨_, _, rfl⟩

theorem readFrom_freshState (d : Document) : ReadFrom (Compile.freshState d) d.text := ⟨rfl, rfl⟩

section Compiled

variable {e : Engine} (consistent : e.Consistent)

include consistent

theorem mem_dirtyDocuments {d : Document} :
    d ∈ e.dirtyDocuments ↔ e.document? d.path = some d ∧ d.dirty = true := by
  rw [dirtyDocuments, List.mem_filter]
  exact and_congr_left' (Workspace.mem_documents_iff consistent.tidy)

theorem dirtyDocuments_of_dirty {p : Path} {d : Document} (held : e.document? p = some d)
    (dirty : d.dirty = true) : d ∈ e.dirtyDocuments ∧ p.components = d.path.components := by
  have path := Workspace.path_of_find? consistent.tidy held
  refine ⟨(mem_dirtyDocuments consistent).2 ⟨?_, dirty⟩, path.symm⟩
  exact (Workspace.find?_congr e.workspace path).trans held

/-- What is there for a path when the run starts: the document's text if it is dirty, else what was
there before. -/
theorem get?_read (p : Path) :
    (∃ d ∈ e.dirtyDocuments, e.document? p = some d ∧ p.components = d.path.components ∧
        (Compile.readInto e.index e.dirtyDocuments).files.get? p = some (Compile.freshState d)) ∨
      (∀ d, e.document? p = some d → d.dirty = false) ∧
        (∀ d ∈ e.dirtyDocuments, p.components ≠ d.path.components) ∧
        (Compile.readInto e.index e.dirtyDocuments).files.get? p = e.index.files.get? p := by
  have distinct : e.dirtyDocuments.Pairwise fun d d' => d.path.components ≠ d'.path.components :=
    (Workspace.pairwise_documents consistent.tidy).filter _
  obtain ⟨hit, miss⟩ := Compile.get?_readInto (x := e.index) distinct p
  by_cases listed : ∃ d ∈ e.dirtyDocuments, p.components = d.path.components
  · obtain ⟨d, member, same⟩ := listed
    refine .inl ⟨d, member, ?_, same, hit d member same⟩
    exact (Workspace.find?_congr e.workspace same).trans ((mem_dirtyDocuments consistent).1 member).1
  · have away : ∀ d ∈ e.dirtyDocuments, p.components ≠ d.path.components := fun d member same =>
      listed ⟨d, member, same⟩
    refine .inr ⟨fun d held => ?_, away, miss away⟩
    cases dirty : d.dirty with
    | false => rfl
    | true =>
      obtain ⟨member, same⟩ := dirtyDocuments_of_dirty consistent held dirty
      exact absurd same (away d member)

/-- The run starts with the dirty files to be bound and all others up to date. -/
theorem midway_read : Compile.Midway baseStore (Compile.readInto e.index e.dirtyDocuments) ∅
    (e.dirtyDocuments.map (·.path)) := by
  have present : ∀ p, e.index.files.contains p = true →
      (Compile.readInto e.index e.dirtyDocuments).files.contains p = true := by
    intro p inside
    rcases get?_read consistent p with ⟨d, _, _, _, found⟩ | ⟨_, _, same⟩
    · rw [Table.contains, found]
      rfl
    · rw [Table.contains, same]
      exact inside
  refine ⟨consistent.sound, consistent.based, ?_, ?_, ?_, fun _ _ => rfl, ?_, ?_, ?_,
    .inl fun _ => rfl⟩
  · intro p s found
    rcases get?_read consistent p with ⟨d, _, _, _, found'⟩ | ⟨_, _, same⟩
    · rw [found'] at found
      cases found
      exact (readFrom_freshState d).readable
    · rw [same] at found
      obtain ⟨text, read⟩ := consistent.read p s found
      exact read.readable
  · exact fun id s q live file => present q (consistent.filed id s q live file)
  · intro p member
    obtain ⟨d, listed, rfl⟩ := List.mem_map.1 member
    rcases get?_read consistent d.path with ⟨_, _, _, _, found⟩ | ⟨_, away, _⟩
    · rw [Table.contains, found]
      rfl
    · exact absurd rfl (away d listed)
  · exact List.pairwise_map.2 ((Workspace.pairwise_documents consistent.tidy).filter _)
  · intro p s _ bound
    cases bound
  · intro p s found _ apart
    rcases get?_read consistent p with ⟨d, member, _, same, _⟩ | ⟨clean, _, same⟩
    · exact absurd same (apart d.path (List.mem_map.2 ⟨d, member, rfl⟩))
    · rw [same] at found
      obtain ⟨d, held⟩ := consistent.backed p s found
      exact (consistent.settled p s d found held (clean d held)).1

/-- What a successful run achieves: every document is clean and indexed, every file is up to date,
and no text has changed. -/
structure Fresh (before after : Engine) : Prop where
  consistent : after.Consistent
  clean : ∀ p d, after.document? p = some d → d.dirty = false
  texts : ∀ p, (after.document? p).map (·.text) = (before.document? p).map (·.text)

theorem document?_compiled (p : Path) :
    e.compiled.document? p = (e.document? p).map fun d => { d with dirty := false } := by
  obtain ⟨_, _, added⟩ := Compile.upToDate_bindAll (midway_read consistent)
  have view : e.compiled.document? p =
      if ∃ q ∈ OrderedSet.toList e.rebound.bound, p.components = q.components
      then (e.document? p).map fun d => { d with dirty := false } else e.document? p :=
    Workspace.find?_setDirty consistent.tidy false (OrderedSet.toList e.rebound.bound) p
  rw [view]
  split
  · rfl
  · next absent =>
    cases held : e.document? p with
    | none => rfl
    | some d =>
      cases dirty : d.dirty with
      | false =>
        obtain ⟨path, text, mark⟩ := d
        cases dirty
        rfl
      | true =>
        -- A dirty document belongs to the first round, so it is bound.
        obtain ⟨member, same⟩ := dirtyDocuments_of_dirty consistent held dirty
        have bound := added d.path (List.mem_map.2 ⟨d, member, rfl⟩)
        rw [← PathSet.contains_congr _ same] at bound
        exact absurd (PathSet.contains_iff_mem_toList.1 bound) absent

theorem fresh_compiled : Fresh e e.compiled := by
  obtain ⟨upToDate, reading, _⟩ := Compile.upToDate_bindAll (midway_read consistent)
  have view := document?_compiled consistent
  -- What the new index holds for a path was read from the document there.
  have source : ∀ p s, e.compiled.index.files.get? p = some s →
      ∃ d, e.document? p = some d ∧ ReadFrom s d.text := by
    intro p s found
    have same : e.compiled.index.reading? p =
        (Compile.readInto e.index e.dirtyDocuments).reading? p := reading p
    rw [Index.reading?, found] at same
    obtain ⟨s₀, found₀, read⟩ := Option.map_eq_some_iff.1 same.symm
    rcases get?_read consistent p with ⟨d, _, held, _, found'⟩ | ⟨clean, _, kept⟩
    · rw [found'] at found₀
      cases found₀
      exact ⟨d, held, (readFrom_freshState d).congr read.symm⟩
    · rw [kept] at found₀
      obtain ⟨d, held⟩ := consistent.backed p s₀ found₀
      exact ⟨d, held, (consistent.settled p s₀ d found₀ held (clean d held)).2.congr read.symm⟩
  have marked : ∀ p d', e.compiled.document? p = some d' →
      ∃ d, e.document? p = some d ∧ d' = { d with dirty := false } := by
    intro p d' held
    rw [view] at held
    obtain ⟨d, held₀, rfl⟩ := Option.map_eq_some_iff.1 held
    exact ⟨d, held₀, rfl⟩
  refine ⟨⟨consistent.registry, Workspace.tidy_setDirty consistent.tidy false _, upToDate.sound,
    upToDate.based, upToDate.filed, ?_, ?_, fun p s found => (upToDate.settled p s found).attached,
    ?_, ?_⟩, ?_, ?_⟩
  · intro p s found
    obtain ⟨d, held, _⟩ := source p s found
    exact ⟨_, by rw [view, held]; rfl⟩
  · intro p s found
    obtain ⟨d, _, read⟩ := source p s found
    exact ⟨d.text, read⟩
  · intro p s d' found held' _
    obtain ⟨d, held, read⟩ := source p s found
    obtain ⟨d₀, held₀, rfl⟩ := marked p d' held'
    rw [held] at held₀
    cases held₀
    exact ⟨upToDate.settled p s found, read⟩
  · intro p d' held' _
    obtain ⟨d, held, _⟩ := marked p d' held'
    have inside : (Compile.readInto e.index e.dirtyDocuments).files.contains p = true := by
      rcases get?_read consistent p with ⟨_, _, _, _, found⟩ | ⟨clean, _, kept⟩
      · rw [Table.contains, found]
        rfl
      · rw [Table.contains, kept]
        exact consistent.indexed p d held (clean d held)
    have same := congrArg Option.isSome (reading p)
    simp only [Index.reading?, Option.isSome_map] at same
    exact same.trans inside
  · intro p d' held'
    obtain ⟨d, _, rfl⟩ := marked p d' held'
    rfl
  · intro p
    rw [view, Option.map_map]
    rfl

/-- A run that succeeds had nothing to do, or brings the index up to date. -/
theorem cases_of_compile {after : Engine} {paths : List Path}
    (success : e.compile = (after, .ok paths)) :
    (e.dirtyDocuments = [] ∧ after = e) ∨ (e.dirtyDocuments ≠ [] ∧ after = e.compiled ∧
      paths = OrderedSet.toList e.rebound.bound) := by
  rw [compile_eq consistent] at success
  split at success
  · next none_ =>
    cases success
    exact .inl ⟨List.isEmpty_iff.1 none_, rfl⟩
  · next some_ =>
    split at success
    · cases success
    · cases success
      exact .inr ⟨by simpa using some_, rfl, rfl⟩

/-- A run that succeeds tells the files of its rounds. -/
theorem mem_paths_iff_rounds {after : Engine} {paths : List Path}
    (success : e.compile = (after, .ok paths)) (p : Path) :
    (∃ q ∈ paths, p.components = q.components) ↔ ∃ r ∈ e.rounds, Compile.Binds r p := by
  rw [compile_eq consistent] at success
  split at success
  · next none_ =>
    cases success
    rw [rounds, List.isEmpty_iff.1 none_, List.map_nil, Compile.roundsOf]
    simp
  · split at success
    · cases success
    · cases success
      rw [← PathSet.contains_iff_mem_toList]
      exact Compile.counted_runRounds (midway_read consistent) p

theorem fresh_of_compile {after : Engine} {paths : List Path}
    (success : e.compile = (after, .ok paths)) : Fresh e after := by
  rcases cases_of_compile consistent success with ⟨none_, rfl⟩ | ⟨_, rfl, _⟩
  · refine ⟨consistent, fun p d held => ?_, fun _ => rfl⟩
    cases dirty : d.dirty with
    | false => rfl
    | true =>
      have member := (dirtyDocuments_of_dirty consistent held dirty).1
      rw [none_] at member
      cases member
  · exact fresh_compiled consistent

theorem consistent_compile : e.compile.1.Consistent := by
  cases run : e.compile with
  | mk after result =>
    cases result with
    | ok paths => exact (fresh_of_compile consistent run).consistent
    | error halt => exact eq_of_compile_error consistent.backed run ▸ consistent

end Compiled

/-! ### Proposals -/

theorem consistent_storeTexts {e : Engine} (consistent : e.Consistent)
    (texts : List (Path × String)) :
    (texts.foldl (fun e r => e.storeText r.1 r.2) e).Consistent ∧
      (texts.foldl (fun e r => e.storeText r.1 r.2) e).index = e.index ∧
      (∀ q, (∀ r ∈ texts, q.components ≠ r.1.components) →
        (texts.foldl (fun e r => e.storeText r.1 r.2) e).document? q = e.document? q) ∧
      ∀ q, (e.document? q).isSome = true →
        ((texts.foldl (fun e r => e.storeText r.1 r.2) e).document? q).isSome = true := by
  induction texts generalizing e with
  | nil => exact ⟨consistent, rfl, fun _ _ => rfl, fun _ h => h⟩
  | cons r texts ih =>
    have view : ∀ q, (e.storeText r.1 r.2).document? q =
        if q.components = r.1.components then some (e.workspace.written r.1 r.2)
        else e.document? q := Workspace.find?_write consistent.tidy r.1 r.2
    obtain ⟨rest, index, others, held⟩ := ih (consistent_write consistent r.1 r.2
      (e.echoes.arm r.1 r.2))
    refine ⟨rest, index, fun q away => ?_, fun q some_ => ?_⟩
    · refine (others q fun r' member => away r' (by simp [member])).trans ?_
      exact (view q).trans (if_neg (away r (by simp)))
    · refine held q ?_
      show ((e.storeText r.1 r.2).document? q).isSome = true
      rw [view]
      split
      · rfl
      · exact some_

/-- Putting documents back gives the paths what was there before. -/
theorem document?_restore {before e : Engine} (consistent : before.Consistent)
    (tidy : e.workspace.Tidy) (texts : List (Path × String))
    (held : ∀ q, (before.document? q).isSome = true → (e.document? q).isSome = true) :
    (texts.foldl (fun s r => restoreFrom before s r.1) e).workspace.Tidy ∧
      (texts.foldl (fun s r => restoreFrom before s r.1) e).index = e.index ∧
      (texts.foldl (fun s r => restoreFrom before s r.1) e).registry = e.registry ∧
      ∀ q, (texts.foldl (fun s r => restoreFrom before s r.1) e).document? q =
        if ∃ r ∈ texts, q.components = r.1.components then before.document? q
        else e.document? q := by
  induction texts generalizing e with
  | nil => exact ⟨tidy, rfl, rfl, by simp⟩
  | cons r texts ih =>
    have step : (restoreFrom before e r.1).workspace.Tidy ∧ ∀ q,
        (restoreFrom before e r.1).document? q =
          if q.components = r.1.components then before.document? q else e.document? q := by
      cases was : before.document? r.1 with
      | none =>
        have removed : (restoreFrom before e r.1).workspace = e.workspace.remove r.1 := by
          simp only [restoreFrom, was]
        refine ⟨removed ▸ Workspace.tidy_remove tidy r.1, fun q => ?_⟩
        rw [document?, removed, Workspace.find?_remove tidy]
        split
        · next same =>
          exact ((Workspace.find?_congr before.workspace same).trans was).symm
        · rfl
      | some d =>
        have path : ∀ d', e.workspace.find? r.1 = some d' → d.path.components = r.1.components :=
          fun _ _ => Workspace.path_of_find? consistent.tidy was
        have changed : (restoreFrom before e r.1).workspace =
            e.workspace.modify r.1 fun _ => d := by
          simp only [restoreFrom, was]
        refine ⟨changed ▸ Workspace.tidy_modify tidy path, fun q => ?_⟩
        rw [document?, changed, Workspace.find?_modify tidy path]
        split
        · next same =>
          have here : before.document? q = some d :=
            (Workspace.find?_congr before.workspace same).trans was
          obtain ⟨d', found⟩ := Option.isSome_iff_exists.1 (held q (by rw [here]; rfl))
          rw [here, show e.workspace.find? q = some d' from found]
          rfl
        · rfl
    obtain ⟨tidy', view⟩ := step
    obtain ⟨rest, index, registry, views⟩ := ih tidy' (by
      intro q some_
      rw [view]
      split
      · exact some_
      · exact held q some_)
    refine ⟨rest, index, registry, fun q => ?_⟩
    rw [List.foldl_cons, views, view]
    by_cases later : ∃ r' ∈ texts, q.components = r'.1.components
    · simp [later]
    · by_cases same : q.components = r.1.components
      · simp [same]
      · simp [later, same]

theorem consistent_applyProposal {e : Engine} (consistent : e.Consistent) (proposal : Proposal) :
    (e.applyProposal proposal).1.Consistent := by
  unfold applyProposal
  split
  · exact consistent
  · split
    · exact consistent
    · next edits _ _ =>
      simp only
      generalize (proposal.entries.filter fun r => edits.contains r.1) = changed
      obtain ⟨stored, index, others, held⟩ := consistent_storeTexts consistent changed
      have registry : (changed.foldl (fun e r => e.storeText r.1 r.2) e).registry = e.registry :=
        stored.registry.trans consistent.registry.symm
      generalize changed.foldl (fun e r => e.storeText r.1 r.2) e = written at *
      split
      · next after paths run => exact (fresh_of_compile stored run).consistent
      · next after err run =>
        rw [eq_of_compile_error stored.backed run]
        obtain ⟨tidy, index', registry', views⟩ :=
          document?_restore consistent stored.tidy changed held
        have same : ∀ q, (changed.foldl (fun s r => restoreFrom e s r.1) written).document? q =
            e.document? q := by
          intro q
          rw [views]
          split
          · rfl
          · next away => exact others q fun r member same => away ⟨r, member, same⟩
        exact consistent.of_documents (registry'.trans registry) (index'.trans index) tidy
          (fun q d found _ => (same q).symm.trans found)
          (fun q d found => ⟨d, (same q).trans found⟩)
      · next after message run => exact eq_of_compile_error stored.backed run ▸ stored

/-- An index that needs no run is up to date. -/
theorem fresh_of_current {e : Engine} (consistent : e.Consistent)
    (current : e.needsCompile = false) : Fresh e e := by
  refine ⟨consistent, fun p d held => ?_, fun _ => rfl⟩
  rw [needsCompile, Bool.or_eq_false_iff] at current
  exact Bool.eq_false_iff.2
    (List.any_eq_false.1 current.1 d (Workspace.mem_documents_of_find? consistent.tidy held))

/-! ### Runs -/

/-- What can be asked of an engine. -/
inductive Operation where
  | openDocument (p : Path) (text : String)
  | notifyChange (p : Path) (text : String)
  | closeDocument (p : Path)
  | applyProposal (proposal : Proposal)
  | reset
  | compile

/-- The engine after an operation. -/
def perform (e : Engine) : Operation → Engine
  | .openDocument p text => e.openDocument p text
  | .notifyChange p text => (e.notifyChange p text).1
  | .closeDocument p => (e.closeDocument p).1
  | .applyProposal proposal => (e.applyProposal proposal).1
  | .reset => e.reset
  | .compile => e.compile.1

/-- The engine after operations, from one without documents. -/
def after (config : Config) (operations : List Operation) : Engine :=
  operations.foldl perform (new Grammar.registry config)

theorem consistent_perform {e : Engine} (consistent : e.Consistent) (operation : Operation) :
    (e.perform operation).Consistent := by
  cases operation with
  | openDocument p text => exact consistent_openDocument consistent p text
  | notifyChange p text => exact consistent_notifyChange consistent p text
  | closeDocument p => exact consistent_closeDocument consistent p
  | applyProposal proposal => exact consistent_applyProposal consistent proposal
  | reset => exact consistent_reset consistent
  | compile => exact consistent_compile consistent

/-- The invariant holds after any operations. -/
theorem consistent_after (config : Config) (operations : List Operation) :
    (after config operations).Consistent := by
  have run : ∀ {e : Engine}, e.Consistent → (operations.foldl perform e).Consistent := by
    induction operations with
    | nil => exact fun consistent => consistent
    | cons operation operations ih =>
      exact fun consistent => ih (consistent_perform consistent operation)
  exact run (consistent_new config)

/-! ### What is kept of the index -/

section

variable {P : Index → Prop}
  (bind : ∀ {e : Engine}, e.Consistent → P e.index → P e.compiled.index)
  (forget : ∀ {x : Index} (p : Path), P x → P (x.forget p).1)

include bind

theorem index_compile {e : Engine} (consistent : e.Consistent) (holds : P e.index) :
    P e.compile.1.index := by
  cases run : e.compile with
  | mk after result =>
    cases result with
    | ok paths =>
      rcases cases_of_compile consistent run with ⟨_, rfl⟩ | ⟨_, rfl, _⟩
      · exact holds
      · exact bind consistent holds
    | error halt => exact eq_of_compile_error consistent.backed run ▸ holds

theorem index_applyProposal {e : Engine} (consistent : e.Consistent) (holds : P e.index)
    (proposal : Proposal) : P (e.applyProposal proposal).1.index := by
  unfold applyProposal
  split
  · exact holds
  · split
    · exact holds
    · next edits _ _ =>
      simp only
      generalize (proposal.entries.filter fun r => edits.contains r.1) = changed
      obtain ⟨stored, index, _, held⟩ := consistent_storeTexts consistent changed
      generalize changed.foldl (fun e r => e.storeText r.1 r.2) e = written at *
      have bound := index_compile bind stored (index ▸ holds)
      split
      · next after paths run =>
        rw [run] at bound
        exact bound
      · next after err run =>
        have same := eq_of_compile_error stored.backed run
        obtain ⟨_, index', _⟩ := document?_restore consistent stored.tidy changed held
        rw [same, index', index]
        exact holds
      · next after message run =>
        rw [run] at bound
        exact bound

include forget

/-- What holds of the index without files, and is kept when files are bound and when one is
forgotten, holds of the index after any operations. -/
theorem index_after (blank : P (.ofRegistry Grammar.registry)) (config : Config)
    (operations : List Operation) : P (after config operations).index := by
  have step : ∀ {e : Engine}, e.Consistent → P e.index → ∀ operation : Operation,
      P (e.perform operation).index := by
    intro e consistent holds operation
    cases operation with
    | openDocument p text => exact holds
    | notifyChange p text => exact holds
    | closeDocument p => exact forget p holds
    | applyProposal proposal => exact index_applyProposal bind consistent holds proposal
    | reset =>
      show P (.ofRegistry e.registry)
      rw [consistent.registry]
      exact blank
    | compile => exact index_compile bind consistent holds
  have run : ∀ {e : Engine}, e.Consistent → P e.index →
      P (operations.foldl perform e).index := by
    induction operations with
    | nil => exact fun _ holds => holds
    | cons operation operations ih =>
      exact fun consistent holds =>
        ih (consistent_perform consistent operation) (step consistent holds operation)
  exact run (consistent_new config) blank

end

end Engine

end GrammarIndex
