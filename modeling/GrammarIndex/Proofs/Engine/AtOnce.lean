import GrammarIndex.Proofs.Engine.Announced
import GrammarIndex.Proofs.Engine.Occurrences
import GrammarIndex.Proofs.Engine.SameDocuments

/-!
Documents that are bound all at once.

If a run has to bind every document, its first round binds them all and no other follows. Every
symbol is then bound to its name or follows the announcement that is, so the definitions that a file
lists are those that their names stand for, and definitions and references of a name lead to one
symbol.
-/
namespace GrammarIndex

namespace Compile

/-- If the first round has all files, all symbols are reached after the run. -/
theorem reached_runRounds {base : ScopeStore} {x₀ : Index} {first : List Path}
    (start : Midway base x₀ ∅ first)
    (all : ∀ p, x₀.files.contains p = true → ∃ q ∈ first, p.components = q.components) :
    ∀ p ∈ first, (runRounds (x₀.files.size + 1) ⟨x₀, ∅⟩ first).index.scopes.Reached p := by
  have ended := (runRounds_induction (Q := fun x bound round =>
    (x = x₀ ∧ bound = ∅ ∧ round = first) ∨ ((∀ p ∈ first, bound.contains p = true) ∧
      (∀ p, x.reading? p = x₀.reading? p) ∧ ∀ p ∈ first, x.scopes.Reached p))
    ?_ _ start (waitingCount_lt_size x₀ ∅) (.inl ⟨rfl, rfl, rfl⟩)).2
  · rcases ended with ⟨_, _, none_⟩ | ⟨_, _, reached⟩
    · rw [← none_]
      exact fun p member => by cases member
    · exact reached
  · intro x bound round midway holds
    have further := further_runRound midway
    rcases holds with ⟨rfl, rfl, rfl⟩ | ⟨done, reading, reached⟩
    · refine .inr ⟨fun p member => ?_, further.reading, fun p member => ?_⟩
      · exact (PathSet.contains_addAll ∅ round p).2 (.inr ⟨p, member, rfl⟩)
      · exact reached_runRound midway member
    · -- Every file is bound by now, so the round is empty.
      have empty : round = [] := by
        refine List.eq_nil_iff_forall_not_mem.2 fun p member => ?_
        have same := congrArg Option.isSome (reading p)
        simp only [Index.reading?, Option.isSome_map] at same
        obtain ⟨q, inFirst, path⟩ := all p (same.symm.trans (midway.present p member))
        have unbound := midway.unbound p member
        rw [PathSet.contains_congr bound path, done q inFirst] at unbound
        cases unbound
      refine .inr ⟨fun p member => further.grows p (done p member),
        fun p => (further.reading p).trans (reading p), fun p member => ?_⟩
      rw [empty]
      exact reached p member

end Compile

namespace Engine

/-- An index into which the documents were bound all at once. -/
structure AtOnce (docs : List Document) (before e : Engine) : Prop where
  fresh : Fresh before e
  indexed : ∀ d ∈ docs, ∃ s, e.index.file? d.path = some s ∧ ReadFrom s d.text
  held : ∀ p s, e.index.file? p = some s → ∃ d ∈ docs, d.path.components = p.components ∧
    ReadFrom s d.text
  stands : ∀ dir g x, e.index.scopes.scopeFor? dir = some g → e.index.scopes.standing g x =
    (definitionsOf docs dir g x).foldl Standing.hear none
  reached : ∀ p, e.index.files.contains p = true → e.index.scopes.Reached p

theorem atOnce_compiled {e : Engine} (consistent : e.Consistent)
    (dirty : ∀ p d, e.document? p = some d → d.dirty = true) (some_ : e.documents ≠ []) :
    AtOnce e.documents e e.compiled := by
  have marked : ∀ d ∈ e.documents, d.dirty = true := fun d member =>
    dirty d.path d ((Workspace.mem_documents_iff consistent.tidy).1 member)
  have all : e.dirtyDocuments = e.documents := List.filter_eq_self.2 marked
  have fresh := fresh_compiled consistent
  have source : ∀ p s, e.compiled.index.file? p = some s →
      ∃ d, e.document? p = some d ∧ ReadFrom s d.text := by
    intro p s found
    obtain ⟨_, _, after, read⟩ := fresh.settled found
    rw [document?_compiled consistent] at after
    obtain ⟨d, held, rfl⟩ := Option.map_eq_some_iff.1 after
    exact ⟨d, held, read⟩
  refine ⟨fresh, fun d member => ?_, fun p s found => ?_, fun dir g x home => ?_,
    fun p present => ?_⟩
  · have held := (Workspace.mem_documents_iff consistent.tidy).1 member
    have held' : e.compiled.document? d.path = some { d with dirty := false } := by
      rw [document?_compiled consistent, show e.document? d.path = some d from held]
      rfl
    obtain ⟨s, found⟩ := Option.isSome_iff_exists.1 (fresh.consistent.indexed d.path _ held' rfl)
    obtain ⟨d', held'', read⟩ := source d.path s found
    cases held.symm.trans held''
    exact ⟨s, found, read⟩
  · obtain ⟨d, held, read⟩ := source p s found
    exact ⟨d, Workspace.mem_documents_of_find? consistent.tidy held,
      Workspace.path_of_find? consistent.tidy held, read⟩
  · exact standing_compiled consistent (fun d member _ _ => marked d member) (all ▸ some_) home
  · have read : ∀ p, (Compile.readInto e.index e.dirtyDocuments).files.contains p = true →
        ∃ q ∈ e.dirtyDocuments.map (·.path), p.components = q.components := by
      intro p present
      rcases get?_read consistent p with ⟨d, member, _, path, _⟩ | ⟨clean, _, kept⟩
      · exact ⟨d.path, List.mem_map_of_mem member, path⟩
      · rw [Table.contains, kept] at present
        obtain ⟨s, found⟩ := Option.isSome_iff_exists.1 present
        obtain ⟨d, held⟩ := consistent.backed p s found
        cases (dirty p d held).symm.trans (clean d held)
    have reached := Compile.reached_runRounds (midway_read consistent) read
    rw [← scopes_compiled] at reached
    obtain ⟨s, found⟩ := Option.isSome_iff_exists.1 present
    obtain ⟨d, held, _⟩ := source p s found
    obtain ⟨member, path⟩ := dirtyDocuments_of_dirty consistent held (dirty p d held)
    intro j u live own
    exact reached d.path (List.mem_map_of_mem member) j u live (own.congr path)

/-! ### What names mean -/

/-- What a built-in name means. -/
def builtinMeaning (x : String) : Option Identity :=
  (baseStore.lookup? ScopeStore.globalScope x).bind fun id =>
    (baseStore.symbol? id).map Symbol.identity

theorem place_builtinMeaning {x : String} {i : Identity} (means : builtinMeaning x = some i) :
    i.place = none := by
  obtain ⟨id, _, found⟩ := Option.bind_eq_some_iff.1 means
  obtain ⟨s, live, rfl⟩ := Option.map_eq_some_iff.1 found
  have site : s.site = none := Option.map_eq_none_iff.1 (sound_baseStore.2 id s live)
  rw [Symbol.identity, site]
  rfl

section Fresh

variable {before e : Engine} (fresh : Fresh before e)

include fresh

/-- What a name means is told from its standing, and from what is built in. -/
theorem Fresh.meaning_of_standing {dir : Path} {g : Nat}
    (home : e.index.scopes.scopeFor? dir = some g) (x : String) :
    (e.index.scopes.resolveTarget? g x).bind e.identity? =
      ((e.index.scopes.standing g x).map fun v => v.meant.identity).or (builtinMeaning x) := by
  have sound := fresh.consistent.sound
  cases stands : e.index.scopes.standing g x with
  | some v =>
    obtain ⟨id, leads, live⟩ := sound.resolveTarget?_of_standing home stands
    rw [leads, Option.bind_some, identity?, live]
    rfl
  | none =>
    rw [ScopeStore.resolveTarget?, ScopeStore.resolve?_eq sound.layered home,
      (ScopeStore.standing_eq_none_iff sound.toCore g x).1 stands, Option.none_or,
      fresh.consistent.based.names, builtinMeaning, Option.map_none, Option.none_or]
    cases above : baseStore.lookup? ScopeStore.globalScope x with
    | none => rfl
    | some id => exact fresh.builtin above

/-- What a reference means is told from the standing of its name, and from what is built in. -/
theorem Fresh.meaning?_of_refers {p : Path} {s : FileState} (found : e.index.file? p = some s)
    {n : Nat} (refers : s.Refers n) : e.meaning? s n =
      ((e.index.scopes.standing s.scope (s.parsed.tree.textOf n)).map
        fun v => v.meant.identity).or (builtinMeaning (s.parsed.tree.textOf n)) := by
  rw [meaning?, fresh.symbolAt?_of_refers found refers, fresh.follow_resolved found refers,
    fresh.meaning_of_standing (fresh.settled found).1.attached.home]

/-- Files of one directory, and no others, have one scope. -/
theorem Fresh.scope_eq_iff {p : Path} {s : FileState} (found : e.index.file? p = some s) {dir : Path}
    {g : Nat} (home : e.index.scopes.scopeFor? dir = some g) :
    s.scope = g ↔ p.directory.components = dir.components := by
  constructor
  · rintro rfl
    have own := (fresh.settled found).1.attached.home
    exact fresh.consistent.sound.layered.distinct _ _ _ own home
  · intro here
    exact fresh.scope_eq found here home

/-- The references that are resolved are those that mean something. -/
theorem Fresh.resolved_iff_meaning {p : Path} {s : FileState} (found : e.index.file? p = some s)
    {n : Nat} : s.record.resolved.contains n = true ↔
      s.Refers n ∧ (e.meaning? s n).isSome = true := by
  rw [fresh.contains_resolved found]
  split
  · next refers =>
    rw [meaning?, fresh.symbolAt?_of_refers found refers, fresh.follow_resolved found refers,
      fresh.isSome_meaning (fresh.settled found).1.attached.home]
    exact (and_iff_right refers).symm
  · next silent => exact iff_of_false (by simp) fun refers => silent refers.1

/-- Which terminals of a file are references is told from its text. -/
theorem Fresh.reference?_eq {p : Path} {s : FileState} (found : e.index.file? p = some s)
    {text : String} (read : ReadFrom s text) (n : Nat) :
    s.reference? n = Grammar.dialect.reference? (Grammar.parse text).tree ∅ n := by
  obtain ⟨settled, _⟩ := fresh.settled found
  rw [FileState.reference?, Binding.referenceAt, read.dialect, read.parsed]
  cases noted : s.record.defs.get? n with
  | some c =>
    obtain ⟨id, listed⟩ := settled.attached.recorded.defs n c noted
    obtain ⟨_, c', _, _, defines, _⟩ := settled.attached.recorded.described n id listed
    rw [read.dialect, read.parsed] at defines
    have silent : Grammar.dialect.reference? (Grammar.parse text).tree ∅ n = none :=
      Grammar.reference?_of_definition text (Option.isSome_iff_exists.2 ⟨c', defines⟩)
    rw [Table.contains, noted, silent]
    rfl
  | none =>
    have absent : s.record.defs.contains n = false := by rw [Table.contains, noted]; rfl
    rw [absent]
    exact Grammar.reference?_congr (by rw [absent]; rfl)

/-- What occurs in a file is classified in its text. -/
theorem Fresh.classified_of_occurs {p : Path} {s : FileState} (found : e.index.file? p = some s)
    {text : String} (read : ReadFrom s text) {n : Nat} (occurs : n ∈ s.record.occurrences) :
    (Grammar.dialect.definition? (Grammar.parse text).tree ∅ n).isSome = true ∨
      (Grammar.dialect.reference? (Grammar.parse text).tree ∅ n).isSome = true := by
  rcases fresh.occurs_cases found occurs with ⟨id, listed⟩ | refers
  · obtain ⟨_, c, _, _, defines, _⟩ :=
      (fresh.settled found).1.attached.recorded.described n id listed
    rw [read.dialect, read.parsed] at defines
    exact .inl (Option.isSome_iff_exists.2 ⟨c, defines⟩)
  · rw [← fresh.reference?_eq found read]
    exact .inr refers.2

end Fresh

theorem AtOnce.read {docs : List Document} {before e : Engine} (once : AtOnce docs before e)
    {d : Document} (member : d ∈ docs) {s : FileState} (found : e.index.file? d.path = some s) :
    ReadFrom s d.text := by
  obtain ⟨s', found', read⟩ := once.indexed d member
  rw [found] at found'
  cases found'
  exact read

section AtOnce

variable {docs : List Document} {before e : Engine} (once : AtOnce docs before e) {p : Path}
  {s : FileState} (found : e.index.file? p = some s)

include once found

/-- A definition that a file lists leads where its name leads. -/
theorem AtOnce.follow_listed {n id : Nat} (listed : s.record.symbols.get? n = some id) :
    e.index.scopes.resolveTarget? s.scope (s.parsed.tree.textOf n) =
      some (e.index.scopes.follow id) := by
  have sound := once.fresh.consistent.sound
  obtain ⟨settled, _⟩ := once.fresh.settled found
  obtain ⟨_, c, q, u, _, _, spelled, live, alike⟩ := settled.attached.recorded.described n id listed
  have own : u.OwnedBy p := alike.ownedBy.1 (Symbol.ownedBy_iff.2 ⟨q, rfl, spelled⟩)
  have present : e.index.files.contains p = true := Option.isSome_iff_exists.2 ⟨s, found⟩
  obtain ⟨id', s', bound, live', leads⟩ := once.reached p present id u live own
  rw [← alike.scope, ← alike.name] at bound
  replace bound : e.index.scopes.lookup? s.scope (s.parsed.tree.textOf n) = some id' := bound
  rw [ScopeStore.resolveTarget?, ScopeStore.resolve?_eq sound.layered settled.attached.home, bound,
    Option.some_or, Option.map_some]
  rcases leads with rfl | target
  · rfl
  · obtain ⟨_, v, liveV, self, _⟩ := sound.aimed id' s' id live' target
    rw [ScopeStore.follow_of_target sound.toCore live' target,
      ScopeStore.follow_of_self sound.toCore liveV self]

/-- Definitions and references stand for what their names stand for. -/
theorem AtOnce.follow_symbolAt? {n : Nat} (occurs : n ∈ s.record.occurrences) :
    (s.record.symbolAt? n).map e.index.scopes.follow =
      e.index.scopes.resolveTarget? s.scope (s.parsed.tree.textOf n) := by
  rcases once.fresh.occurs_cases found occurs with ⟨id, listed⟩ | refers
  · rw [once.follow_listed found listed, BindingRecord.symbolAt?, listed, Option.some_or,
      Option.map_some]
  · rw [once.fresh.symbolAt?_of_refers found refers, once.fresh.follow_resolved found refers]

/-- A file lists the definitions that their names stand for. -/
theorem AtOnce.listed_iff (n : Nat) : s.record.symbols.contains n = true ↔
    ∃ v u, e.index.scopes.standing s.scope (s.parsed.tree.textOf n) = some v ∧
      (u = v.first ∨ v.second = some u) ∧
      u.site.map Site.place = some (p.components, n, s.parsed.tree.spanOf n) := by
  have sound := once.fresh.consistent.sound
  obtain ⟨settled, _⟩ := once.fresh.settled found
  rw [Table.contains, Option.isSome_iff_exists]
  constructor
  · rintro ⟨id, listed⟩
    obtain ⟨_, c, q, u, _, _, spelled, live, alike⟩ :=
      settled.attached.recorded.described n id listed
    have own : u.OwnedBy p := alike.ownedBy.1 (Symbol.ownedBy_iff.2 ⟨q, rfl, spelled⟩)
    have present : e.index.files.contains p = true := Option.isSome_iff_exists.2 ⟨s, found⟩
    obtain ⟨id', s', bound, live', leads⟩ := once.reached p present id u live own
    rw [← alike.scope, ← alike.name] at bound
    have place : u.bare.site.map Site.place = some (p.components, n, s.parsed.tree.spanOf n) := by
      rw [Symbol.bare, ← alike.site, ← spelled]
      rfl
    refine ⟨_, u.bare, ScopeStore.standing_of_bound bound live', ?_, place⟩
    rcases leads with rfl | target
    · rw [live] at live'
      cases live'
      exact .inl rfl
    · rw [target, Option.bind_some, live]
      exact .inr rfl
  · rintro ⟨v, u, stands, which, place⟩
    obtain ⟨id, sym, live, _, _, rfl⟩ := sound.symbol_of_standing stands which
    obtain ⟨site, here, spelled⟩ := Option.map_eq_some_iff.1 place
    obtain ⟨file, node⟩ := Prod.mk.inj spelled
    have own : sym.OwnedBy p := Symbol.ownedBy_iff.2 ⟨site.file, by
      rw [Symbol.file?, show sym.site = some site from here, Option.map_some], file⟩
    obtain ⟨m, c, q, _, listed, _, _, _, alike⟩ := settled.attached.recorded.site live own
    have same : m = site.node :=
      congrArg Site.node (Option.some.inj (alike.site.trans here))
    exact ⟨id, (same.trans (Prod.mk.inj node).1) ▸ listed⟩

end AtOnce

end Engine

end GrammarIndex
