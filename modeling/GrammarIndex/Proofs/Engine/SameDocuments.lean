import GrammarIndex.Proofs.Engine.Orderly

/-!
Indexes over the same documents.

Symbols that are mentioned can be told apart by their names and places. So two engines that are up to
date with the same documents agree, whatever slots their symbols have, if names mean the same in both
and the same definitions are listed. Where the indexes are orderly for a name, the documents alone
decide both.
-/
namespace GrammarIndex

namespace Engine

/-! ### Telling symbols apart -/

section Fresh

variable {before e : Engine} (fresh : Fresh before e)

include fresh

/-- What a name resolves to is live and has that name, in a file of the directory or built in. -/
theorem Fresh.resolved {dir : Path} {g : Nat} (scope : e.index.scopes.scopeFor? dir = some g)
    {x : String} {t : Nat} (leads : e.index.scopes.resolveTarget? g x = some t) :
    ∃ sym, e.index.scopes.symbol? t = some sym ∧ sym.name = x ∧
      ((∃ f, sym.file? = some f ∧ e.index.scopes.byKey.get? f.directory = some g) ∨
        sym.file? = none ∧ e.index.scopes.lookup? ScopeStore.globalScope x = some t) := by
  have sound := fresh.consistent.sound
  obtain ⟨positive, inside⟩ := sound.layered.keyed _ _ scope
  rw [ScopeStore.resolveTarget?, ScopeStore.resolve?_eq sound.layered scope] at leads
  obtain ⟨id, bound, rfl⟩ := Option.map_eq_some_iff.1 leads
  rcases Option.or_eq_some_iff.1 bound with here | ⟨_, above⟩
  · obtain ⟨sym, live, name, place⟩ := sound.bound _ _ _ here
    obtain ⟨u, liveU, nameU, placeU, _⟩ := ScopeStore.live_follow sound.toCore live
    replace placeU := placeU.trans place
    obtain ⟨f, file⟩ := sound.exists_file liveU (placeU ▸ positive)
    exact ⟨u, liveU, nameU.trans name, .inl ⟨f, file, placeU ▸ sound.homed _ u f liveU file⟩⟩
  · obtain ⟨sym, live, name, top⟩ := sound.bound _ _ _ above
    have builtin := sound.file?_of_global live top
    rw [ScopeStore.follow_of_self sound.toCore live (sound.builtin id sym live builtin).2]
    exact ⟨sym, live, name, .inr ⟨builtin, above⟩⟩

/-- A built-in name means what it means without documents. -/
theorem Fresh.builtin {x : String} {id : Nat}
    (above : baseStore.lookup? ScopeStore.globalScope x = some id) :
    e.identity? (e.index.scopes.follow id) = (baseStore.symbol? id).map Symbol.identity := by
  have sound := fresh.consistent.sound
  obtain ⟨sym, live, _, top⟩ := sound.bound _ _ _ ((fresh.consistent.based.names x).trans above)
  have self := (sound.builtin id sym live (sound.file?_of_global live top)).2
  rw [ScopeStore.follow_of_self sound.toCore live self, identity?,
    fresh.consistent.based.symbols x id above]

/-- Names that resolve have a meaning. -/
theorem Fresh.isSome_meaning {dir : Path} {g : Nat} (scope : e.index.scopes.scopeFor? dir = some g)
    (x : String) : ((e.index.scopes.resolveTarget? g x).bind e.identity?).isSome =
      (e.index.scopes.resolveTarget? g x).isSome := by
  cases leads : e.index.scopes.resolveTarget? g x with
  | none => rfl
  | some t =>
    obtain ⟨sym, live, _⟩ := fresh.resolved scope leads
    rw [Option.bind_some, identity?, live]
    rfl

/-- What is mentioned is a definition of a file or a built-in name. -/
theorem Fresh.symbol_of_mentions {id : Nat} (mentioned : e.Mentions id) :
    ∃ sym, e.index.scopes.symbol? id = some sym ∧ ((∃ f, sym.file? = some f) ∨
      sym.file? = none ∧ e.index.scopes.lookup? ScopeStore.globalScope sym.name = some id) := by
  have sound := fresh.consistent.sound
  obtain ⟨p, s, n, found, leads⟩ := mentioned
  obtain ⟨settled, _⟩ := fresh.settled found
  cases listed : s.record.symbols.get? n with
  | some id₀ =>
    rw [BindingRecord.symbolAt?, listed, Option.some_or, Option.map_some] at leads
    cases leads
    obtain ⟨_, _, q, sym, _, _, _, live, alike⟩ := settled.attached.recorded.described n id₀ listed
    obtain ⟨u, liveU, _, placeU, _⟩ := ScopeStore.live_follow sound.toCore live
    have place : u.scope = s.scope := placeU.trans alike.scope.symm
    have positive := (sound.layered.keyed _ _ settled.attached.home).1
    exact ⟨u, liveU, .inl (sound.exists_file liveU (place ▸ positive))⟩
  | none =>
    rw [fresh.follow_unlisted found listed] at leads
    split at leads
    · obtain ⟨sym, live, name, place⟩ := fresh.resolved settled.attached.home leads
      refine ⟨sym, live, ?_⟩
      rcases place with ⟨f, file, _⟩ | ⟨builtin, above⟩
      · exact .inl ⟨f, file⟩
      · exact .inr ⟨builtin, name ▸ above⟩
    · cases leads

theorem Fresh.telling : e.Telling := by
  refine ⟨fun id mentioned => ?_, fun id id' mentioned mentioned' same => ?_⟩
  · obtain ⟨sym, live, _⟩ := fresh.symbol_of_mentions mentioned
    rw [identity?, live]
    rfl
  · obtain ⟨sym, live, place⟩ := fresh.symbol_of_mentions mentioned
    obtain ⟨sym', live', place'⟩ := fresh.symbol_of_mentions mentioned'
    rw [identity?, identity?, live, live', Option.map_some, Option.map_some] at same
    obtain ⟨names, _, places⟩ := Identity.mk.inj (Option.some.inj same)
    rcases place with ⟨f, file⟩ | ⟨builtin, above⟩ <;>
      rcases place' with ⟨f', file'⟩ | ⟨builtin', above'⟩
    · -- Both are listed by one file, for one terminal.
      obtain ⟨q, s, _, n, origin⟩ := fresh.origin live file
      obtain ⟨q', s', _, n', origin'⟩ := fresh.origin live' file'
      rw [origin.site, origin'.site, Option.map_some, Option.map_some, Option.some.injEq] at places
      obtain ⟨spelled, rest⟩ := Prod.mk.inj places
      obtain rfl : n = n' := (Prod.mk.inj rest).1
      have found := origin.found
      rw [show e.index.file? q = e.index.file? q' from PathTable.get?_congr e.index.files spelled,
        origin'.found] at found
      cases found
      exact Option.some.inj (origin.listed.symm.trans origin'.listed)
    · rw [Symbol.file?] at file builtin'
      rw [Option.map_eq_none_iff.1 builtin', Option.map_none, Option.map_eq_none_iff] at places
      rw [places] at file
      cases file
    · rw [Symbol.file?] at file' builtin
      rw [Option.map_eq_none_iff.1 builtin, Option.map_none] at places
      rw [Option.map_eq_none_iff.1 places.symm] at file'
      cases file'
    · rw [names, above'] at above
      exact (Option.some.inj above).symm

end Fresh

/-! ### Two engines with the same documents -/

/-- Names of a directory mean the same in two engines. -/
def MeansAlike (e e' : Engine) (dir : Path) (x : String) : Prop :=
  ∀ g g', e.index.scopes.scopeFor? dir = some g → e'.index.scopes.scopeFor? dir = some g' →
    (e.index.scopes.resolveTarget? g x).bind e.identity? =
      (e'.index.scopes.resolveTarget? g' x).bind e'.identity?

/-- A terminal is listed alike in two states of a file, and means the same as a definition. -/
structure ListedAlike (e e' : Engine) (s s' : FileState) (n : Nat) : Prop where
  contains : s.record.symbols.contains n = true ↔ s'.record.symbols.contains n = true
  meaning : ∀ id id', s.record.symbols.get? n = some id → s'.record.symbols.get? n = some id' →
    e.identity? (e.index.scopes.follow id) = e'.identity? (e'.index.scopes.follow id')

section Two

variable {before before' e e' : Engine} (fresh : Fresh before e) (fresh' : Fresh before' e')

include fresh fresh'

/-- The same names resolve. -/
theorem isSome_resolveTarget? {dir : Path} {g g' : Nat}
    (scope : e.index.scopes.scopeFor? dir = some g)
    (scope' : e'.index.scopes.scopeFor? dir = some g') {x : String} (means : MeansAlike e e' dir x) :
    (e.index.scopes.resolveTarget? g x).isSome = (e'.index.scopes.resolveTarget? g' x).isSome := by
  rw [← fresh.isSome_meaning scope, ← fresh'.isSome_meaning scope', means g g' scope scope']

/-- The same names are visible. -/
theorem contains_visible {dir : Path} {g g' : Nat}
    (scope : e.index.scopes.scopeFor? dir = some g)
    (scope' : e'.index.scopes.scopeFor? dir = some g') {x : String} (means : MeansAlike e e' dir x) :
    (e.index.scopes.visible g).contains x = (e'.index.scopes.visible g').contains x := by
  have resolves := isSome_resolveTarget? fresh fresh' scope scope' means
  rw [ScopeStore.resolveTarget?, ScopeStore.resolveTarget?, Option.isSome_map,
    Option.isSome_map] at resolves
  rw [Table.contains, Table.contains, ScopeStore.get?_visible, ScopeStore.get?_visible]
  exact resolves

/-- A name that no document of a directory has bound means what it means without documents. -/
theorem meaning_of_unbound {dir : Path} {g g' : Nat} (scope : e.index.scopes.scopeFor? dir = some g)
    (scope' : e'.index.scopes.scopeFor? dir = some g') {x : String}
    (unbound : e.index.scopes.lookup? g x = none) (unbound' : e'.index.scopes.lookup? g' x = none) :
    (e.index.scopes.resolveTarget? g x).bind e.identity? =
      (e'.index.scopes.resolveTarget? g' x).bind e'.identity? := by
  rw [ScopeStore.resolveTarget?, ScopeStore.resolveTarget?,
    ScopeStore.resolve?_eq fresh.consistent.sound.layered scope,
    ScopeStore.resolve?_eq fresh'.consistent.sound.layered scope', unbound, unbound', Option.none_or,
    Option.none_or, fresh.consistent.based.names, fresh'.consistent.based.names]
  cases above : baseStore.lookup? ScopeStore.globalScope x with
  | none => rfl
  | some id =>
    rw [Option.map_some, Option.map_some, Option.bind_some, Option.bind_some,
      fresh.builtin above, fresh'.builtin above]

variable (same : ∀ c, c ∈ e.contents ↔ c ∈ e'.contents)

include same

theorem texts_eq (p : Path) : (e.document? p).map (·.text) = (e'.document? p).map (·.text) := by
  apply Option.ext
  intro text
  rw [← mem_contents_iff fresh.consistent.tidy, ← mem_contents_iff fresh'.consistent.tidy]
  exact same _

/-- What one text says of a name is said by the same text in the other engine. -/
theorem reading_eq {p : Path} {s s' : FileState} (found : e.index.file? p = some s)
    (found' : e'.index.file? p = some s') : s.dialect = s'.dialect ∧ s.parsed = s'.parsed := by
  obtain ⟨_, d, held, read⟩ := fresh.settled found
  obtain ⟨_, d', held', read'⟩ := fresh'.settled found'
  have texts := texts_eq fresh fresh' same p
  rw [held, held', Option.map_some, Option.map_some, Option.some.injEq] at texts
  exact ⟨read.dialect.trans read'.dialect.symm, by rw [read.parsed, read'.parsed, texts]⟩

theorem sameFile {p : Path} {s s' : FileState} (found : e.index.file? p = some s)
    (found' : e'.index.file? p = some s') (means : ∀ x, MeansAlike e e' p.directory x)
    (listed : ∀ n, ListedAlike e e' s s' n) : SameFile e e' s s' := by
  obtain ⟨settled, _⟩ := fresh.settled found
  obtain ⟨settled', _⟩ := fresh'.settled found'
  obtain ⟨dialect, parsed⟩ := reading_eq fresh fresh' same found found'
  have defs : s.record.defs = s'.record.defs := by
    apply Table.ext_get?
    intro n
    rw [fresh.get?_defs found, fresh'.get?_defs found', dialect, parsed]
    simp only [(listed n).contains]
  have reference : ∀ n, s.reference? n = s'.reference? n := by
    intro n
    rw [FileState.reference?, FileState.reference?, dialect, parsed, defs]
  have refers : ∀ n, s.Refers n ↔ s'.Refers n := by
    intro n
    rw [FileState.Refers, FileState.Refers, parsed, reference]
  have home := settled.attached.home
  have home' := settled'.attached.home
  refine ⟨dialect, parsed, defs, ?_, ?_, ?_, ?_, ?_, ?_, fun x =>
    contains_visible fresh fresh' home home' (means x)⟩
  · apply Table.ext_get?
    intro n
    rw [settled.marked.refs, settled'.marked.refs, parsed, reference]
  · apply Table.ext_get?
    intro n
    rw [settled.marked.tags, settled'.marked.tags, dialect, parsed, reference]
  · rw [settled.marked.errors, settled'.marked.errors, parsed]
  · rw [settled.marked.comments, settled'.marked.comments, parsed]
  · intro n
    rw [fresh.contains_resolved found, fresh'.contains_resolved found', ← parsed,
      isSome_resolveTarget? fresh fresh' home home' (means _)]
    simp only [refers]
  · intro n
    rw [meaning?, meaning?]
    have contains := (listed n).contains
    rw [Table.contains, Table.contains, Option.isSome_iff_exists, Option.isSome_iff_exists]
      at contains
    cases here : s.record.symbols.get? n with
    | some id =>
      obtain ⟨id', there⟩ := contains.1 ⟨id, here⟩
      rw [BindingRecord.symbolAt?, BindingRecord.symbolAt?, here, there]
      exact (listed n).meaning id id' here there
    | none =>
      have there : s'.record.symbols.get? n = none := by
        cases there : s'.record.symbols.get? n with
        | none => rfl
        | some id' =>
          obtain ⟨id, here'⟩ := contains.2 ⟨id', there⟩
          rw [here] at here'
          cases here'
      rw [fresh.follow_unlisted found here, fresh'.follow_unlisted found' there, ← parsed]
      simp only [refers]
      split
      · exact means _ _ _ home home'
      · rfl

/-- Engines that are up to date with the same documents agree if names mean the same in both and the
same definitions are listed. -/
theorem agree_of_alike (means : ∀ dir x, MeansAlike e e' dir x)
    (listed : ∀ p s s', e.index.file? p = some s → e'.index.file? p = some s' →
      ∀ n, ListedAlike e e' s s' n) : Agree e e' := by
  have texts := texts_eq fresh fresh' same
  refine ⟨fresh.telling, fresh'.telling, texts, fun p => ?_⟩
  have indexed : ∀ {before e : Engine}, Fresh before e →
      (e.index.file? p).isSome = ((e.document? p).map (·.text)).isSome := by
    intro before e fresh
    rw [Option.isSome_map]
    cases held : e.document? p with
    | some d => exact fresh.consistent.indexed p d held (fresh.clean p d held)
    | none =>
      cases found : e.index.file? p with
      | none => rfl
      | some s =>
        obtain ⟨d, held'⟩ := fresh.consistent.backed p s found
        rw [held] at held'
        cases held'
  have present : (e.index.file? p).isSome = (e'.index.file? p).isSome := by
    rw [indexed fresh, indexed fresh', texts]
  cases found : e.index.file? p with
  | none =>
    rw [found] at present
    exact .inl ⟨rfl, Option.isNone_iff_eq_none.1 (Option.isSome_eq_false_iff.1 present.symm)⟩
  | some s =>
    rw [found] at present
    obtain ⟨s', found'⟩ := Option.isSome_iff_exists.1 present.symm
    exact .inr ⟨s, s', rfl, found', sameFile fresh fresh' same found found' (means _)
      (listed p s s' found found')⟩

/-! ### Orderly indexes -/

/-- A name that is bound in a directory of one engine means the same in the other. -/
theorem meaning_of_bound {dir : Path} {x : String} (orderly : e.Orderly dir x)
    (orderly' : e'.Orderly dir x) {g g' : Nat} (scope : e.index.scopes.scopeFor? dir = some g)
    (scope' : e'.index.scopes.scopeFor? dir = some g') {id : Nat}
    (bound : e.index.scopes.lookup? g x = some id) :
    (e.index.scopes.resolveTarget? g x).bind e.identity? =
      (e'.index.scopes.resolveTarget? g' x).bind e'.identity? := by
  obtain ⟨d, s, sym, led⟩ := fresh.led orderly scope bound
  obtain ⟨d', member, path, text⟩ := exists_document (fun c => (same c).1) led.member
  have leads := leads_of_contents (fun c => (same c).2) path.symm text.symm led.leads
  obtain ⟨s', id', sym', led'⟩ := fresh'.led_of_leads orderly' scope' member
    ((Path.directory_congr path).trans led.here) (text ▸ led.definers) leads
  rw [led.meaning fresh orderly scope, led'.meaning fresh' orderly' scope', Document.meaning,
    Document.meaning, path, text]

/-- Where both indexes are orderly for a name, it means the same in both. -/
theorem meansAlike_of_orderly {dir : Path} {x : String} (orderly : e.Orderly dir x)
    (orderly' : e'.Orderly dir x) : MeansAlike e e' dir x := by
  intro g g' scope scope'
  cases left : e.index.scopes.lookup? g x with
  | some id => exact meaning_of_bound fresh fresh' same orderly orderly' scope scope' left
  | none =>
    cases right : e'.index.scopes.lookup? g' x with
    | some id' =>
      exact (meaning_of_bound fresh' fresh (fun c => (same c).symm) orderly' orderly scope' scope
        right).symm
    | none => exact meaning_of_unbound fresh fresh' scope scope' left right

/-- Where both indexes are orderly for the name of a terminal, the terminal is listed alike. -/
theorem listedAlike_of_orderly {p : Path} {s s' : FileState} (found : e.index.file? p = some s)
    (found' : e'.index.file? p = some s') {n : Nat}
    (orderly : e.Orderly p.directory (s.parsed.tree.textOf n))
    (orderly' : e'.Orderly p.directory (s.parsed.tree.textOf n)) : ListedAlike e e' s s' n := by
  have tidy := fresh.consistent.tidy
  have tidy' := fresh'.consistent.tidy
  obtain ⟨settled, d, held, read⟩ := fresh.settled found
  obtain ⟨settled', d', held', read'⟩ := fresh'.settled found'
  have texts := texts_eq fresh fresh' same p
  rw [held, held', Option.map_some, Option.map_some, Option.some.injEq] at texts
  have path := Workspace.path_of_find? tidy held
  have path' := Workspace.path_of_find? tidy' held'
  have member := Workspace.mem_documents_of_find? tidy held
  have member' := Workspace.mem_documents_of_find? tidy' held'
  have file : e.index.file? d.path = some s :=
    (PathTable.get?_congr e.index.files path).trans found
  have file' : e'.index.file? d'.path = some s' :=
    (PathTable.get?_congr e'.index.files path').trans found'
  have means := meansAlike_of_orderly fresh fresh' same orderly orderly' _ _ settled.attached.home
    settled'.attached.home
  rw [read.parsed] at orderly orderly' means
  replace orderly := orderly.congr (Path.directory_congr path.symm)
  replace orderly' := texts ▸ orderly'.congr (Path.directory_congr path'.symm)
  refine ⟨?_, fun id id' listed listed' => ?_⟩
  · rw [fresh.contains_symbols member file orderly, fresh'.contains_symbols member' file' orderly',
      texts]
    refine and_congr_left fun _ => ⟨leads_of_contents (fun c => (same c).2) ?_ texts,
      leads_of_contents (fun c => (same c).1) ?_ texts.symm⟩
    · exact path.trans path'.symm
    · exact path'.trans path.symm
  · rw [fresh.follow_listed member file listed orderly, texts,
      fresh'.follow_listed member' file' listed' orderly'] at means
    exact means

/-- Engines that are up to date with the same documents agree where both are orderly. -/
theorem agree_of_orderly (orderly : ∀ dir x, e.Orderly dir x) (orderly' : ∀ dir x, e'.Orderly dir x) :
    Agree e e' :=
  agree_of_alike fresh fresh' same
    (fun dir x => meansAlike_of_orderly fresh fresh' same (orderly dir x) (orderly' dir x))
    fun _ _ _ found found' _ =>
      listedAlike_of_orderly fresh fresh' same found found' (orderly _ _) (orderly' _ _)

end Two

end Engine

end GrammarIndex
