import GrammarIndex.Proofs.Engine.Stages

/-!
Announced names.

After a run a name that a document defines means a real definition, and references to it lead there,
as long as a clean file that holds the name and only announces it gave way in the run. It does not
give way where an unchanged definition is bound again and the announcement after it: then the name
means the announcement, although nothing was edited.
-/
namespace GrammarIndex

/-- What a standing means is what its name resolves to. -/
theorem ScopeStore.Sound.resolveTarget?_of_standing {st : ScopeStore} (sound : st.Sound) {dir : Path}
    {g : Nat} (home : st.byKey.get? dir = some g) {x : String} {v : Standing}
    (stands : st.standing g x = some v) :
    ∃ id, st.resolveTarget? g x = some id ∧ st.symbol? id = some v.meant := by
  obtain ⟨id, _, found, _⟩ := bound_of_standing stands
  refine ⟨st.follow id, ?_, ?_⟩
  · rw [resolveTarget?, resolve?_eq sound.layered home, found]
    rfl
  · rw [symbol?_follow_bound sound.toCore found, stands, Option.map_some]

namespace Engine

section Reached

variable {e : Engine} {dir : Path} {g : Nat} {x : String}

/-- A run that succeeds leaves a real definition of a name that a document defines, if a clean file
that holds the name and only announces it gives way. -/
theorem real_of_compile (consistent : e.Consistent) {after : Engine} {paths : List Path}
    (success : e.compile = (after, .ok paths))
    (ahead : ∀ h v, e.index.scopes.scopeFor? dir = some h → e.index.scopes.standing h x = some v →
      ∀ a ∈ e.documents, v.first.OwnedBy a.path → a.dirty = false →
        Grammar.defines a.text x = false → Compile.GivesWay e.documents e.rounds dir x v a.path)
    {d : Document} (definer : Compile.Definer e.documents dir x d)
    (scope : after.index.scopes.scopeFor? dir = some g) : after.index.scopes.Real g x := by
  rw [scopes_of_compile consistent success] at scope ⊢
  -- Reading documents does not touch the scopes, so these are the scopes before the run.
  have first : ∀ h v, (Compile.readInto e.index e.dirtyDocuments).scopes.byKey.get? dir = some h →
      (Compile.readInto e.index e.dirtyDocuments).scopes.standing h x = some v →
      ∀ a ∈ e.documents, v.first.OwnedBy a.path →
        ¬ Compile.Binds (e.dirtyDocuments.map (·.path)) a.path → Grammar.defines a.text x = false →
          Compile.GivesWay e.documents e.rounds dir x v a.path := by
    intro h v home stands a member own out only
    refine ahead h v home stands a member own ?_ only
    cases dirty : a.dirty with
    | false => rfl
    | true =>
      exact absurd ⟨a.path, List.mem_map.2 ⟨a, List.mem_filter.2 ⟨member, dirty⟩, rfl⟩, rfl⟩ out
  exact Compile.real_runRounds first definer (midway_read consistent) (readsAll_read consistent) rfl
    scope

/-- What a name means in a directory comes from a terminal of a document there. -/
theorem Fresh.origin_of_standing {before : Engine} (fresh : Fresh before e)
    (scope : e.index.scopes.scopeFor? dir = some g) {v : Standing}
    (stands : e.index.scopes.standing g x = some v) {id : Nat}
    (live : e.index.scopes.symbol? id = some v.meant) :
    ∃ f s d n, v.meant.name = x ∧ Origin e id v.meant f s d n ∧
      Grammar.isForward s.parsed.tree n = v.meant.forward := by
  have sound := fresh.consistent.sound
  obtain ⟨name, place⟩ := sound.named_of_standing stands
  obtain ⟨q, file, _⟩ := sound.exists_file_in scope live place
  obtain ⟨f, s, d, n, origin⟩ := fresh.origin live file
  refine ⟨f, s, d, n, name, origin, ?_⟩
  obtain ⟨_, c, _, u, _, _, _, liveU, alike⟩ :=
    (fresh.settled origin.found).1.attached.recorded.described n id origin.listed
  rw [live] at liveU
  cases liveU
  have kind := alike.forward
  rw [origin.read.dialect] at kind
  exact kind

end Reached

/-- After any operations and a successful run: a name that a document of a directory defines for real
resolves there to a live symbol of a real definition, and this is what is found at every reference to
it. Where a clean document held the name before the run and only announces it, this document has to
give way in the run. -/
theorem real_definition_reached (config : Config) (operations : List Operation) {e : Engine}
    {paths : List Path} (success : (after config operations).compile = (e, .ok paths))
    {dir : Path} {g : Nat} (scope : e.index.scopes.scopeFor? dir = some g) {x : String}
    {d : Document} (held : d ∈ e.documents) (here : d.path.directory.components = dir.components)
    (real : Grammar.defines d.text x = true)
    (ahead : ∀ h v, (after config operations).index.scopes.scopeFor? dir = some h →
      (after config operations).index.scopes.standing h x = some v →
        ∀ a ∈ (after config operations).documents, v.first.OwnedBy a.path → a.dirty = false →
          Grammar.defines a.text x = false →
            Compile.GivesWay (after config operations).documents (after config operations).rounds
              dir x v a.path) :
    ∃ id sym f s d n, e.index.scopes.resolveTarget? g x = some id ∧
      e.index.scopes.symbol? id = some sym ∧ sym.forward = false ∧ sym.name = x ∧
      Origin e id sym f s d n ∧ Grammar.isForward s.parsed.tree n = false ∧
      ∀ f' s' m, e.index.file? f' = some s' → f'.directory.components = dir.components →
        s'.Refers m → s'.parsed.tree.textOf m = x →
          e.definitions f' (s'.parsed.tree.spanOf m).start =
            .ok [⟨f, s.parsed.tree.spanOf n⟩] := by
  have consistent := consistent_after config operations
  have fresh := fresh_of_compile consistent success
  have sound := fresh.consistent.sound
  obtain ⟨d₀, held₀, path, text⟩ :=
    exists_document (fun c => (contents_fresh consistent fresh c).1) held
  obtain ⟨v, stands, kind⟩ := real_of_compile consistent success ahead
    ⟨held₀, (Path.directory_congr path).trans here, text ▸ real⟩ scope
  obtain ⟨id, resolves, live⟩ := sound.resolveTarget?_of_standing scope stands
  obtain ⟨f, s, d, n, name, origin, forward⟩ := fresh.origin_of_standing scope stands live
  refine ⟨id, v.meant, f, s, d, n, resolves, live, kind, name, origin, forward.trans kind, ?_⟩
  intro f' s' m found' directory refers text
  have place : s'.scope = g := by
    have home := (fresh.settled found').1.attached.home
    rw [PathTable.get?_congr _ directory] at home
    exact Option.some.inj (home.symm.trans scope)
  have answer := fresh.definitions_start found' refers
  rw [place, text, stands, Option.map_some, Option.bind_some, origin.site] at answer
  exact answer

/-- A file that both an announcement and its definition refer to is edited. -/
def announcedAnew : List Operation :=
  [.openDocument (.of "a.g4") "tokens { ID }\nr : ID S ;", .openDocument (.of "b.g4") "ID : S ;",
    .openDocument (.of "c.g4") "S : 's' ;", .compile, .notifyChange (.of "c.g4") "S : 't' ;"]

/-- The announcing file is clean and is bound again, in one round with the defining file. -/
theorem real_definition_reached_anew : ∃ e paths g id sym,
    (after {} announcedAnew).compile = (e, .ok paths) ∧
      e.index.scopes.scopeFor? (.of "") = some g ∧ e.index.scopes.resolveTarget? g "ID" = some id ∧
      e.index.scopes.symbol? id = some sym ∧ sym.forward = false := by
  obtain ⟨paths, success⟩ := compile_of_isOk (e := after {} announcedAnew) (by decide +kernel)
  have scope : ((after {} announcedAnew).compile.1.index.scopes.scopeFor? (.of "")).isSome = true := by
    decide +kernel
  obtain ⟨g, here⟩ := Option.isSome_iff_exists.1 scope
  have defined : ∃ d ∈ (after {} announcedAnew).compile.1.documents,
      d.path.directory.components = (Path.of "").components ∧
        Grammar.defines d.text "ID" = true := by decide +kernel
  obtain ⟨d, held, directory, real⟩ := defined
  have ahead : ∀ h v, (after {} announcedAnew).index.scopes.scopeFor? (.of "") = some h →
      (after {} announcedAnew).index.scopes.standing h "ID" = some v →
        ∀ a ∈ (after {} announcedAnew).documents, v.first.OwnedBy a.path → a.dirty = false →
          Grammar.defines a.text "ID" = false → Compile.GivesWay (after {} announcedAnew).documents
            (after {} announcedAnew).rounds (.of "") "ID" v a.path := by
    have rounds : (after {} announcedAnew).rounds =
        [[.of "c.g4"], [.of "a.g4", .of "b.g4"]] := by decide +kernel
    have definer : ∃ d ∈ (after {} announcedAnew).documents,
        d.path.directory.components = (Path.of "").components ∧
          Grammar.defines d.text "ID" = true ∧ d.path.components = (Path.of "b.g4").components := by
      decide +kernel
    have holder : ∀ a ∈ (after {} announcedAnew).documents, a.dirty = false →
        Grammar.defines a.text "ID" = false → a.path.components = (Path.of "a.g4").components := by
      decide +kernel
    obtain ⟨b, member, home, kind, pathB⟩ := definer
    intro h v _ _ a memberA _ clean only
    have pathA := holder a memberA clean only
    refine ⟨fun past round rest split _ => ⟨b, ⟨member, home, kind⟩, ?_⟩,
      .inl ⟨[.of "a.g4", .of "b.g4"], by rw [rounds]; simp, .inl ⟨.of "a.g4", by simp, pathA⟩⟩⟩
    -- Nothing but the first round can come before the one that binds both.
    rw [rounds] at split
    rintro r done ⟨q, inRound, path⟩
    rcases past with _ | ⟨r₁, _ | ⟨r₂, past⟩⟩
    · cases done
    · obtain ⟨rfl, _⟩ := List.cons.inj split
      obtain rfl := List.mem_singleton.1 done
      obtain rfl := List.mem_singleton.1 inRound
      exact absurd (pathB.symm.trans path) (by decide)
    · simp at split
  obtain ⟨id, sym, _, _, _, _, resolves, live, kind, _⟩ :=
    real_definition_reached {} announcedAnew success here held directory real ahead
  exact ⟨_, paths, g, id, sym, success, here, resolves, live, kind⟩

/-- An announcement and its definition are bound, and then the defining file once more. -/
def reannounced : List Operation :=
  [.openDocument (.of "a.g4") "tokens { ID }\nr : ID ;", .openDocument (.of "b.g4") "ID : 'x' ;",
    .compile, .notifyChange (.of "b.g4") "ID : 'x' ;"]

/-- Both files are bound again, the announcing one last: its announcement is what the name means,
although nothing changed. -/
theorem announcement_bound_last :
    (after {} reannounced).compile.2.isOk = true ∧
      (∃ d ∈ (after {} reannounced).compile.1.documents,
        d.path.directory.components = [] ∧ Grammar.defines d.text "ID" = true) ∧
      ((after {} reannounced).compile.1.index.scopes.scopeFor? (.of "")).bind (fun g =>
        ((after {} reannounced).compile.1.index.scopes.resolveTarget? g "ID").bind fun id =>
          ((after {} reannounced).compile.1.index.scopes.symbol? id).map (·.forward)) =
        some true ∧
      ((after {} reannounced).compile.1.definitions (.of "a.g4") 18).toOption =
        some [⟨.of "a.g4", ⟨9, 11⟩⟩] := by
  decide +kernel

end Engine

end GrammarIndex
