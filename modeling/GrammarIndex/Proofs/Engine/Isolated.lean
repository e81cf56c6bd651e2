import GrammarIndex.Proofs.Dependency.Local
import GrammarIndex.Proofs.Engine.Consistency
import GrammarIndex.Proofs.Engine.Standing
import GrammarIndex.Proofs.Scope.Elsewhere

/-!
Directories do not disturb each other.

A round of files outside a directory neither touches the scope of the directory nor brings in a file
from there: a file comes in through an edge, and edges stay within directories, or through a name of
its own scope. So a run that starts outside a directory ends without having changed anything there.
-/
namespace GrammarIndex

namespace Compile

open ScopeStore (Untouched)
open DependencyGraph (SameEdges)

/-- None of the files is in the directory. -/
def Away (dir : Path) (files : List Path) : Prop :=
  ∀ p ∈ files, p.directory.components ≠ dir.components

/-! ### One round -/

section Passes

variable {dir : Path} {g : Nat}

theorem untouched_attach (round : List Path) (acc : Index × ScopedNames)
    (sound : acc.1.scopes.Sound) (present : ∀ p ∈ round, acc.1.files.contains p = true)
    (here : acc.1.scopes.byKey.get? dir = some g) (away : Away dir round)
    (others : ∀ n ∈ acc.2, n.1 ≠ g) :
    Untouched g acc.1.scopes (round.foldl attachOne acc).1.scopes ∧
      ∀ n ∈ (round.foldl attachOne acc).2, n.1 ≠ g := by
  induction round generalizing acc with
  | nil => exact ⟨.refl g _, others⟩
  | cons p round ih =>
    obtain ⟨x, before⟩ := acc
    obtain ⟨s, found⟩ := Option.isSome_iff_exists.1 (present p (by simp))
    obtain ⟨soundP, frame, _⟩ := initScope_spec sound p
    obtain ⟨first, other⟩ := Binding.untouched_initScope sound here (away p (by simp))
    have store : (attachOne (x, before) p).1.scopes = (Binding.initScope x.scopes p).1 := by
      simp only [attachOne, found]
    have told : ∀ n ∈ (attachOne (x, before) p).2, n.1 ≠ g := by
      intro n member
      simp only [attachOne, found] at member
      rcases List.mem_append.1 member with old | new
      · exact others n old
      · obtain ⟨y, _, rfl⟩ := List.mem_map.1 new
        exact other
    rw [List.foldl_cons]
    obtain ⟨rest, names⟩ := ih (attachOne (x, before) p) (store ▸ soundP)
      (fun q member => by
        simp only [attachOne, found, Table.contains_insert]
        exact .inr (present q (by simp [member])))
      (store ▸ frame.keys dir g here) (fun q member => away q (by simp [member])) told
    exact ⟨(store ▸ first).trans rest, names⟩

theorem untouched_define (round : List Path) (acc : Index × ScopedNames)
    (sound : acc.1.scopes.Sound)
    (ready : ∀ p ∈ round, ∃ s, acc.1.files.get? p = some s ∧ Ready acc.1 p s)
    (distinct : round.Pairwise fun p q => p.components ≠ q.components)
    (here : acc.1.scopes.byKey.get? dir = some g) (away : Away dir round)
    (others : ∀ n ∈ acc.2, n.1 ≠ g) :
    Untouched g acc.1.scopes (round.foldl defineOne acc).1.scopes ∧
      ∀ n ∈ (round.foldl defineOne acc).2, n.1 ≠ g := by
  induction round generalizing acc with
  | nil => exact ⟨.refl g _, others⟩
  | cons p round ih =>
    obtain ⟨apart, distinctRest⟩ := List.pairwise_cons.1 distinct
    obtain ⟨x, before⟩ := acc
    obtain ⟨s, found, readyP⟩ := ready p (by simp)
    have one := definedOne before sound found readyP
    have other := sound.layered.scope_ne (away p (by simp)) readyP.home here
    have first : Untouched g x.scopes (defineOne (x, before) p).1.scopes := by
      simp only [defineOne, found, readyP.blank]
      exact Binding.untouched_bindDefinitions readyP.readable.steady sound readyP.home readyP.gone
        readyP.readable.distinct other
    have told : ∀ n ∈ (defineOne (x, before) p).2, n.1 ≠ g := by
      intro n member
      simp only [defineOne, found] at member
      rcases List.mem_append.1 member with old | new
      · exact others n old
      · obtain ⟨_, _, made⟩ := List.mem_filterMap.1 new
        obtain ⟨_, _, rfl⟩ := Option.map_eq_some_iff.1 made
        exact other
    rw [List.foldl_cons]
    obtain ⟨rest, names⟩ := ih (defineOne (x, before) p) one.grown.sound
      (fun q member => by
        obtain ⟨t, foundQ, readyQ⟩ := ready q (by simp [member])
        exact ⟨t, readyQ.of_definedOne foundQ one (apart q member)⟩)
      distinctRest (one.grown.keys ▸ here) (fun q member => away q (by simp [member])) told
    exact ⟨first.trans rest, names⟩

end Passes

/-- A path comes into the next round through an edge or because it is stale. -/
theorem of_mem_nextRound {x : Index} {bound : PathSet} {round : List Path}
    {freed defined : ScopedNames} {p : Path}
    (member : p ∈ nextRound ⟨x, bound⟩ round freed defined) :
    (∃ q ∈ round, x.graph.Refers p q) ∨
      ∃ s, x.files.get? p = some s ∧ isStale x freed defined s = true := by
  have listed := PathSet.contains_iff_mem_toList.2 ⟨p, (List.mem_filter.1 member).1, rfl⟩
  rw [PathSet.contains_addAll, PathSet.contains_ofList] at listed
  rcases listed with ⟨r, dependent, spelled⟩ | ⟨k, waiting, spelled⟩
  · obtain ⟨q, inRound, refers⟩ := List.mem_flatMap.1 dependent
    exact .inl ⟨q, inRound, PathSet.contains_iff_mem_toList.2 ⟨r, refers, spelled⟩⟩
  · obtain ⟨⟨k', s⟩, kept, rfl⟩ := List.mem_map.1 waiting
    obtain ⟨entry, stale⟩ := List.mem_filter.1 kept
    refine .inr ⟨s, ?_, ?_⟩
    · rw [PathTable.get?_congr x.files spelled]
      exact Table.get?_of_mem entry
    · simp only [Bool.and_eq_true] at stale
      exact stale.2

/-! ### All rounds -/

/-- How a directory is before a run: its files hang off its scope, and edges stay within. -/
structure Enclosed (dir : Path) (x : Index) : Prop where
  edges : x.graph.Local
  homes : ∀ p s, p.directory.components = dir.components → x.files.get? p = some s →
    x.scopes.byKey.get? dir = some s.scope

/-- Rounds have left a directory as it was. -/
structure Quiet (dir : Path) (x₀ x : Index) (bound : PathSet) (round : List Path) : Prop where
  bound : Away dir bound.toList
  round : Away dir round
  files : ∀ p, p.directory.components = dir.components → x.files.get? p = x₀.files.get? p
  graph : x.graph = x₀.graph
  scope : ∀ g, x₀.scopes.byKey.get? dir = some g →
    x.scopes.byKey.get? dir = some g ∧ Untouched g x₀.scopes x.scopes

theorem quiet_runRound {base : ScopeStore} {dir : Path} {x₀ x : Index} {bound : PathSet}
    {round : List Path} (enclosed : Enclosed dir x₀) (midway : Midway base x bound round)
    (quiet : Quiet dir x₀ x bound round) :
    Quiet dir x₀ (runRound ⟨x, bound⟩ round).1.index (runRound ⟨x, bound⟩ round).1.bound
      (runRound ⟨x, bound⟩ round).2 := by
  have step := midway.roundDone
  have first := attachedAll_attach midway.sound midway.present midway.distinct
  have ready := ready_attach midway
  -- Neither pass touches the scope of the directory, and none of their names is bound there.
  have passes : ∀ g, x.scopes.byKey.get? dir = some g →
      Untouched g x.scopes (define (attach x round).1 round).1.scopes ∧
        (∀ n ∈ (attach x round).2, n.1 ≠ g) ∧
        ∀ n ∈ (define (attach x round).1 round).2, n.1 ≠ g := by
    intro g here
    obtain ⟨attached, freed⟩ := untouched_attach round (x, []) midway.sound midway.present here
      quiet.round (by simp)
    obtain ⟨defined, names⟩ := untouched_define round ((attach x round).1, []) first.sound ready
      midway.distinct (first.frame.keys dir g here) quiet.round (by simp)
    exact ⟨attached.trans defined, freed, names⟩
  have files : ∀ p, p.directory.components = dir.components →
      (define (attach x round).1 round).1.files.get? p = x₀.files.get? p := by
    intro p inside
    refine (step.others p fun q member same => ?_).trans (quiet.files p inside)
    exact quiet.round q member ((Path.directory_congr same).symm.trans inside)
  have graph := step.graph.trans quiet.graph
  refine ⟨?_, ?_, files, graph, fun g here => ?_⟩
  · intro p member
    have listed := PathSet.contains_iff_mem_toList.2 ⟨p, member, rfl⟩
    rcases (PathSet.contains_addAll bound round p).1 listed with old | ⟨q, inRound, spelled⟩
    · obtain ⟨q, listed, spelled⟩ := PathSet.contains_iff_mem_toList.1 old
      exact fun inside => quiet.bound q listed ((Path.directory_congr spelled).symm.trans inside)
    · exact fun inside => quiet.round q inRound ((Path.directory_congr spelled).symm.trans inside)
  · intro p member inside
    rcases of_mem_nextRound member with ⟨q, inRound, refers⟩ | ⟨s, found, stale⟩
    · have refers : (x₀.graph.dependentsOf q).contains p = true := graph ▸ refers
      exact quiet.round q inRound ((enclosed.edges.incoming p q refers).symm.trans inside)
    · have here := enclosed.homes p s inside ((files p inside).symm.trans found)
      obtain ⟨_, freed, defined⟩ := passes s.scope (quiet.scope s.scope here).1
      simp only [isStale, Bool.or_eq_true, List.any_eq_true, Bool.and_eq_true, beq_iff_eq] at stale
      rcases stale with ⟨n, listed, same, _⟩ | ⟨n, listed, same, _⟩
      · exact freed n listed same
      · exact defined n listed same
  · obtain ⟨now, before⟩ := quiet.scope g here
    exact ⟨step.touched.frame.keys dir g now, before.trans (passes g now).1⟩

/-! ### References -/

theorem local_resolveAll (todo : List Path) {x : Index} (sound : x.scopes.Sound)
    (inside : x.graph.Local)
    (homes : ∀ p ∈ todo, ∀ s, x.files.get? p = some s →
      x.scopes.byKey.get? p.directory = some s.scope) :
    (resolveAll x todo).scopes = x.scopes ∧ (resolveAll x todo).graph.Local ∧
      ∀ dir f, Away dir todo → f.directory.components = dir.components →
        (resolveAll x todo).files.get? f = x.files.get? f ∧
          SameEdges f x.graph (resolveAll x todo).graph := by
  induction todo generalizing x with
  | nil => exact ⟨rfl, inside, fun _ f _ _ => ⟨rfl, .refl f x.graph⟩⟩
  | cons p todo ih =>
    rw [resolveAll_cons]
    cases found : x.files.get? p with
    | none =>
      obtain ⟨scopes, rest, kept⟩ := ih sound inside fun q member => homes q (by simp [member])
      exact ⟨scopes, rest, fun dir f away => kept dir f fun q member => away q (by simp [member])⟩
    | some s =>
      have home := homes p (by simp) s found
      have edges := fun f => Binding.local_bindReferences (d := s.dialect) (f := f) sound.toCore home
        inside s.parsed s.record
      obtain ⟨scopes, rest, kept⟩ := ih (x := { x with
          graph := resolvedGraph x p s, files := x.files.insert p (resolvedState x p s) })
        sound (edges p).1 (by
          intro q member t foundQ
          rw [PathTable.get?_insert] at foundQ
          split at foundQ
          · next spelled =>
            cases foundQ
            rw [PathTable.get?_congr _ (Path.directory_congr spelled)]
            exact home
          · exact homes q (by simp [member]) t foundQ)
      refine ⟨scopes, rest, fun dir f away within => ?_⟩
      obtain ⟨files, same⟩ := kept dir f (fun q member => away q (by simp [member])) within
      have apart : f.directory.components ≠ p.directory.components := fun equal =>
        away p (by simp) (equal.symm.trans within)
      refine ⟨files.trans ?_, ((edges f).2 apart).trans same⟩
      rw [PathTable.get?_insert, if_neg fun equal => apart (Path.directory_congr equal)]

/-- What a run leaves as it was in a directory that it does not start from. -/
structure Spared (dir : Path) (x x' : Index) (bound : List Path) : Prop where
  absent : Away dir bound
  files : ∀ p, p.directory.components = dir.components → x'.files.get? p = x.files.get? p
  scope : ∀ g, x.scopes.byKey.get? dir = some g →
    x'.scopes.byKey.get? dir = some g ∧ Untouched g x.scopes x'.scopes
  edges : ∀ p, p.directory.components = dir.components → SameEdges p x.graph x'.graph

theorem graph_runRounds {base : ScopeStore} {x : Index} {dirty : List Path}
    (midway : Midway base x ∅ dirty) :
    (runRounds (x.files.size + 1) ⟨x, ∅⟩ dirty).index.graph = x.graph :=
  (runRounds_induction (Q := fun x' _ _ => x'.graph = x.graph)
    (fun midway' holds => midway'.roundDone.graph.trans holds) _ midway (waitingCount_lt_size x ∅) rfl).2

/-- A run keeps edges within directories. -/
theorem local_bindAll {base : ScopeStore} {x : Index} {dirty : List Path}
    (midway : Midway base x ∅ dirty) (inside : x.graph.Local) :
    (bindAll x dirty).index.graph.Local := by
  obtain ⟨ended, _⟩ := midway_runRounds _ midway (waitingCount_lt_size x ∅)
  refine (local_resolveAll _ ended.sound (graph_runRounds midway ▸ inside) ?_).2.1
  intro p member s found
  exact (ended.done p s found (PathSet.contains_iff_mem_toList.2 ⟨p, member, rfl⟩)).1.home

theorem spared_bindAll {base : ScopeStore} {dir : Path} {x : Index} {dirty : List Path}
    (enclosed : Enclosed dir x) (midway : Midway base x ∅ dirty) (away : Away dir dirty) :
    Spared dir x (bindAll x dirty).index (bindAll x dirty).bound.toList := by
  have start : Quiet dir x x ∅ dirty :=
    ⟨fun p member => (by cases member), away, fun _ _ => rfl, rfl, fun g here => ⟨here, .refl g _⟩⟩
  obtain ⟨ended, quiet⟩ := runRounds_induction (Q := Quiet dir x) (quiet_runRound enclosed) _ midway
    (waitingCount_lt_size x ∅) start
  unfold bindAll
  generalize runRounds (x.files.size + 1) ⟨x, ∅⟩ dirty = p at ended quiet
  obtain ⟨scopes, _, kept⟩ := local_resolveAll p.bound.toList ended.sound
    (quiet.graph ▸ enclosed.edges) (fun q member s found =>
      (ended.done q s found (PathSet.contains_iff_mem_toList.2 ⟨q, member, rfl⟩)).1.home)
  refine ⟨quiet.bound, fun q within => ?_, fun g here => ?_, fun q within => ?_⟩
  · exact (kept dir q quiet.bound within).1.trans (quiet.files q within)
  · rw [scopes]
    exact quiet.scope g here
  · exact quiet.graph ▸ (kept dir q quiet.bound within).2

end Compile

namespace Engine

open Compile (Away Spared Enclosed)

/-! ### Edges in every state -/

theorem local_forget {x : Index} (p : Path) (inside : x.graph.Local) :
    (x.forget p).1.graph.Local := by
  unfold Index.forget
  cases x.files.get? p with
  | none => exact inside
  | some state => exact inside.clear p

/-- Edges stay within directories after any operations. -/
theorem local_after (config : Config) (operations : List Operation) :
    (after config operations).index.graph.Local :=
  index_after (P := fun x => x.graph.Local)
    (fun consistent inside => Compile.local_bindAll (midway_read consistent) inside)
    local_forget DependencyGraph.local_empty config operations

/-! ### One run -/

/-- No document of the directory waits to be bound. -/
def CleanIn (e : Engine) (dir : Path) : Prop :=
  ∀ p d, e.document? p = some d → p.directory.components = dir.components → d.dirty = false

theorem cleanIn_of_documents {e : Engine} {dir : Path} (tidy : e.workspace.Tidy)
    (clean : ∀ d ∈ e.documents, d.path.directory.components = dir.components → d.dirty = false) :
    e.CleanIn dir := by
  intro p d held within
  refine clean d (Workspace.mem_documents_of_find? tidy held) ?_
  rw [Path.directory_congr (Workspace.path_of_find? tidy held)]
  exact within

/-- A run that does not start from a directory leaves it as it was. -/
theorem spared_of_compile {e after : Engine} {dir : Path} {paths : List Path}
    (consistent : e.Consistent) (inside : e.index.graph.Local) (clean : e.CleanIn dir)
    (success : e.compile = (after, .ok paths)) : Spared dir e.index after.index paths := by
  -- What is read is not in the directory.
  have read : ∀ p, p.directory.components = dir.components →
      (Compile.readInto e.index e.dirtyDocuments).files.get? p = e.index.files.get? p := by
    intro p within
    rcases get?_read consistent p with ⟨d, member, held, _⟩ | ⟨_, _, same⟩
    · have dirty := ((mem_dirtyDocuments consistent).1 member).2
      rw [clean p d held within] at dirty
      cases dirty
    · exact same
  have enclosed : Enclosed dir (Compile.readInto e.index e.dirtyDocuments) := by
    refine ⟨inside, fun p s within found => ?_⟩
    rw [read p within] at found
    have home := (consistent.attached p s found).home
    rwa [PathTable.get?_congr _ within] at home
  have away : Away dir (e.dirtyDocuments.map (·.path)) := by
    intro p member within
    obtain ⟨d, listed, rfl⟩ := List.mem_map.1 member
    obtain ⟨held, dirty⟩ := (mem_dirtyDocuments consistent).1 listed
    rw [clean d.path d held within] at dirty
    cases dirty
  rw [compile_eq consistent] at success
  split at success
  · cases success
    exact ⟨fun p member => (by cases member), fun _ _ => rfl, fun g here => ⟨here, .refl g _⟩,
      fun p _ => .refl p _⟩
  · split at success
    · cases success
    · cases success
      obtain ⟨absent, files, scope, edges⟩ :=
        Compile.spared_bindAll enclosed (midway_read consistent) away
      exact ⟨absent, fun p within => (files p within).trans (read p within), scope, edges⟩

/-- After any operations every edge joins two files of one directory. A run that succeeds while no
document of a directory is dirty binds no file there and leaves the state of every file there as it
was; the scope of the directory keeps its number and its names, with the same symbols in the same
slots, and the files there keep the edges from and to them. -/
theorem directories_isolated (config : Config) (operations : List Operation) :
    (∀ p q, ((after config operations).index.graph.dependenciesOf p).contains q = true ∨
        ((after config operations).index.graph.dependentsOf q).contains p = true →
      p.directory.components = q.directory.components) ∧
    ∀ (dir : Path) (e : Engine) (paths : List Path),
      (after config operations).compile = (e, .ok paths) → (after config operations).CleanIn dir →
      (∀ p ∈ paths, p.directory.components ≠ dir.components) ∧
      (∀ p, p.directory.components = dir.components →
        e.index.file? p = (after config operations).index.file? p ∧
        e.index.graph.dependenciesOf p = (after config operations).index.graph.dependenciesOf p ∧
        e.index.graph.dependentsOf p = (after config operations).index.graph.dependentsOf p) ∧
      ∀ g, (after config operations).index.scopes.scopeFor? dir = some g →
        e.index.scopes.scopeFor? dir = some g ∧
        ∀ x, e.index.scopes.lookup? g x = (after config operations).index.scopes.lookup? g x ∧
          ∀ id, (after config operations).index.scopes.lookup? g x = some id →
            e.index.scopes.symbol? id = (after config operations).index.scopes.symbol? id := by
  have consistent := consistent_after config operations
  have inside := local_after config operations
  refine ⟨fun p q either => either.elim (inside.outgoing p q) (inside.incoming p q), ?_⟩
  intro dir e paths success clean
  obtain ⟨absent, files, scope, edges⟩ := spared_of_compile consistent inside clean success
  refine ⟨absent, fun p within => ⟨files p within, (edges p within).outgoing,
    (edges p within).incoming⟩, fun g here => ?_⟩
  obtain ⟨home, untouched⟩ := scope g here
  refine ⟨home, fun x => ⟨untouched.names x, fun id bound => ?_⟩⟩
  obtain ⟨s, live, _, place⟩ := consistent.sound.bound g x id bound
  rw [live]
  exact (untouched.symbols id s place).2 live

/-- Two directories are bound, and then a file of the first changes. -/
def besides : List Operation :=
  [.openDocument (.of "g/a.g4") "x : y ; y : x ;", .openDocument (.of "h/b.g4") "s : t ;",
    .openDocument (.of "h/c.g4") "t : s ;", .compile, .openDocument (.of "g/a.g4") "t : x ;"]

/-- The file of the second directory, its edge and the name that the first directory now defines,
too, are what they were. -/
theorem directories_isolated_besides : ∃ e paths g id,
    (after {} besides).compile = (e, .ok paths) ∧ (after {} besides).CleanIn (.of "h") ∧
      (.of "h/b.g4") ∉ paths ∧
      e.index.file? (.of "h/b.g4") = (after {} besides).index.file? (.of "h/b.g4") ∧
      (e.index.graph.dependenciesOf (.of "h/b.g4")).contains (.of "h/c.g4") = true ∧
      e.index.scopes.scopeFor? (.of "h") = some g ∧ e.index.scopes.lookup? g "t" = some id ∧
      e.index.scopes.symbol? id = (after {} besides).index.scopes.symbol? id := by
  obtain ⟨paths, success⟩ := compile_of_isOk (e := after {} besides) (by decide +kernel)
  have clean : (after {} besides).CleanIn (.of "h") :=
    cleanIn_of_documents (consistent_after {} besides).tidy (by decide +kernel)
  have edge : ((after {} besides).index.graph.dependenciesOf (.of "h/b.g4")).contains
      (.of "h/c.g4") = true := by decide +kernel
  have scope : ((after {} besides).index.scopes.scopeFor? (.of "h")).isSome = true := by
    decide +kernel
  have named : (((after {} besides).index.scopes.scopeFor? (.of "h")).bind
      ((after {} besides).index.scopes.lookup? · "t")).isSome = true := by decide +kernel
  obtain ⟨g, here⟩ := Option.isSome_iff_exists.1 scope
  rw [here, Option.bind_some] at named
  obtain ⟨id, bound⟩ := Option.isSome_iff_exists.1 named
  obtain ⟨absent, files, scopes⟩ :=
    (directories_isolated {} besides).2 (.of "h") _ paths success clean
  have within : (Path.of "h/b.g4").directory.components = (Path.of "h").components := by decide
  obtain ⟨same, outgoing, _⟩ := files (.of "h/b.g4") within
  obtain ⟨home, names⟩ := scopes g here
  exact ⟨_, paths, g, id, success, clean, fun member => absent _ member within, same,
    by rw [outgoing]; exact edge, home, (names "t").1.trans bound, (names "t").2 id bound⟩

end Engine

end GrammarIndex
