import GrammarIndex.Proofs.Dependency.Affected
import GrammarIndex.Proofs.Dependency.Sourced
import GrammarIndex.Proofs.Engine.Isolated
import GrammarIndex.Proofs.Session.Propagation

/-!
Which files a run binds.

The rounds of a run come to an end by themselves. They bind the dirty documents and, since the edges
of all files are there from the start, every file that depends on one of these. A file that is bound
is in the directory of a dirty document, as rounds do not leave a directory. And when the run is
over, there is nothing left for another one.
-/
namespace GrammarIndex

namespace Compile

open DependencyGraph (Sourced)

/-! ### Rounds without a limit -/

/-- Rounds that are bound until one is empty, however many it takes. -/
inductive Ends : Progress → List Path → Progress → Prop
  | done (p : Progress) : Ends p [] p
  | round {p last : Progress} {round : List Path} (some_ : round ≠ [])
      (rest : Ends (runRound p round).1 (runRound p round).2 last) : Ends p round last

/-- Rounds end, and the limit on their number is not what ends them. -/
theorem ends_runRounds {base : ScopeStore} (limit : Nat) {x : Index} {bound : PathSet}
    {round : List Path} (midway : Midway base x bound round)
    (enough : waitingCount x bound < limit) :
    Ends ⟨x, bound⟩ round (runRounds limit ⟨x, bound⟩ round) := by
  induction limit generalizing x bound round with
  | zero => exact absurd enough (Nat.not_lt_zero _)
  | succ limit ih =>
    rw [runRounds]
    cases round with
    | nil => exact .done _
    | cons p round =>
      have next := midway_runRound midway
      have fewer := waitingCount_runRound midway
      refine .round (by simp) ?_
      simp only [List.isEmpty_cons, Bool.false_eq_true, if_false]
      generalize runRound ⟨x, bound⟩ (p :: round) = out at *
      obtain ⟨⟨x', bound'⟩, round'⟩ := out
      exact ih next (by simp only at fewer; omega)

/-! ### Whose edges there are -/

theorem sourced_resolveAll (todo : List Path) {x : Index} (sourced : x.graph.Sourced x.files) :
    (resolveAll x todo).graph.Sourced (resolveAll x todo).files := by
  induction todo generalizing x with
  | nil => exact sourced
  | cons p todo ih =>
    rw [resolveAll_cons]
    cases found : x.files.get? p with
    | none => exact ih sourced
    | some s =>
      have present : x.files.contains p = true := by rw [Table.contains, found]; rfl
      refine ih (Sourced.mono (Binding.sourced_bindReferences present sourced _ _ _ _ _) ?_)
      exact fun q was => (Table.contains_insert _ _ _ _).2 (.inr was)

/-- A run leaves edges with indexed files only. -/
theorem sourced_bindAll {base : ScopeStore} {x : Index} {dirty : List Path}
    (midway : Midway base x ∅ dirty) (sourced : x.graph.Sourced x.files) :
    (bindAll x dirty).index.graph.Sourced (bindAll x dirty).index.files := by
  refine sourced_resolveAll _ ?_
  obtain ⟨_, further, _⟩ := midway_runRounds _ midway (waitingCount_lt_size x ∅)
  rw [graph_runRounds midway]
  refine sourced.mono fun p was => ?_
  have same := congrArg Option.isSome (further.reading p)
  simp only [Index.reading?, Option.isSome_map] at same
  exact same.trans was

end Compile

namespace Engine

open Compile (Progress Ends)

section

variable {e : Engine} (consistent : e.Consistent)

include consistent

theorem contains_read {p : Path} (was : e.index.files.contains p = true) :
    (Compile.readInto e.index e.dirtyDocuments).files.contains p = true := by
  rcases get?_read consistent p with ⟨_, _, _, _, found⟩ | ⟨_, _, kept⟩
  · rw [Table.contains, found]
    rfl
  · rw [Table.contains, kept]
    exact was

theorem sourced_compiled (sourced : e.index.graph.Sourced e.index.files) :
    e.compiled.index.graph.Sourced e.compiled.index.files :=
  Compile.sourced_bindAll (midway_read consistent)
    (sourced.mono fun _ was => contains_read consistent was)

/-- A run binds what depends on a dirty document, directly or through others. -/
theorem rebound_of_affected (sourced : e.index.graph.Sourced e.index.files) {p q : Path}
    {d : Document} (held : e.document? p = some d) (dirty : d.dirty = true)
    (affected : (e.index.graph.affected p).contains q = true) :
    e.rebound.bound.contains q = true := by
  obtain ⟨_, depends⟩ := (e.index.graph.affected_iff p q).1 affected
  have users : ∀ {p q}, e.rebound.bound.contains p = true → e.index.graph.Refers q p →
      e.rebound.bound.contains q = true := fun bound uses =>
    rebound_of_refers consistent bound uses (sourced.indexed _ _ uses)
  refine Relation.TransGen.head_induction_on depends ?_ ?_
  · exact fun uses => users (rebound_of_dirty consistent held dirty) uses
  · exact fun uses _ bound => users bound uses

end

/-- After any operations only indexed files have edges. -/
theorem sourced_after (config : Config) (operations : List Operation) :
    (after config operations).index.graph.Sourced (after config operations).index.files :=
  index_after (P := fun x => x.graph.Sourced x.files) sourced_compiled Index.sourced_forget
    (DependencyGraph.sourced_empty _) config operations

/-! ### One run -/

/-- What a run that ends does to an engine, and which files come back. -/
structure Rebinds (before after : Engine) (paths : List Path) : Prop where
  /-- The rounds end by themselves, and what they bound comes back. -/
  rounds : ∃ last : Progress, Ends ⟨Compile.readInto before.index before.dirtyDocuments, ∅⟩
    (before.dirtyDocuments.map (·.path)) last ∧ paths = OrderedSet.toList last.bound
  sorted : paths.Pairwise fun p q => compare p q = .lt
  dirty : ∀ d ∈ before.documents, d.dirty = true →
    ∃ p ∈ paths, d.path.components = p.components
  affected : ∀ d ∈ before.documents, d.dirty = true →
    ∀ q, (before.index.graph.affected d.path).contains q = true →
      ∃ p ∈ paths, q.components = p.components
  nearby : ∀ p ∈ paths, ∃ d ∈ before.documents, d.dirty = true ∧
    p.directory.components = d.path.directory.components
  clean : ∀ d ∈ after.documents, d.dirty = false
  current : after.needsCompile = false
  idle : after.compile = (after, .ok [])

/-- An engine that was brought up to date has nothing left to bind. -/
theorem Fresh.current {before e : Engine} (fresh : Fresh before e) :
    (∀ d ∈ e.documents, d.dirty = false) ∧ e.needsCompile = false ∧ e.compile = (e, .ok []) := by
  have clean : ∀ d ∈ e.documents, d.dirty = false := fun d listed =>
    fresh.clean d.path d ((Workspace.mem_documents_iff fresh.consistent.tidy).1 listed)
  refine ⟨clean, ?_, ?_⟩
  · rw [needsCompile, vanished_eq_nil fresh.consistent.backed, Bool.or_eq_false_iff]
    exact ⟨List.any_eq_false.2 fun d listed => by simp [clean d listed], rfl⟩
  · have none_ : e.dirtyDocuments = [] :=
      List.filter_eq_nil_iff.2 fun d listed => by simp [clean d listed]
    rw [compile_eq fresh.consistent, none_]
    rfl

theorem rebinds_of_compile {e after : Engine} {paths : List Path} (consistent : e.Consistent)
    (inside : e.index.graph.Local) (sourced : e.index.graph.Sourced e.index.files)
    (success : e.compile = (after, .ok paths)) : Rebinds e after paths := by
  obtain ⟨clean, current, idle⟩ := (fresh_of_compile consistent success).current
  have nearby : ∀ p ∈ paths, ∃ d ∈ e.documents, d.dirty = true ∧
      p.directory.components = d.path.directory.components := by
    intro p member
    refine Classical.byContradiction fun far => ?_
    have away : e.CleanIn p.directory := by
      refine cleanIn_of_documents consistent.tidy fun d listed same => ?_
      exact Bool.eq_false_iff.2 fun dirty => far ⟨d, listed, dirty, same.symm⟩
    exact (spared_of_compile consistent inside away success).absent p member rfl
  have held : ∀ {d}, d ∈ e.documents → e.document? d.path = some d :=
    (Workspace.mem_documents_iff consistent.tidy).1
  rw [compile_eq consistent] at success
  split at success
  · next none_ =>
    cases success
    have absent : ∀ d ∈ e.documents, d.dirty ≠ true := by
      rw [List.isEmpty_iff, dirtyDocuments, List.filter_eq_nil_iff] at none_
      exact none_
    refine ⟨⟨⟨Compile.readInto e.index e.dirtyDocuments, ∅⟩, ?_, rfl⟩, .nil,
      fun d listed dirty => absurd dirty (absent d listed),
      fun d listed dirty => absurd dirty (absent d listed), nearby, clean, current, idle⟩
    rw [List.isEmpty_iff.1 none_]
    exact .done _
  · split at success
    · cases success
    · cases success
      have midway := midway_read consistent
      refine ⟨⟨_, Compile.ends_runRounds _ midway (Compile.waitingCount_lt_size _ ∅), rfl⟩,
        Table.pairwise_keys _, fun d listed dirty => ?_, fun d listed dirty q affected => ?_, nearby,
        clean, current, idle⟩
      · exact PathSet.contains_iff_mem_toList.1 (rebound_of_dirty consistent (held listed) dirty)
      · exact PathSet.contains_iff_mem_toList.1
          (rebound_of_affected consistent sourced (held listed) dirty affected)

/-- In every state over grammar documents that operations lead to, a run ends and succeeds. What it
returns are the files that it bound, in path order: the dirty documents and all files that depend on
one, and no file outside their directories. After it no document is dirty, and another run returns
nothing and changes nothing. -/
theorem compile_rebinds (config : Config) (operations : List Operation)
    (handled : ∀ d ∈ (after config operations).documents,
      Grammar.dialect.handles d.path = true) :
    ∃ e paths, (after config operations).compile = (e, .ok paths) ∧
      Rebinds (after config operations) e paths := by
  have consistent := consistent_after config operations
  obtain ⟨e, paths, success⟩ := Session.exists_compile consistent handled
  exact ⟨e, paths, success, rebinds_of_compile consistent (local_after config operations)
    (sourced_after config operations) success⟩

/-- A chain of three files was bound, and the last one changes. -/
def chained : List Operation :=
  [.openDocument (.of "g/a.g4") "x : y ;", .openDocument (.of "g/b.g4") "y : z ;",
    .openDocument (.of "g/c.g4") "z : 'z' ;", .openDocument (.of "h/d.g4") "z : 'd' ;", .compile,
    .openDocument (.of "g/c.g4") "z : 'c' ;"]

/-- The whole chain is bound again, and nothing of the other directory. -/
theorem compile_rebinds_chained : ∃ e paths,
    (after {} chained).compile = (e, .ok paths) ∧
      ((after {} chained).index.graph.affected (.of "g/c.g4")).contains (.of "g/a.g4") = true ∧
      (∃ p ∈ paths, (Path.of "g/a.g4").components = p.components) ∧
      (∃ p ∈ paths, (Path.of "g/c.g4").components = p.components) ∧ (.of "h/d.g4") ∉ paths ∧
      e.needsCompile = false ∧ e.compile = (e, .ok []) := by
  have handled : ∀ d ∈ (after {} chained).documents, Grammar.dialect.handles d.path = true := by
    decide +kernel
  have depends : ((after {} chained).index.graph.affected (.of "g/c.g4")).contains
      (.of "g/a.g4") = true := by decide +kernel
  obtain ⟨e, paths, success, rebinds⟩ := compile_rebinds {} chained handled
  have changed : (⟨.of "g/c.g4", "z : 'c' ;", true⟩ : Document) ∈ (after {} chained).documents := by
    decide +kernel
  refine ⟨e, paths, success, depends, rebinds.affected _ changed rfl _ depends,
    rebinds.dirty _ changed rfl, fun member => ?_, rebinds.current, rebinds.idle⟩
  obtain ⟨d, listed, dirty, same⟩ := rebinds.nearby _ member
  have only : ∀ d ∈ (after {} chained).documents, d.dirty = true →
      (Path.of "h/d.g4").directory.components ≠ d.path.directory.components := by decide +kernel
  exact only d listed dirty same

end Engine

end GrammarIndex
