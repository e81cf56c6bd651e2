import GrammarIndex.Proofs.Engine.Rebinding
import GrammarIndex.Proofs.Engine.SameDocuments

/-!
Names that a run leaves alone.

A run stirs the names that the files of its rounds define, each in its directory. Every other name
stays bound to the symbol it is bound to, and all symbols with that name stay in their slots. Files
that are in no round keep their records. So a run over unchanged texts can change only what stirred
names mean, and it changes none of them where the index is orderly.
-/
namespace GrammarIndex

namespace ScopeStore

/-- Between two stores nothing changed about a name in a scope. -/
structure Unmoved (g : Nat) (x : String) (st st' : ScopeStore) : Prop where
  names : st'.lookup? g x = st.lookup? g x
  symbols : ∀ id s, s.scope = g → s.name = x → (st'.symbol? id = some s ↔ st.symbol? id = some s)

/-- A name is unmoved if none of its symbols belongs to the files that are touched. -/
theorem Frame.unmoved {files : List Path} {st st' : ScopeStore} (frame : st.Frame files st')
    (core : st.Core) (core' : st'.Core) {g : Nat} {x : String}
    (outside : ∀ id s, st.symbol? id = some s → s.scope = g → s.name = x → s.Outside files)
    (outside' : ∀ id s, st'.symbol? id = some s → s.scope = g → s.name = x → s.Outside files) :
    Unmoved g x st st' := by
  have kept : ∀ {id s s'}, st.symbol? id = some s → st'.symbol? id = some s' → s.scope = g →
      s.name = x → s.Alike s' → s' = s := by
    intro id s s' live live' place name alike
    have out := outside id s live place name
    refine alike.eq (Option.ext fun t => ⟨fun aimed => ?_, fun aimed => ?_⟩)
    · obtain ⟨_, u, liveU, _, _, nameU, placeU⟩ := core'.aimed id s' t live' aimed
      exact frame.aimsBack id s s' t u live live' out aimed liveU (outside' t u liveU
        ((placeU.trans alike.scope.symm).trans place) ((nameU.trans alike.name.symm).trans name))
    · obtain ⟨_, u, liveU, _, _, nameU, placeU⟩ := core.aimed id s t live aimed
      exact frame.aims id s s' t u live live' out aimed liveU
        (outside t u liveU (placeU.trans place) (nameU.trans name))
  refine ⟨?_, fun id s place name => ⟨fun live' => ?_, fun live => ?_⟩⟩
  · cases found : st.lookup? g x with
    | none =>
      cases found' : st'.lookup? g x with
      | none => rfl
      | some id =>
        obtain ⟨s', live', name, place⟩ := core'.bound g x id found'
        rw [frame.namesBack g x id s' found' live' (outside' id s' live' place name)] at found
        cases found
    | some id =>
      obtain ⟨s, live, name, place⟩ := core.bound g x id found
      exact frame.names g x id s found live (outside id s live place name)
  · obtain ⟨s₀, live, alike⟩ := frame.back id s live' (outside' id s live' place name)
    rw [kept live live' (alike.scope.trans place) (alike.name.trans name) alike]
    exact live
  · obtain ⟨s', live', alike⟩ := frame.stay id s live (outside id s live place name)
    rw [kept live live' place name alike] at live'
    exact live'

/-- Unmoved symbols go on to stand for the same symbols. -/
theorem Unmoved.symbol?_follow {st st' : ScopeStore} {g : Nat} {x : String}
    (unmoved : Unmoved g x st st') (core : st.Core) (core' : st'.Core) {id : Nat} {s : Symbol}
    (live : st.symbol? id = some s) (place : s.scope = g) (name : s.name = x) :
    st'.symbol? (st'.follow id) = st.symbol? (st.follow id) := by
  have live' := (unmoved.symbols id s place name).2 live
  cases target : s.target with
  | none =>
    rw [follow_of_self core live target, follow_of_self core' live' target, live, live']
  | some t =>
    obtain ⟨_, u, liveU, _, _, nameU, placeU⟩ := core.aimed id s t live target
    rw [follow_of_target core live target, follow_of_target core' live' target, liveU]
    exact (unmoved.symbols t u (placeU.trans place) (nameU.trans name)).2 liveU

end ScopeStore

namespace Compile

/-- A run touches the files of its rounds only. -/
theorem frame_runRounds {base : ScopeStore} {x : Index} {first : List Path}
    (midway : Midway base x ∅ first) :
    x.scopes.Frame (roundsOf (x.files.size + 1) ⟨x, ∅⟩ first).flatten
      (runRounds (x.files.size + 1) ⟨x, ∅⟩ first).index.scopes := by
  refine (roundsOf_induction (Q := fun past x' _ _ => x.scopes.Frame past.flatten x'.scopes)
    (fun midway' _ frame => ?_) _ midway (waitingCount_lt_size x ∅) (List.nil_append _).symm
    (.refl _ _)).2
  have done := midway'.roundDone
  rw [List.flatten_concat]
  exact (frame.mono (List.subset_append_left _ _)).trans
    (done.touched.frame.mono (List.subset_append_right _ _))

/-- Files that are in no round of a run stay as they are. -/
theorem get?_runRounds {base : ScopeStore} {x : Index} {first : List Path}
    (midway : Midway base x ∅ first) {p : Path}
    (out : ∀ r ∈ roundsOf (x.files.size + 1) ⟨x, ∅⟩ first, ¬ Binds r p) :
    (runRounds (x.files.size + 1) ⟨x, ∅⟩ first).index.files.get? p = x.files.get? p := by
  refine (roundsOf_induction (Q := fun past x' _ _ =>
    (∀ r ∈ past, ¬ Binds r p) → x'.files.get? p = x.files.get? p) (fun midway' _ kept out => ?_) _
    midway (waitingCount_lt_size x ∅) (List.nil_append _).symm fun _ => rfl).2 out
  have done := midway'.roundDone
  exact (done.others p (apart_of_not_binds (out _ (by simp)))).trans
    (kept fun r earlier => out r (List.mem_append_left _ earlier))

/-- Resolving the references of files leaves the others as they are. -/
theorem get?_resolveAll {todo : List Path} {p : Path} (apart : Apart p todo) (x : Index) :
    (resolveAll x todo).files.get? p = x.files.get? p := by
  induction todo generalizing x with
  | nil => rfl
  | cons q todo ih =>
    rw [resolveAll_cons, ih fun r later => apart r (by simp [later])]
    cases x.files.get? q with
    | none => rfl
    | some s =>
      simp only [PathTable.get?_insert, if_neg (apart q (by simp))]

end Compile

namespace Engine

/-- The coming run binds a document of the directory that defines the name. -/
def Stirs (e : Engine) (dir : Path) (x : String) : Prop :=
  ∃ r ∈ e.rounds, ∃ d ∈ e.documents, d.path.directory.components = dir.components ∧
    Grammar.definersOf d.text x ≠ [] ∧ Compile.Binds r d.path

section Again

variable {before e again after : Engine} (fresh : Fresh before e) (consistent : again.Consistent)
  (index : again.index = e.index) (same : ∀ c, c ∈ again.contents ↔ c ∈ e.contents)
  {paths : List Path} (success : again.compile = (after, .ok paths))

section Kept

include consistent index success

theorem frame_of_compile : e.index.scopes.Frame again.rounds.flatten after.index.scopes := by
  rw [scopes_of_compile consistent success, ← index]
  exact Compile.frame_runRounds (midway_read consistent)

/-- A file that is in no round keeps its record. -/
theorem file?_of_compile {p : Path} (out : ∀ r ∈ again.rounds, ¬ Compile.Binds r p) :
    after.index.file? p = e.index.file? p := by
  rw [← index]
  rcases cases_of_compile consistent success with ⟨_, rfl⟩ | ⟨_, rfl, _⟩
  · rfl
  · have midway := midway_read consistent
    have unbound : ¬ ∃ q ∈ OrderedSet.toList again.rebound.bound, p.components = q.components := by
      rw [← PathSet.contains_iff_mem_toList]
      exact fun there =>
        have ⟨r, done, binds⟩ := (Compile.counted_runRounds midway p).1 there
        out r done binds
    have resolved := Compile.get?_resolveAll (Compile.apart_of_not_binds unbound)
      (Compile.runRounds ((Compile.readInto again.index again.dirtyDocuments).files.size + 1)
        ⟨Compile.readInto again.index again.dirtyDocuments, ∅⟩
        (again.dirtyDocuments.map (·.path))).index
    refine Eq.trans resolved ((Compile.get?_runRounds midway out).trans ?_)
    rcases get?_read consistent p with ⟨d, dirty, _, path, _⟩ | ⟨_, _, kept⟩
    · have listed : d.path ∈ again.dirtyDocuments.map (·.path) := List.mem_map.2 ⟨d, dirty, rfl⟩
      exact absurd ⟨d.path, listed, path⟩
        (out _ (Compile.mem_roundsOf (List.ne_nil_of_mem listed)))
    · exact kept

end Kept

/-- A symbol of a name that is not stirred belongs to no file of the run. -/
theorem outside_of_unstirred {before e again : Engine} (fresh : Fresh before e)
    (same : ∀ c, c ∈ again.contents ↔ c ∈ e.contents) {dir : Path} {x : String}
    (still : ¬ again.Stirs dir x) {g : Nat} (scope : e.index.scopes.scopeFor? dir = some g)
    (id : Nat) (s : Symbol) (live : e.index.scopes.symbol? id = some s) (place : s.scope = g)
    (name : s.name = x) : s.Outside again.rounds.flatten := by
  intro q inRounds own
  obtain ⟨r, done, inRound⟩ := List.mem_flatten.1 inRounds
  obtain ⟨d, _, n, member, here, _, _, _, definer, own'⟩ := fresh.source scope live place
  obtain ⟨d', member', path, text⟩ := exists_document (fun c => (same c).2) member
  refine still ⟨r, done, d', member', (Path.directory_congr path).trans here, ?_, q, inRound,
    path.trans (own'.unique own)⟩
  rw [text, ← name]
  exact List.ne_nil_of_mem definer

/-- A file of the run lists no terminal whose name is not stirred. -/
theorem unlisted_of_unstirred {before e again : Engine} (fresh : Fresh before e)
    (same : ∀ c, c ∈ again.contents ↔ c ∈ e.contents) {p : Path} {s : FileState}
    (found : e.index.file? p = some s) {r : List Path} (done : r ∈ again.rounds)
    (binds : Compile.Binds r p) {n : Nat}
    (still : ¬ again.Stirs p.directory (s.parsed.tree.textOf n)) :
    s.record.symbols.get? n = none := by
  have tidy := fresh.consistent.tidy
  obtain ⟨_, d, held, read⟩ := fresh.settled found
  have path := Workspace.path_of_find? tidy held
  have member := Workspace.mem_documents_of_find? tidy held
  cases listed : s.record.symbols.get? n with
  | none => rfl
  | some id =>
    have definer := (fresh.listed member
      ((PathTable.get?_congr e.index.files path).trans found) listed).1
    rw [← read.parsed] at definer
    obtain ⟨d', member', path', text⟩ := exists_document (fun c => (same c).2) member
    obtain ⟨q, inRound, spelled⟩ := binds
    refine absurd ⟨r, done, d', member', Path.directory_congr (path'.trans path), ?_, q, inRound,
      (path'.trans path).trans spelled⟩ still
    rw [text]
    exact List.ne_nil_of_mem definer

include fresh consistent index same success

/-- A name that is not stirred is not moved. -/
theorem unmoved_of_unstirred {dir : Path} {x : String} (still : ¬ again.Stirs dir x) {g : Nat}
    (scope : e.index.scopes.scopeFor? dir = some g) :
    after.index.scopes.scopeFor? dir = some g ∧
      ScopeStore.Unmoved g x e.index.scopes after.index.scopes := by
  have fresh' := fresh_of_compile consistent success
  have frame := frame_of_compile consistent index success
  have scope' := frame.keys dir g scope
  refine ⟨scope', frame.unmoved fresh.consistent.sound.toCore fresh'.consistent.sound.toCore
    (outside_of_unstirred fresh same still scope)
    (outside_of_unstirred fresh' (fun c => (contents_fresh consistent fresh' c).symm) still scope')⟩

/-- A name that is not stirred goes on to mean the same. -/
theorem meansAlike_of_unstirred {dir : Path} {x : String} (still : ¬ again.Stirs dir x) :
    MeansAlike e after dir x := by
  intro g g' scope scope'
  have fresh' := fresh_of_compile consistent success
  have sound := fresh.consistent.sound
  have sound' := fresh'.consistent.sound
  obtain ⟨kept, unmoved⟩ := unmoved_of_unstirred fresh consistent index same success still scope
  obtain rfl : g = g' := Option.some.inj (kept.symm.trans scope')
  cases found : e.index.scopes.lookup? g x with
  | some id =>
    obtain ⟨s, live, name, place⟩ := sound.bound g x id found
    rw [ScopeStore.resolveTarget?, ScopeStore.resolveTarget?,
      ScopeStore.resolve?_eq sound.layered scope, ScopeStore.resolve?_eq sound'.layered scope',
      unmoved.names, found, Option.some_or, Option.some_or, Option.map_some, Option.map_some,
      Option.bind_some, Option.bind_some, identity?, identity?,
      unmoved.symbol?_follow sound.toCore sound'.toCore live place name]
  | none =>
    exact meaning_of_unbound fresh fresh' scope scope' found (unmoved.names.trans found)

/-- A terminal whose name is not stirred is listed as before. -/
theorem listedAlike_of_unstirred {p : Path} {s s' : FileState} (found : e.index.file? p = some s)
    (found' : after.index.file? p = some s') {n : Nat}
    (still : ¬ again.Stirs p.directory (s.parsed.tree.textOf n)) : ListedAlike e after s s' n := by
  have fresh' := fresh_of_compile consistent success
  have sound := fresh.consistent.sound
  have sound' := fresh'.consistent.sound
  have same' : ∀ c, c ∈ after.contents ↔ c ∈ again.contents := contents_fresh consistent fresh'
  obtain ⟨settled, _⟩ := fresh.settled found
  by_cases out : ∀ r ∈ again.rounds, ¬ Compile.Binds r p
  · rw [file?_of_compile consistent index success out, found] at found'
    cases found'
    refine ⟨Iff.rfl, fun id id' listed listed' => ?_⟩
    rw [listed] at listed'
    cases listed'
    obtain ⟨_, _, _, sym, _, _, _, live, alike⟩ := settled.attached.recorded.described n id listed
    obtain ⟨_, unmoved⟩ := unmoved_of_unstirred fresh consistent index same success still
      settled.attached.home
    rw [identity?, identity?, unmoved.symbol?_follow sound.toCore sound'.toCore live
      alike.scope.symm alike.name.symm]
  · -- A file of the run does not define the name.
    simp only [Classical.not_forall, Classical.not_not] at out
    obtain ⟨r, done, binds⟩ := out
    have parsed := (reading_eq fresh fresh' (fun c => (same c).symm.trans (same' c).symm) found
      found').2
    have unlisted := unlisted_of_unstirred fresh same found done binds still
    have unlisted' := unlisted_of_unstirred fresh' (fun c => (same' c).symm) found' done binds
      (parsed ▸ still)
    refine ⟨by rw [Table.contains, Table.contains, unlisted, unlisted'], fun id _ listed => ?_⟩
    rw [unlisted] at listed
    cases listed

/-- A run over unchanged texts leaves everything as it is if the index is orderly for the names that
the run stirs. -/
theorem agree_of_unstirred (orderly : ∀ dir x, again.Stirs dir x → e.Orderly dir x) :
    Agree e after := by
  have fresh' := fresh_of_compile consistent success
  have same' : ∀ c, c ∈ e.contents ↔ c ∈ after.contents := fun c =>
    (same c).symm.trans (contents_fresh consistent fresh' c).symm
  refine agree_of_alike fresh fresh' same' (fun dir x => ?_) fun p s s' found found' n => ?_
  · by_cases stirred : again.Stirs dir x
    · have orderly := orderly dir x stirred
      exact meansAlike_of_orderly fresh fresh' same' orderly
        (fresh.orderly_compile orderly consistent index same success)
    · exact meansAlike_of_unstirred fresh consistent index same success stirred
  · by_cases stirred : again.Stirs p.directory (s.parsed.tree.textOf n)
    · have orderly := orderly _ _ stirred
      exact listedAlike_of_orderly fresh fresh' same' found found' orderly
        (fresh.orderly_compile orderly consistent index same success)
    · exact listedAlike_of_unstirred fresh consistent index same success found found' stirred

end Again

end Engine

end GrammarIndex
