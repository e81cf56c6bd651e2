import GrammarIndex.Proofs.Engine.Reachable

/-!
What holds after a successful run, whatever came before it.

Every reference that a record lists leads where its name leads now, also in the files that the run
did not bind; and the names bound in the scope of a directory are exactly those that its files
define.
-/
namespace GrammarIndex

open FileState

/-- What the resolved references of an up-to-date file lead to. -/
theorem FileState.Reaches.follow_eq {st : ScopeStore} (sound : st.Sound) {g : DependencyGraph}
    {p : Path} {id r : Nat} {sym : Symbol} (live : st.symbol? id = some sym)
    (reaches : Reaches st g p id r) :
    st.follow r = st.follow id ∧ (st.symbol? r).isSome = true := by
  rcases reaches.leads with rfl | aimed
  · exact ⟨rfl, by rw [live]; rfl⟩
  · rw [live, Option.bind_some] at aimed
    obtain ⟨_, symR, liveR, self, _⟩ := sound.aimed id sym r live aimed
    rw [ScopeStore.follow_of_target sound.toCore live aimed,
      ScopeStore.follow_of_self sound.toCore liveR self]
    exact ⟨rfl, by rw [liveR]; rfl⟩

theorem FileState.reference?_eq_some {s : FileState} {n : Nat} {c : Classification} :
    s.reference? n = some c ↔ s.record.defs.contains n = false ∧
      s.dialect.reference? s.parsed.tree s.record.defs n = some c := by
  unfold FileState.reference? Binding.referenceAt
  cases s.record.defs.contains n <;> simp

/-- A file that was read and whose document is clean, after a successful run. -/
theorem Engine.Fresh.settled {before e : Engine} (fresh : Engine.Fresh before e) {f : Path}
    {s : FileState} (found : e.index.file? f = some s) :
    s.Settled e.index.scopes e.index.graph f ∧
      ∃ d, e.document? f = some d ∧ Engine.ReadFrom s d.text := by
  obtain ⟨d, held⟩ := fresh.consistent.backed f s found
  obtain ⟨settled, read⟩ := fresh.consistent.settled f s d found held (fresh.clean f d held)
  exact ⟨settled, d, held, read⟩

namespace Engine

/-- A symbol comes from a terminal of the text that a file holds now. -/
structure Origin (e : Engine) (id : Nat) (sym : Symbol) (f : Path) (s : FileState) (d : Document)
    (n : Nat) : Prop where
  found : e.index.file? f = some s
  held : e.document? f = some d
  read : ReadFrom s d.text
  terminal : n ∈ s.parsed.tree.terminals
  defines : s.dialect.definition? s.parsed.tree ∅ n = some sym.classification
  name : s.parsed.tree.textOf n = sym.name
  site : sym.site = some ⟨f, n, s.parsed.tree.spanOf n⟩
  scope : e.index.scopes.scopeFor? f.directory = some sym.scope
  listed : s.record.symbols.get? n = some id

/-- After a successful run every symbol of a file has an origin. -/
theorem Fresh.origin {before e : Engine} (fresh : Fresh before e) {id : Nat} {sym : Symbol}
    (live : e.index.scopes.symbol? id = some sym) {q : Path} (file : sym.file? = some q) :
    ∃ f s d n, Origin e id sym f s d n := by
  obtain ⟨s, found⟩ := Option.isSome_iff_exists.1 (fresh.consistent.filed id sym q live file)
  obtain ⟨settled, d, held, read⟩ := fresh.settled found
  obtain ⟨n, c, f, terminal, listed, _, defines, spelled, alike⟩ :=
    settled.attached.recorded.site live (Symbol.ownedBy_iff.2 ⟨q, file, rfl⟩)
  have foundF : e.index.file? f = some s := (PathTable.get?_congr e.index.files spelled).trans found
  have homeF := (fresh.settled foundF).1.attached.home
  exact ⟨f, s, d, n, foundF, (Workspace.find?_congr e.workspace spelled).trans held, read, terminal,
    defines.trans (congrArg some alike.classification), alike.name, alike.site.symm,
    homeF.trans (congrArg some alike.scope), listed⟩

/-- What is bound in the scope of a directory belongs to a file. -/
theorem Fresh.file?_of_lookup? {before e : Engine} (fresh : Fresh before e) {dir : Path} {g : Nat}
    (scope : e.index.scopes.scopeFor? dir = some g) {x : String} {id : Nat}
    (bound : e.index.scopes.lookup? g x = some id) :
    ∃ sym q, e.index.scopes.symbol? id = some sym ∧ sym.name = x ∧ sym.scope = g ∧
      sym.file? = some q := by
  have sound := fresh.consistent.sound
  obtain ⟨sym, live, name, place⟩ := sound.bound g x id bound
  obtain ⟨q, file, _⟩ := sound.exists_file_in scope live place
  exact ⟨sym, q, live, name, place, file⟩

/-- A document is bound and closed, and another takes its place and its slots. -/
def reopened : List Operation :=
  [.openDocument (.of "a.g4") "y : x ;", .compile, .closeDocument (.of "a.g4"),
    .openDocument (.of "b.g4") "x : y ; y : x ;"]

theorem compile_of_isOk {e : Engine} (good : e.compile.2.isOk = true) :
    ∃ paths, e.compile = (e.compile.1, .ok paths) := by
  cases result : e.compile.2 with
  | ok paths => exact ⟨paths, Prod.ext rfl result⟩
  | error halt => rw [result] at good; cases good

theorem compile_reopened : ∃ paths,
    (after {} reopened).compile = ((after {} reopened).compile.1, .ok paths) :=
  compile_of_isOk (by decide +kernel)

/-- References after any operations and a successful run: the record of every indexed file lists
exactly its references, with their classes; a reference is resolved if and only if its name is
bound in view of the file, and then both lead to the same live symbol; the unresolved names are
those of the other references. -/
theorem references_agree (config : Config) (operations : List Operation) {e : Engine}
    {paths : List Path} (success : (after config operations).compile = (e, .ok paths))
    {f : Path} {s : FileState} (found : e.index.file? f = some s) :
    (∀ n c, s.record.refs.get? n = some c ↔ n ∈ s.parsed.tree.terminals ∧
      s.record.defs.contains n = false ∧
      s.dialect.reference? s.parsed.tree s.record.defs n = some c) ∧
    (∀ n c, s.record.refs.get? n = some c →
      s.record.tags.get? n = some c ∧
      (s.record.resolved.contains n = true ↔
        (e.index.scopes.resolve? s.scope (s.parsed.tree.textOf n)).isSome = true) ∧
      ∀ r id, s.record.resolved.get? n = some r →
        e.index.scopes.resolve? s.scope (s.parsed.tree.textOf n) = some id →
        e.index.scopes.follow r = e.index.scopes.follow id ∧
        (e.index.scopes.symbol? r).isSome = true ∧ (e.index.scopes.symbol? id).isSome = true) ∧
    ∀ x, s.record.unresolved.contains x = true ↔
      ∃ n, s.record.refs.contains n = true ∧ s.record.resolved.contains n = false ∧
        s.parsed.tree.textOf n = x := by
  have fresh := fresh_of_compile (consistent_after config operations) success
  obtain ⟨settled, _⟩ := fresh.settled found
  have sound := fresh.consistent.sound
  have refs : ∀ n c, s.record.refs.get? n = some c ↔
      n ∈ s.parsed.tree.terminals ∧ s.reference? n = some c := by
    intro n c
    rw [settled.marked.refs]
    split <;> simp_all
  have refers : ∀ n, s.record.refs.contains n = true ↔ s.Refers n := by
    intro n
    rw [Table.contains, Option.isSome_iff_exists, Refers, Option.isSome_iff_exists]
    simp only [refs, exists_and_left]
  refine ⟨fun n c => by rw [refs, reference?_eq_some], fun n c listed => ?_, fun x => ?_⟩
  · have here := (refs n c).1 listed
    refine ⟨?_, ?_, ?_⟩
    · rw [settled.marked.tags, if_pos here.1, here.2]
      rfl
    · have cases_ := settled.resolved n ⟨here.1, by rw [here.2]; rfl⟩
      rcases cases_ with ⟨absent, unnoted⟩ | ⟨id, r, bound, noted, _⟩
      · rw [Table.contains, absent, unnoted]
      · rw [Table.contains, bound, noted]
        simp
    · intro r id noted bound
      have cases_ := settled.resolved n ⟨here.1, by rw [here.2]; rfl⟩
      rcases cases_ with ⟨absent, _⟩ | ⟨id', r', bound', noted', reaches⟩
      · rw [absent] at bound
        cases bound
      · rw [bound] at bound'
        cases bound'
        rw [noted] at noted'
        cases noted'
        obtain ⟨sym, live, _⟩ := sound.symbol_of_resolve? settled.attached.home bound
        obtain ⟨same, liveR⟩ := reaches.follow_eq sound live
        exact ⟨same, liveR, by rw [live]; rfl⟩
  · rw [settled.marked.unresolved]
    simp only [refers]
    simp only [Table.contains, Option.isSome_eq_false_iff, Option.isNone_iff_eq_none]
    constructor
    · rintro ⟨n, refers, text, unnoted⟩
      exact ⟨n, refers, unnoted, text⟩
    · rintro ⟨n, refers, unnoted, text⟩
      exact ⟨n, refers, text, unnoted⟩

/-- The file that took the place of another refers to a name that it defines itself. -/
theorem references_agree_reopened : ∃ e s paths r id,
    (after {} reopened).compile = (e, .ok paths) ∧ e.index.file? (.of "b.g4") = some s ∧
      s.record.refs.get? 5 = some .nonterminal ∧ s.record.resolved.get? 5 = some r ∧
      e.index.scopes.resolve? s.scope "y" = some id ∧
      e.index.scopes.follow r = e.index.scopes.follow id := by
  obtain ⟨paths, success⟩ := compile_reopened
  have present : ((after {} reopened).compile.1.index.file? (.of "b.g4")).isSome = true := by
    decide +kernel
  obtain ⟨s, found⟩ := Option.isSome_iff_exists.1 present
  have agree := references_agree {} reopened success found
  have refs : ((after {} reopened).compile.1.index.file? (.of "b.g4")).map
      (fun s => (s.record.refs.get? 5, s.parsed.tree.textOf 5)) = some (some .nonterminal, "y") := by
    decide +kernel
  have bound : ((after {} reopened).compile.1.index.file? (.of "b.g4")).map
      (fun s => ((after {} reopened).compile.1.index.scopes.resolve? s.scope "y").isSome) =
        some true := by decide +kernel
  rw [found, Option.map_some, Option.some.injEq, Prod.mk.injEq] at refs
  rw [found, Option.map_some, Option.some.injEq] at bound
  obtain ⟨id, resolves⟩ := Option.isSome_iff_exists.1 bound
  obtain ⟨_, iff_, same⟩ := agree.2.1 5 .nonterminal refs.1
  rw [refs.2] at iff_ same
  obtain ⟨r, noted⟩ := Option.isSome_iff_exists.1 (iff_.2 bound)
  exact ⟨_, s, paths, r, id, success, found, refs.1, noted, resolves, (same r id noted resolves).1⟩

/-- Definitions after any operations and a successful run: every indexed file has the scope of its
directory; a name is bound in the scope of a directory if and only if a file there defines it; and
it is bound to a live symbol that such a file recorded for the defining terminal of its present
text. -/
theorem definitions_bound (config : Config) (operations : List Operation) {e : Engine}
    {paths : List Path} (success : (after config operations).compile = (e, .ok paths)) :
    (∀ f s, e.index.file? f = some s → e.index.scopes.scopeFor? f.directory = some s.scope) ∧
    ∀ dir g, e.index.scopes.scopeFor? dir = some g → ∀ x,
      ((e.index.scopes.lookup? g x).isSome = true ↔
        ∃ f s n, e.index.file? f = some s ∧ f.directory.components = dir.components ∧
          n ∈ s.parsed.tree.terminals ∧
          (s.dialect.definition? s.parsed.tree s.record.defs n).isSome = true ∧
          s.parsed.tree.textOf n = x) ∧
      ∀ id, e.index.scopes.lookup? g x = some id →
        ∃ sym f s d n, e.index.scopes.symbol? id = some sym ∧ sym.name = x ∧ sym.scope = g ∧
          sym.site = some ⟨f, n, s.parsed.tree.spanOf n⟩ ∧
          e.index.file? f = some s ∧ f.directory.components = dir.components ∧
          e.document? f = some d ∧ s.parsed = Grammar.parse d.text ∧
          n ∈ s.parsed.tree.terminals ∧
          s.dialect.definition? s.parsed.tree s.record.defs n = some sym.classification ∧
          s.record.symbols.get? n = some id := by
  have fresh := fresh_of_compile (consistent_after config operations) success
  have sound := fresh.consistent.sound
  have home : ∀ f s, e.index.file? f = some s →
      e.index.scopes.scopeFor? f.directory = some s.scope := fun f s found =>
    (fresh.settled found).1.attached.home
  refine ⟨home, fun dir g scope x => ?_⟩
  have site : ∀ id, e.index.scopes.lookup? g x = some id →
      ∃ sym f s d n, e.index.scopes.symbol? id = some sym ∧ sym.name = x ∧ sym.scope = g ∧
        sym.site = some ⟨f, n, s.parsed.tree.spanOf n⟩ ∧
        e.index.file? f = some s ∧ f.directory.components = dir.components ∧
        e.document? f = some d ∧ s.parsed = Grammar.parse d.text ∧
        n ∈ s.parsed.tree.terminals ∧
        s.dialect.definition? s.parsed.tree s.record.defs n = some sym.classification ∧
        s.record.symbols.get? n = some id := by
    intro id bound
    obtain ⟨sym, q, live, name, place, file⟩ := fresh.file?_of_lookup? scope bound
    obtain ⟨f, s, d, n, origin⟩ := fresh.origin live file
    have directory : f.directory.components = dir.components := by
      refine sound.layered.distinct _ _ g ?_ scope
      rw [← place]
      exact origin.scope
    refine ⟨sym, f, s, d, n, live, name, place, origin.site, origin.found, directory, origin.held,
      origin.read.parsed, origin.terminal, ?_, origin.listed⟩
    rw [origin.read.readable.steady]
    exact origin.defines
  refine ⟨⟨fun some_ => ?_, ?_⟩, site⟩
  · obtain ⟨id, bound⟩ := Option.isSome_iff_exists.1 some_
    obtain ⟨sym, f, s, d, n, live, name, _, place, found, directory, _, _, terminal, class_, listed⟩ :=
      site id bound
    obtain ⟨_, c, q, s', _, _, _, live', alike⟩ :=
      (fresh.settled found).1.attached.recorded.described n id listed
    rw [live] at live'
    cases live'
    exact ⟨f, s, n, found, directory, terminal, by rw [class_]; rfl, alike.name.trans name⟩
  · rintro ⟨f, s, n, found, directory, terminal, defines, rfl⟩
    obtain ⟨settled, _, _, read⟩ := fresh.settled found
    rw [read.readable.steady] at defines
    have same : s.scope = g := by
      have here := home f s found
      rw [ScopeStore.scopeFor?, PathTable.get?_congr _ directory] at here
      exact Option.some.inj (here.symm.trans scope)
    rw [← same]
    exact settled.named n ⟨terminal, defines⟩

/-- The name is bound to the definition in the file that took the place of another. -/
theorem definitions_bound_reopened : ∃ e paths g id sym,
    (after {} reopened).compile = (e, .ok paths) ∧ e.index.scopes.scopeFor? (.of "") = some g ∧
      e.index.scopes.lookup? g "y" = some id ∧ e.index.scopes.symbol? id = some sym ∧
      sym.name = "y" ∧ sym.scope = g ∧ ∃ f s, e.index.file? f = some s ∧
        (s.record.symbols.values.contains id) = true := by
  obtain ⟨paths, success⟩ := compile_reopened
  obtain ⟨_, bound⟩ := definitions_bound {} reopened success
  have scope : ((after {} reopened).compile.1.index.scopes.scopeFor? (.of "")).isSome = true := by
    decide +kernel
  have named : (((after {} reopened).compile.1.index.scopes.scopeFor? (.of "")).bind
      ((after {} reopened).compile.1.index.scopes.lookup? · "y")).isSome = true := by
    decide +kernel
  obtain ⟨g, here⟩ := Option.isSome_iff_exists.1 scope
  rw [here, Option.bind_some] at named
  obtain ⟨id, found⟩ := Option.isSome_iff_exists.1 named
  obtain ⟨sym, f, s, _, n, live, name, place, _, file, _, _, _, _, _, listed⟩ :=
    (bound (.of "") g here "y").2 id found
  refine ⟨_, paths, g, id, sym, success, here, found, live, name, place, f, s, file, ?_⟩
  exact List.contains_iff_mem.2 (Table.mem_values_iff.2 ⟨n, listed⟩)

end Engine

end GrammarIndex
