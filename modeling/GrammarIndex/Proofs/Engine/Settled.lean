import GrammarIndex.Engine.Compile
import GrammarIndex.Proofs.Binding.References
import GrammarIndex.Proofs.Binding.Standing

/-!
Files that are up to date.

A file is attached if its record lists its symbols and its names are seated, named if all its definitions are bound, and
resolved if its references lead where the store leads them and the graph knows of the files on the
way. A change to other files leaves a file that is all of this as it is, unless the file refers into
one of them, dropped a name that was freed, or has a reference that a new name catches.
-/
namespace GrammarIndex

namespace FileState

/-- The dialect and the text that was read. -/
def reading (s : FileState) : Dialect × Parsed := (s.dialect, s.parsed)

/-- What the definitions of a file rest on. -/
structure Readable (s : FileState) : Prop where
  steady : s.dialect.Steady
  distinct : s.parsed.tree.terminals.Nodup

theorem Readable.congr {s s' : FileState} (readable : s.Readable)
    (same : s'.reading = s.reading) : s'.Readable := by
  obtain ⟨dialect, parsed, scope, record⟩ := s
  obtain ⟨dialect', parsed', scope', record'⟩ := s'
  cases same
  exact ⟨readable.steady, readable.distinct⟩

/-- A terminal of the file defines a name. -/
def Defines (s : FileState) (n : Nat) : Prop :=
  n ∈ s.parsed.tree.terminals ∧ (s.dialect.definition? s.parsed.tree ∅ n).isSome = true

instance (s : FileState) (n : Nat) : Decidable (s.Defines n) := inferInstanceAs (Decidable (_ ∧ _))

theorem Defines.congr {s s' : FileState} {n : Nat} (defines : s.Defines n)
    (same : s'.reading = s.reading) : s'.Defines n := by
  obtain ⟨dialect, parsed, scope, record⟩ := s
  obtain ⟨dialect', parsed', scope', record'⟩ := s'
  cases same
  exact defines

/-- The class of a reference of the file, by what the record says is a definition. -/
def reference? (s : FileState) (n : Nat) : Option Classification :=
  Binding.referenceAt s.dialect s.parsed.tree s.record.defs n

/-- A terminal of the file is a reference. -/
def Refers (s : FileState) (n : Nat) : Prop :=
  n ∈ s.parsed.tree.terminals ∧ (s.reference? n).isSome = true

instance (s : FileState) (n : Nat) : Decidable (s.Refers n) := inferInstanceAs (Decidable (_ ∧ _))

/-- The record lists the symbols of the file, and they live in the scope of its directory. -/
structure Attached (st : ScopeStore) (p : Path) (s : FileState) : Prop where
  home : st.byKey.get? p.directory = some s.scope
  recorded : Binding.Recorded s.dialect s.parsed.tree p s.scope s.parsed.tree.terminals st s.record
  seated : Binding.Seated s.dialect s.parsed.tree p s.scope st s.record

/-- Every name that the file defines is bound. -/
def Named (st : ScopeStore) (s : FileState) : Prop :=
  ∀ n, s.Defines n → (st.lookup? s.scope (s.parsed.tree.textOf n)).isSome = true

/-- Before references are resolved: what is highlighted. -/
structure Drafted (s : FileState) : Prop where
  tags : ∀ n, s.record.tags.get? n =
    if n ∈ s.parsed.tree.terminals then Binding.tagFor s.dialect s.parsed.tree n else none
  comments : s.record.comments = Dialect.commentSpans s.parsed

/-- What the record says apart from symbols. -/
structure Marked (s : FileState) : Prop where
  refs : ∀ n, s.record.refs.get? n =
    if n ∈ s.parsed.tree.terminals then s.reference? n else none
  tags : ∀ n, s.record.tags.get? n = if n ∈ s.parsed.tree.terminals
    then (s.reference? n).or (Binding.tagFor s.dialect s.parsed.tree n) else none
  comments : s.record.comments = Dialect.commentSpans s.parsed
  errors : s.record.errors = OrderedSet.ofList s.parsed.errors
  resolved : ∀ n id, s.record.resolved.get? n = some id → s.Refers n
  unresolved : ∀ x, s.record.unresolved.contains x = true ↔
    ∃ n, s.Refers n ∧ s.parsed.tree.textOf n = x ∧ s.record.resolved.get? n = none

/-- A reference was resolved to a symbol or to what the symbol stands for, and the graph knows the
files of both. -/
structure Reaches (st : ScopeStore) (g : DependencyGraph) (p : Path) (id r : Nat) : Prop where
  leads : r = id ∨ (st.symbol? id).bind Symbol.target = some r
  known : ∀ j, j = id ∨ j = r → ∀ f, (st.symbol? j).bind Symbol.file? = some f →
    p.components = f.components ∨ g.Refers p f

/-- Every reference of the file leads where its name leads. -/
def Resolved (st : ScopeStore) (g : DependencyGraph) (p : Path) (s : FileState) : Prop :=
  ∀ n, s.Refers n →
    (st.resolve? s.scope (s.parsed.tree.textOf n) = none ∧ s.record.resolved.get? n = none) ∨
      ∃ id r, st.resolve? s.scope (s.parsed.tree.textOf n) = some id ∧
        s.record.resolved.get? n = some r ∧ Reaches st g p id r

/-- The file is up to date. -/
structure Settled (st : ScopeStore) (g : DependencyGraph) (p : Path) (s : FileState) : Prop where
  attached : s.Attached st p
  named : s.Named st
  marked : s.Marked
  resolved : s.Resolved st g p

/-! ### Other spellings -/

theorem Attached.congr {st : ScopeStore} {p q : Path} {s : FileState} (attached : s.Attached st p)
    (same : p.components = q.components) : s.Attached st q := by
  refine ⟨?_, ⟨?_, ?_, attached.recorded.defs, ?_⟩, attached.seated.congr same rfl⟩
  · rw [← PathTable.get?_congr _ (Path.directory_congr same)]
    exact attached.home
  · intro n id found
    rw [← same]
    exact attached.recorded.described n id found
  · intro id sym live own
    exact attached.recorded.owned id sym live (own.congr same.symm)
  · intro n member defines
    refine (attached.recorded.covered n member defines).imp_right ?_
    rintro ⟨id, sym, found, live, own⟩
    exact ⟨id, sym, found, live, own.congr same⟩

theorem Settled.congr {st : ScopeStore} {g : DependencyGraph} {p q : Path} {s : FileState}
    (settled : s.Settled st g p) (same : p.components = q.components) : s.Settled st g q := by
  refine ⟨settled.attached.congr same, settled.named, settled.marked, fun n refers => ?_⟩
  refine (settled.resolved n refers).imp_right ?_
  rintro ⟨id, r, found, noted, reaches⟩
  refine ⟨id, r, found, noted, reaches.leads, fun j which f file => ?_⟩
  rw [← same]
  exact (reaches.known j which f file).imp_right fun refers => refers.congr same rfl

theorem Settled.of_graph {st : ScopeStore} {g g' : DependencyGraph} {p : Path} {s : FileState}
    (settled : s.Settled st g p) (grows : ∀ on, g.Refers p on → g'.Refers p on) :
    s.Settled st g' p := by
  refine ⟨settled.attached, settled.named, settled.marked, fun n refers => ?_⟩
  refine (settled.resolved n refers).imp_right ?_
  rintro ⟨id, r, found, noted, reaches⟩
  exact ⟨id, r, found, noted, reaches.leads, fun j which f file =>
    (reaches.known j which f file).imp_right (grows f)⟩

end FileState

/-- The global names and their symbols are those of another store. -/
structure Based (base st : ScopeStore) : Prop where
  names : ∀ x, st.lookup? ScopeStore.globalScope x = base.lookup? ScopeStore.globalScope x
  symbols : ∀ x id, base.lookup? ScopeStore.globalScope x = some id →
    st.symbol? id = base.symbol? id

/-! ### A change to other files -/

/-- Some files changed; the names that were bound to their symbols are among the freed ones, and
those bound to their symbols now are among the defined ones. -/
structure Touched (files : List Path) (freed defined : Compile.ScopedNames)
    (st st' : ScopeStore) : Prop where
  before : st.Sound
  after : st'.Sound
  frame : st.Frame files st'
  freed : ∀ g x id s, st.lookup? g x = some id → st.symbol? id = some s → ¬ s.Outside files →
    (g, x) ∈ freed
  defined : ∀ g x id s, st'.lookup? g x = some id → st'.symbol? id = some s →
    ¬ s.Outside files → (g, x) ∈ defined

namespace Touched

variable {files : List Path} {freed defined : Compile.ScopedNames} {st st' : ScopeStore}
  (touched : Touched files freed defined st st')

include touched

/-- A name that was free and is not among the defined ones is still free. -/
theorem lookup?_none {g : Nat} {x : String} (absent : st.lookup? g x = none)
    (untold : (g, x) ∉ defined) : st'.lookup? g x = none := by
  cases found : st'.lookup? g x with
  | none => rfl
  | some id =>
    obtain ⟨s, live, _⟩ := touched.after.bound g x id found
    by_cases outside : s.Outside files
    · have old := touched.frame.namesBack g x id s found live outside
      rw [absent] at old
      cases old
    · exact absurd (touched.defined g x id s found live outside) untold

omit touched in
/-- A global name is bound to a symbol of no file. -/
theorem outside_of_global (files : List Path) (sound : st.Sound) {x : String} {id : Nat}
    (found : st.lookup? ScopeStore.globalScope x = some id) :
    ∃ s, st.symbol? id = some s ∧ s.target = none ∧ s.Outside files := by
  obtain ⟨s, live, _, top⟩ := sound.bound _ x id found
  have builtin := sound.file?_of_global live top
  refine ⟨s, live, (sound.builtin id s live builtin).2, fun q _ own => ?_⟩
  rw [Symbol.OwnedBy, builtin] at own
  cases own

/-- The global names stay as they are. -/
theorem lookup?_global (x : String) :
    st'.lookup? ScopeStore.globalScope x = st.lookup? ScopeStore.globalScope x := by
  cases found : st.lookup? ScopeStore.globalScope x with
  | some id =>
    obtain ⟨s, live, _, out⟩ := outside_of_global files touched.before found
    exact touched.frame.names _ x id s found live out
  | none =>
    cases found' : st'.lookup? ScopeStore.globalScope x with
    | none => rfl
    | some id =>
      obtain ⟨s, live, _, out⟩ := outside_of_global files touched.after found'
      have old := touched.frame.namesBack _ x id s found' live out
      rw [found] at old
      cases old

/-- The global symbols stay as they are. -/
theorem based {base : ScopeStore} (based : Based base st) : Based base st' := by
  refine ⟨fun x => (touched.lookup?_global x).trans (based.names x), fun x id found => ?_⟩
  rw [← based.symbols x id found]
  have here : st.lookup? ScopeStore.globalScope x = some id := (based.names x).trans found
  have here' : st'.lookup? ScopeStore.globalScope x = some id :=
    (touched.lookup?_global x).trans here
  obtain ⟨s, live, self, out⟩ := outside_of_global files touched.before here
  obtain ⟨s₁, live₁, self₁, _⟩ := outside_of_global files touched.after here'
  obtain ⟨s', live', alike⟩ := touched.frame.stay id s live out
  rw [live'] at live₁
  cases live₁
  rw [live, live', alike.eq (self₁.trans self.symm)]

section Resolve

variable {p : Path} {scope : Nat} (home : st.byKey.get? p.directory = some scope) {x : String}

include home

/-- A name that leads nowhere still does, unless it is among the defined ones. -/
theorem resolve?_none (absent : st.resolve? scope x = none) (untold : (scope, x) ∉ defined) :
    st'.resolve? scope x = none := by
  rw [ScopeStore.resolve?_eq touched.before.layered home, Option.or_eq_none_iff] at absent
  rw [ScopeStore.resolve?_eq touched.after.layered (touched.frame.keys _ _ home),
    touched.lookup?_none absent.1 untold, touched.lookup?_global, absent.2]
  rfl

/-- A name that leads to a symbol of no touched file still does, unless a defined one hides it. -/
theorem resolve?_kept {id : Nat} {sym : Symbol} (found : st.resolve? scope x = some id)
    (live : st.symbol? id = some sym) (outside : sym.Outside files)
    (untold : st.lookup? scope x = none → (scope, x) ∉ defined) :
    st'.resolve? scope x = some id := by
  rw [ScopeStore.resolve?_eq touched.before.layered home] at found
  rw [ScopeStore.resolve?_eq touched.after.layered (touched.frame.keys _ _ home),
    touched.lookup?_global]
  cases here : st.lookup? scope x with
  | some id' =>
    rw [here, Option.some_or] at found
    cases found
    rw [touched.frame.names _ _ id sym here live outside]
    rfl
  | none =>
    rw [here, Option.none_or] at found
    rw [touched.lookup?_none here (untold here)]
    exact found

end Resolve

section File

variable {g : DependencyGraph} {p : Path} {s : FileState}
  (apart : ∀ q ∈ files, p.components ≠ q.components)

include apart

theorem attached (attached : s.Attached st p) : s.Attached st' p :=
  ⟨touched.frame.keys _ _ attached.home, attached.recorded.of_frame touched.frame apart,
    attached.seated.of_frame attached.recorded touched.frame apart⟩

/-- The names of a file stay bound if none of those it dropped was freed. -/
theorem named (attached : s.Attached st p) (named : s.Named st)
    (kept : ∀ x, (s.scope, x) ∈ freed → s.record.dropped.contains x = false) : s.Named st' := by
  intro n defines
  obtain ⟨id, found⟩ := Option.isSome_iff_exists.1 (named n defines)
  obtain ⟨sym, live, _⟩ := touched.before.bound _ _ _ found
  have outside : sym.Outside files := by
    rcases attached.recorded.covered n defines.1 defines.2 with late | ⟨id', sym', found', live', own⟩
    · refine Classical.byContradiction fun inside => ?_
      rw [kept _ (touched.freed _ _ id sym found live inside)] at late
      cases late
    · rw [found] at found'
      cases found'
      rw [live] at live'
      cases live'
      exact fun q member own' => apart q member (own.unique own')
  rw [touched.frame.names _ _ id sym found live outside]
  rfl

omit touched in
/-- A file that depends on none of the changed files refers to symbols of other files only. -/
theorem outside_of_known (independent : ∀ q ∈ files, ¬ g.Refers p q) {id : Nat} {sym : Symbol}
    (live : st.symbol? id = some sym)
    (known : ∀ f, (st.symbol? id).bind Symbol.file? = some f →
      p.components = f.components ∨ g.Refers p f) : sym.Outside files := by
  intro q member own
  obtain ⟨f, file, spelled⟩ := Symbol.ownedBy_iff.1 own
  rcases known f (by rw [live]; exact file) with mine | refers
  · exact apart q member (mine.trans spelled)
  · exact independent q member (refers.congr rfl spelled)

/-- What a reference leads to stays. -/
theorem reaches (independent : ∀ q ∈ files, ¬ g.Refers p q) {id r : Nat} {sym : Symbol}
    (live : st.symbol? id = some sym) (reaches : FileState.Reaches st g p id r) :
    sym.Outside files ∧ FileState.Reaches st' g p id r := by
  have outside := outside_of_known apart independent live
    (reaches.known id (.inl rfl))
  -- The symbol that the reference was resolved to is live, too.
  obtain ⟨symR, liveR⟩ : ∃ symR, st.symbol? r = some symR := by
    rcases reaches.leads with same | aimed
    · exact ⟨sym, same ▸ live⟩
    · rw [live] at aimed
      obtain ⟨_, symR, liveR, _⟩ := touched.before.aimed id sym r live aimed
      exact ⟨symR, liveR⟩
  have outsideR := outside_of_known apart independent liveR (reaches.known r (.inr rfl))
  obtain ⟨sym', live', alike⟩ := touched.frame.stay id sym live outside
  obtain ⟨symR', liveR', alikeR⟩ := touched.frame.stay r symR liveR outsideR
  refine ⟨outside, ?_, ?_⟩
  · refine reaches.leads.imp_right fun aimed => ?_
    rw [live] at aimed
    rw [live']
    exact touched.frame.aims id sym sym' r symR live live' outside aimed liveR outsideR
  · intro j which f file
    refine reaches.known j which f ?_
    rcases which with rfl | rfl
    · rw [live'] at file
      rw [live]
      exact alike.file?.trans file
    · rw [liveR'] at file
      rw [liveR]
      exact alikeR.file?.trans file

/-- A reference to a built-in name uses it, also when names are defined that could hide it. -/
theorem usesBuiltin (home : st.byKey.get? p.directory = some s.scope)
    (independent : ∀ q ∈ files, ¬ g.Refers p q) {n id r : Nat}
    (found : st.resolve? s.scope (s.parsed.tree.textOf n) = some id)
    (free : st.lookup? s.scope (s.parsed.tree.textOf n) = none)
    (noted : s.record.resolved.get? n = some r) (reaches : FileState.Reaches st g p id r) :
    Compile.usesBuiltin st' s.record (s.parsed.tree.textOf n) = true := by
  rw [ScopeStore.resolve?_eq touched.before.layered home, free, Option.none_or] at found
  obtain ⟨sym, live, name, top⟩ := touched.before.bound _ _ _ found
  have builtin := touched.before.file?_of_global live top
  have self := (touched.before.builtin id sym live builtin).2
  have same : r = id := by
    rcases reaches.leads with same | aimed
    · exact same
    · rw [live] at aimed
      exact absurd aimed (by simp [self])
  have outside := (touched.reaches apart independent live reaches).1
  obtain ⟨sym', live', alike⟩ := touched.frame.stay id sym live outside
  refine List.any_eq_true.2 ⟨r, Table.mem_values_iff.2 ⟨n, noted⟩, ?_⟩
  rw [same, live']
  simp [← alike.scope, ← alike.name, top, name]

theorem resolved (attached : s.Attached st p) (marked : s.Marked) (resolved : s.Resolved st g p)
    (independent : ∀ q ∈ files, ¬ g.Refers p q)
    (kept : ∀ x, (s.scope, x) ∈ defined → s.record.unresolved.contains x = false ∧
      Compile.usesBuiltin st' s.record x = false) : s.Resolved st' g p := by
  intro n refers
  rcases resolved n refers with ⟨absent, noted⟩ | ⟨id, r, found, noted, reaches⟩
  · refine .inl ⟨touched.resolve?_none attached.home absent fun told => ?_, noted⟩
    have open_ := (marked.unresolved _).2 ⟨n, refers, rfl, noted⟩
    rw [(kept _ told).1] at open_
    cases open_
  · obtain ⟨sym, live, _⟩ := touched.before.symbol_of_resolve? attached.home found
    obtain ⟨outside, reaches'⟩ := touched.reaches apart independent live reaches
    refine .inr ⟨id, r, ?_, noted, reaches'⟩
    refine touched.resolve?_kept attached.home found live outside fun free told => ?_
    -- A definition that now hides the built-in name would be among the defined ones.
    have uses := touched.usesBuiltin apart attached.home independent found free noted reaches
    rw [(kept _ told).2] at uses
    cases uses

/-- A file stays up to date if it depends on none of the changed files, dropped no freed name, and
no defined name catches a reference of it. -/
theorem settled (settled : s.Settled st g p) (independent : ∀ q ∈ files, ¬ g.Refers p q)
    (unfreed : ∀ x, (s.scope, x) ∈ freed → s.record.dropped.contains x = false)
    (undefined : ∀ x, (s.scope, x) ∈ defined → s.record.unresolved.contains x = false ∧
      Compile.usesBuiltin st' s.record x = false) : s.Settled st' g p :=
  ⟨touched.attached apart settled.attached,
    touched.named apart settled.attached settled.named unfreed, settled.marked,
    touched.resolved apart settled.attached settled.marked settled.resolved independent undefined⟩

end File

end Touched

end GrammarIndex
