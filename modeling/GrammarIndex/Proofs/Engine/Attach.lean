import GrammarIndex.Proofs.Engine.Settled

/-!
The two passes of a round.

Attaching takes the symbols of a round's files out of the store and notes the names that this frees.
Defining brings the symbols of their present texts in and notes the names that are defined. Neither
pass touches other files or what was read.
-/
namespace GrammarIndex

/-- What was read for a path. -/
def Index.reading? (x : Index) (p : Path) : Option (Dialect × Parsed) :=
  (x.files.get? p).map FileState.reading

theorem Index.reading?_insert (x : Index) {p : Path} {s : FileState} (s' : FileState)
    (found : x.files.get? p = some s) (same : s'.reading = s.reading) (scopes : ScopeStore)
    (graph : DependencyGraph) (q : Path) :
    (Index.mk scopes (x.files.insert p s') graph).reading? q = x.reading? q := by
  rw [reading?, reading?, PathTable.get?_insert]
  split
  · next spelled =>
    rw [PathTable.get?_congr x.files spelled, found, Option.map_some, Option.map_some, same]
  · rfl

namespace Compile

/-- The path belongs to none of the files. -/
def Apart (p : Path) (files : List Path) : Prop := ∀ q ∈ files, p.components ≠ q.components

/-! ### Attaching -/

/-- What attaching files does. -/
structure AttachedAll (round : List Path) (x x' : Index) (freed : ScopedNames) : Prop where
  sound : x'.scopes.Sound
  frame : x.scopes.Frame round x'.scopes
  graph : x'.graph = x.graph
  keys : x'.files.keys = x.files.keys
  reading : ∀ p, x'.reading? p = x.reading? p
  others : ∀ p, Apart p round → x'.files.get? p = x.files.get? p
  ready : ∀ p ∈ round, ∀ s, x.files.get? p = some s → ∃ scope,
    x'.files.get? p = some { s with scope, record := {} } ∧
      x'.scopes.byKey.get? p.directory = some scope
  gone : ∀ p ∈ round, ∀ id s, x'.scopes.symbol? id = some s → ¬ s.OwnedBy p
  back : ∀ id s', x'.scopes.symbol? id = some s' → ∃ s, x.scopes.symbol? id = some s ∧ s.Alike s'
  freed : ∀ g y id s, x.scopes.lookup? g y = some id → x.scopes.symbol? id = some s →
    ¬ s.Outside round → (g, y) ∈ freed

/-- The scope of a file, purged of the file. -/
theorem initScope_spec {st : ScopeStore} (sound : st.Sound) (p : Path) :
    (Binding.initScope st p).1.Sound ∧ st.Frame [p] (Binding.initScope st p).1 ∧
      (Binding.initScope st p).1.byKey.get? p.directory = some (Binding.initScope st p).2.1 ∧
      (∀ id s, (Binding.initScope st p).1.symbol? id = some s → ¬ s.OwnedBy p) ∧
      ∀ g y id s, st.lookup? g y = some id → st.symbol? id = some s → s.OwnedBy p →
        g = (Binding.initScope st p).2.1 ∧ y ∈ (Binding.initScope st p).2.2 := by
  obtain ⟨soundS, home, keys, symbols, names⟩ := ScopeStore.scopeFor_spec sound p.directory
  have made : st.Frame [p] (st.scopeFor p.directory).1 := by
    refine ⟨keys, ?_, ?_, ?_, ?_, ?_, ?_⟩
    · intro id s live _
      exact ⟨s, by rw [symbols, live], .refl s⟩
    · intro id s live _
      exact ⟨s, by rw [← symbols, live], .refl s⟩
    · intro g x id s found _ _
      rw [names, found]
    · intro g x id s found _ _
      rw [← names, found]
    · intro id s s' t u live live' _ aimed _ _
      rw [symbols, live] at live'
      cases live'
      exact aimed
    · intro id s s' t u live live' _ aimed _ _
      rw [symbols, live] at live'
      cases live'
      exact aimed
  have gone := ScopeStore.removeFile_spec soundS home
  refine ⟨gone.sound, made.trans gone.frame, ?_, gone.gone, ?_⟩
  · show ((st.scopeFor p.directory).1.removeFile (st.scopeFor p.directory).2 p).1.byKey.get? _ = _
    rw [gone.keys]
    exact home
  · intro g y id s found live own
    obtain ⟨s', live', _, place⟩ := sound.bound g y id found
    rw [live] at live'
    cases live'
    have liveS : (st.scopeFor p.directory).1.symbol? id = some s := by rw [symbols, live]
    refine ⟨place.symm.trans (soundS.scope_of_ownedBy home liveS own), ?_⟩
    exact gone.freed g y id s (by rw [names, found]) liveS own

/-- Attaching one file. -/
def attachOne (acc : Index × ScopedNames) (p : Path) : Index × ScopedNames :=
  match acc.1.files.get? p with
  | none => acc
  | some state =>
    let (scopes, scope, names) := Binding.initScope acc.1.scopes p
    ({ acc.1 with scopes, files := acc.1.files.insert p { state with scope, record := {} } },
      acc.2 ++ names.map fun n => (scope, n))

theorem attach_eq (x : Index) (round : List Path) : attach x round = round.foldl attachOne (x, []) :=
  rfl

theorem attachedAll_cons {x : Index} {before freed : ScopedNames} {p : Path} {round : List Path}
    {x' : Index} {s : FileState} (sound : x.scopes.Sound) (found : x.files.get? p = some s)
    (apart : Apart p round)
    (grows : ∀ n ∈ (attachOne (x, before) p).2, n ∈ freed)
    (rest : AttachedAll round (attachOne (x, before) p).1 x' freed) :
    AttachedAll (p :: round) x x' freed := by
  obtain ⟨soundP, frame, home, gone, frees⟩ := initScope_spec sound p
  have one : attachOne (x, before) p =
      ({ x with
          scopes := (Binding.initScope x.scopes p).1,
          files := x.files.insert p
            { s with scope := (Binding.initScope x.scopes p).2.1, record := {} } },
        before ++ (Binding.initScope x.scopes p).2.2.map
          fun n => ((Binding.initScope x.scopes p).2.1, n)) := by
    simp only [attachOne, found]
  rw [one] at grows rest
  generalize Binding.initScope x.scopes p = out at *
  obtain ⟨scopes, scope, names⟩ := out
  have back : ∀ id s', scopes.symbol? id = some s' →
      ∃ s, x.scopes.symbol? id = some s ∧ s.Alike s' :=
    fun id s' live' => frame.back id s' live' (Symbol.outside_singleton.2 (gone id s' live'))
  have present : x.files.contains p = true := by rw [Table.contains, found]; rfl
  refine ⟨rest.sound, (frame.mono (by simp)).trans (rest.frame.mono (by simp)), rest.graph, ?_, ?_,
    ?_, ?_, ?_, ?_, ?_⟩
  · exact rest.keys.trans (Table.keys_insert_of_contains _ present)
  · intro q
    rw [rest.reading]
    exact Index.reading?_insert x { s with scope, record := {} } found rfl scopes x.graph q
  · intro q apart'
    rw [rest.others q fun r member => apart' r (by simp [member]), PathTable.get?_insert,
      if_neg (apart' p (by simp))]
  · intro q member t foundQ
    rcases List.mem_cons.1 member with rfl | member
    · rw [found] at foundQ
      cases foundQ
      refine ⟨scope, ?_, rest.frame.keys _ _ home⟩
      rw [rest.others q apart, PathTable.get?_insert, if_pos rfl]
    · refine rest.ready q member t ?_
      rw [PathTable.get?_insert, if_neg (apart q member).symm, foundQ]
  · intro q member id s' live' own
    rcases List.mem_cons.1 member with rfl | member
    · obtain ⟨m, liveM, alike⟩ := rest.back id s' live'
      exact gone id m liveM (alike.ownedBy.2 own)
    · exact rest.gone q member id s' live' own
  · intro id s' live'
    obtain ⟨m, liveM, alike'⟩ := rest.back id s' live'
    obtain ⟨s₀, live₀, alike⟩ := back id m liveM
    exact ⟨s₀, live₀, alike.trans alike'⟩
  · intro g y id sym bound live inside
    by_cases own : sym.OwnedBy p
    · obtain ⟨rfl, listed⟩ := frees g y id sym bound live own
      exact grows _ (List.mem_append.2 (.inr (List.mem_map.2 ⟨y, listed, rfl⟩)))
    · have outside : sym.Outside [p] := Symbol.outside_singleton.2 own
      obtain ⟨sym', live', alike⟩ := frame.stay id sym live outside
      refine rest.freed g y id sym' (frame.names g y id sym bound live outside) live' ?_
      intro out
      exact inside (Symbol.outside_cons.2 ⟨own, alike.outside.2 out⟩)

theorem attachedAll_foldl (round : List Path) (acc : Index × ScopedNames)
    (sound : acc.1.scopes.Sound) (present : ∀ p ∈ round, acc.1.files.contains p = true)
    (distinct : round.Pairwise fun p q => p.components ≠ q.components) :
    (∀ n ∈ acc.2, n ∈ (round.foldl attachOne acc).2) ∧
      AttachedAll round acc.1 (round.foldl attachOne acc).1 (round.foldl attachOne acc).2 := by
  induction round generalizing acc with
  | nil =>
    refine ⟨fun n h => h, sound, .refl _ _, rfl, rfl, fun _ => rfl, fun _ _ => rfl, by simp, by simp,
      fun id s live => ⟨s, live, .refl s⟩, ?_⟩
    intro g y id s _ _ inside
    exact absurd (fun q member => by cases member) inside
  | cons p round ih =>
    obtain ⟨apart, distinctRest⟩ := List.pairwise_cons.1 distinct
    obtain ⟨x, before⟩ := acc
    obtain ⟨s, found⟩ := Option.isSome_iff_exists.1 (present p (by simp))
    obtain ⟨soundP, _⟩ := initScope_spec sound p
    rw [List.foldl_cons]
    have kept : ∀ n ∈ before, n ∈ (attachOne (x, before) p).2 := by
      intro n member
      simp only [attachOne, found]
      exact List.mem_append.2 (.inl member)
    obtain ⟨grows, rest⟩ := ih (attachOne (x, before) p)
      (by simp only [attachOne, found]; exact soundP)
      (by
        intro q member
        simp only [attachOne, found, Table.contains_insert]
        exact .inr (present q (by simp [member]))) distinctRest
    exact ⟨fun n member => grows n (kept n member),
      attachedAll_cons sound found apart grows rest⟩

theorem attachedAll_attach {x : Index} {round : List Path} (sound : x.scopes.Sound)
    (present : ∀ p ∈ round, x.files.contains p = true)
    (distinct : round.Pairwise fun p q => p.components ≠ q.components) :
    AttachedAll round x (attach x round).1 (attach x round).2 := by
  rw [attach_eq]
  exact (attachedAll_foldl round (x, []) sound present distinct).2

/-! ### Defining -/

/-- A file that is attached and has no symbols yet. -/
structure Ready (x : Index) (p : Path) (s : FileState) : Prop where
  readable : s.Readable
  blank : s.record = {}
  home : x.scopes.byKey.get? p.directory = some s.scope
  gone : ∀ id sym, x.scopes.symbol? id = some sym → ¬ sym.OwnedBy p

/-- What defining the names of files does. -/
structure DefinedAll (round : List Path) (x x' : Index) (defined : ScopedNames) : Prop where
  sound : x'.scopes.Sound
  frame : x.scopes.Frame round x'.scopes
  graph : x'.graph = x.graph
  keys : x'.files.keys = x.files.keys
  reading : ∀ p, x'.reading? p = x.reading? p
  others : ∀ p, Apart p round → x'.files.get? p = x.files.get? p
  bound : ∀ p ∈ round, ∀ s, x.files.get? p = some s → ∃ s', x'.files.get? p = some s' ∧
    s'.reading = s.reading ∧ s'.Attached x'.scopes p ∧ s'.Named x'.scopes ∧ s'.Drafted
  names : ∀ g y id, x.scopes.lookup? g y = some id → x'.scopes.lookup? g y = some id
  defined : ∀ g y id s, x'.scopes.lookup? g y = some id → x'.scopes.symbol? id = some s →
    ¬ s.Outside round → (g, y) ∈ defined

/-- Defining the names of one file. -/
def defineOne (acc : Index × ScopedNames) (p : Path) : Index × ScopedNames :=
  match acc.1.files.get? p with
  | none => acc
  | some state =>
    let (scopes, record) := Binding.bindDefinitions acc.1.scopes state.dialect state.parsed p
      state.scope state.record
    let state := { state with record }
    ({ acc.1 with scopes, files := acc.1.files.insert p state },
      acc.2 ++ definedNames scopes state)

theorem define_eq (x : Index) (round : List Path) : define x round = round.foldl defineOne (x, []) :=
  rfl

/-- What defining the names of one file gives. -/
structure DefinedOne (p : Path) (s : FileState) (x x' : Index) (told : ScopedNames) : Prop where
  grown : x.scopes.Grown p x'.scopes
  graph : x'.graph = x.graph
  files : ∃ s', x'.files = x.files.insert p s' ∧ s'.reading = s.reading ∧
    s'.Attached x'.scopes p ∧ s'.Named x'.scopes ∧ s'.Drafted
  told : ∀ id sym, x'.scopes.symbol? id = some sym → sym.OwnedBy p → (sym.scope, sym.name) ∈ told

theorem definedOne {x : Index} (before : ScopedNames) {p : Path} {s : FileState}
    (sound : x.scopes.Sound) (found : x.files.get? p = some s) (ready : Ready x p s) :
    DefinedOne p s x (defineOne (x, before) p).1 (defineOne (x, before) p).2 := by
  have bound := Binding.bound_definitions ready.readable.steady sound ready.home ready.gone
    ready.readable.distinct
  have tags : ∀ n, (Binding.bindDefinitions x.scopes s.dialect s.parsed p s.scope {}).2.tags.get? n =
      if n ∈ s.parsed.tree.terminals then Binding.tagFor s.dialect s.parsed.tree n else none :=
    Binding.get?_tags_bindDefinitions ready.readable.steady s.parsed
  have comments : (Binding.bindDefinitions x.scopes s.dialect s.parsed p s.scope {}).2.comments =
      Dialect.commentSpans s.parsed := rfl
  have seated := Binding.seated_bindDefinitions ready.readable.steady sound ready.home ready.gone
    ready.readable.distinct
  simp only [defineOne, found, ready.blank]
  generalize Binding.bindDefinitions x.scopes s.dialect s.parsed p s.scope {} = out
    at bound tags comments seated
  obtain ⟨scopes, record⟩ := out
  have recorded : Binding.Recorded s.dialect s.parsed.tree p s.scope s.parsed.tree.terminals scopes
      record := bound.recorded
  refine ⟨bound.grown, rfl, ⟨_, rfl, rfl, ⟨?_, recorded, seated⟩, ?_, tags, comments⟩, ?_⟩
  · show scopes.byKey.get? _ = _
    rw [bound.grown.keys]
    exact ready.home
  · exact fun n defines => bound.named n defines.1 defines.2
  · intro id sym live own
    obtain ⟨n, c, q, _, listed, _, _, _, alike⟩ := recorded.site live own
    refine List.mem_append.2 (.inr (List.mem_filterMap.2 ⟨id, ?_, ?_⟩))
    · exact Table.mem_values_iff.2 ⟨n, listed⟩
    · have place : sym.scope = s.scope := alike.scope.symm
      rw [live, place]
      rfl

/-- A file stays ready while others are defined. -/
theorem Ready.of_definedOne {x x' : Index} {told : ScopedNames} {p q : Path} {s t : FileState}
    (ready : Ready x q t) (found : x.files.get? q = some t) (one : DefinedOne p s x x' told)
    (apart : p.components ≠ q.components) : x'.files.get? q = some t ∧ Ready x' q t := by
  obtain ⟨s', files, _⟩ := one.files
  refine ⟨?_, ready.readable, ready.blank, ?_, ?_⟩
  · rw [files, PathTable.get?_insert, if_neg apart.symm, found]
  · rw [one.grown.keys]
    exact ready.home
  · intro id sym live own
    have outside : sym.Outside [p] :=
      Symbol.outside_singleton.2 fun own' => apart (own'.unique own)
    obtain ⟨sym₀, live₀, alike⟩ := one.grown.frame.back id sym live outside
    exact ready.gone id sym₀ live₀ (alike.ownedBy.2 own)

theorem definedAll_cons {x x' : Index} {before defined : ScopedNames} {p : Path}
    {round : List Path} {s : FileState} (sound : x.scopes.Sound)
    (found : x.files.get? p = some s) (ready : Ready x p s) (apart : Apart p round)
    (grows : ∀ n ∈ (defineOne (x, before) p).2, n ∈ defined)
    (rest : DefinedAll round (defineOne (x, before) p).1 x' defined) :
    DefinedAll (p :: round) x x' defined := by
  have one := definedOne before sound found ready
  generalize defineOne (x, before) p = out at grows rest one
  obtain ⟨mid, told⟩ := out
  obtain ⟨s', files, reading, attached, named, drafted⟩ := one.files
  simp only at files grows rest attached named one
  have present : x.files.contains p = true := by rw [Table.contains, found]; rfl
  refine ⟨rest.sound, (one.grown.frame.mono (by simp)).trans (rest.frame.mono (by simp)),
    rest.graph.trans one.graph, ?_, ?_, ?_, ?_, ?_, ?_⟩
  · rw [rest.keys, files]
    exact Table.keys_insert_of_contains _ present
  · intro q
    rw [rest.reading, ← Index.reading?_insert x s' found reading mid.scopes mid.graph q, ← files]
  · intro q apart'
    rw [rest.others q fun r member => apart' r (by simp [member]), files, PathTable.get?_insert,
      if_neg (apart' p (by simp))]
  · intro q member t foundQ
    rcases List.mem_cons.1 member with rfl | member
    · rw [found] at foundQ
      cases foundQ
      refine ⟨s', ?_, reading, ⟨rest.frame.keys _ _ attached.home,
        attached.recorded.of_frame rest.frame apart,
        attached.seated.of_frame attached.recorded rest.frame apart⟩, ?_, drafted⟩
      · rw [rest.others q apart, files, PathTable.get?_insert, if_pos rfl]
      · intro n defines
        obtain ⟨id, bound⟩ := Option.isSome_iff_exists.1 (named n defines)
        rw [rest.names _ _ id bound]
        rfl
    · refine rest.bound q member t ?_
      rw [files, PathTable.get?_insert, if_neg (apart q member).symm, foundQ]
  · exact fun g y id bound => rest.names g y id (one.grown.names g y id bound)
  · intro g y id sym bound live inside
    by_cases own : sym.OwnedBy p
    · obtain ⟨sym₀, live₀, alike⟩ := rest.frame.back id sym live fun q member own' =>
        apart q member (own.unique own')
      obtain ⟨sym', live', name, place⟩ := rest.sound.bound g y id bound
      rw [live] at live'
      cases live'
      have told := grows _ (one.told id sym₀ live₀ (alike.ownedBy.2 own))
      rw [alike.scope, alike.name, name, place] at told
      exact told
    · exact rest.defined g y id sym bound live fun out =>
        inside (Symbol.outside_cons.2 ⟨own, out⟩)

theorem definedAll_foldl (round : List Path) (acc : Index × ScopedNames)
    (sound : acc.1.scopes.Sound)
    (ready : ∀ p ∈ round, ∃ s, acc.1.files.get? p = some s ∧ Ready acc.1 p s)
    (distinct : round.Pairwise fun p q => p.components ≠ q.components) :
    (∀ n ∈ acc.2, n ∈ (round.foldl defineOne acc).2) ∧
      DefinedAll round acc.1 (round.foldl defineOne acc).1 (round.foldl defineOne acc).2 := by
  induction round generalizing acc with
  | nil =>
    refine ⟨fun n h => h, sound, .refl _ _, rfl, rfl, fun _ => rfl, fun _ _ => rfl, by simp,
      fun _ _ _ found => found, ?_⟩
    intro g y id s _ _ inside
    exact absurd (fun q member => by cases member) inside
  | cons p round ih =>
    obtain ⟨apart, distinctRest⟩ := List.pairwise_cons.1 distinct
    obtain ⟨x, before⟩ := acc
    obtain ⟨s, found, readyP⟩ := ready p (by simp)
    have one := definedOne before sound found readyP
    have kept : ∀ n ∈ before, n ∈ (defineOne (x, before) p).2 := by
      intro n member
      simp only [defineOne, found]
      exact List.mem_append.2 (.inl member)
    rw [List.foldl_cons]
    obtain ⟨grows, rest⟩ := ih (defineOne (x, before) p) one.grown.sound
      (fun q member => by
        obtain ⟨t, foundQ, readyQ⟩ := ready q (by simp [member])
        exact ⟨t, readyQ.of_definedOne foundQ one (apart q member)⟩) distinctRest
    exact ⟨fun n member => grows n (kept n member),
      definedAll_cons sound found readyP apart grows rest⟩

theorem definedAll_define {x : Index} {round : List Path} (sound : x.scopes.Sound)
    (ready : ∀ p ∈ round, ∃ s, x.files.get? p = some s ∧ Ready x p s)
    (distinct : round.Pairwise fun p q => p.components ≠ q.components) :
    DefinedAll round x (define x round).1 (define x round).2 := by
  rw [define_eq]
  exact (definedAll_foldl round (x, []) sound ready distinct).2

end Compile

end GrammarIndex
