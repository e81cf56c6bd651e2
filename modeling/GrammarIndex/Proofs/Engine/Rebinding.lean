import GrammarIndex.Proofs.Engine.Orderly

/-!
Binding files again.

Where a name has a leading document and all its symbols come from this one, a round does not change
that: the leading document is heard before all others that define the name, or keeps the name because
it is not bound again. So a run over unchanged texts leaves an index orderly for every name for which
it was, whichever files it binds.
-/
namespace GrammarIndex

/-- A name that a document of the directory defines has a leading document there. -/
def Document.SomeLeads (docs : List Document) (dir : Path) (x : String) : Prop :=
  ∀ d ∈ docs, d.path.directory.components = dir.components → Grammar.definersOf d.text x ≠ [] →
    ∃ f ∈ docs, f.path.directory.components = dir.components ∧
      Grammar.definersOf f.text x ≠ [] ∧ f.Leads docs x

namespace Compile

/-- The index was read from the documents. -/
structure ReadsAll (docs : List Document) (x : Index) : Prop where
  distinct : ∀ d ∈ docs, ∀ d' ∈ docs, d.path.components = d'.path.components → d = d'
  reading : ∀ d ∈ docs, x.reading? d.path = some (Grammar.dialect, Grammar.parse d.text)
  backed : ∀ p, x.files.contains p = true → ∃ d ∈ docs, d.path.components = p.components

/-- Every symbol of a name in a directory comes from a document that defines the name and leads for
it. -/
def InOrder (docs : List Document) (st : ScopeStore) (dir : Path) (x : String) : Prop :=
  ∀ id s, st.symbol? id = some s → s.name = x → ∀ d ∈ docs,
    d.path.directory.components = dir.components → s.OwnedBy d.path →
      Grammar.definersOf d.text x ≠ [] ∧ d.Leads docs x

theorem ReadsAll.of_reading {docs : List Document} {x x' : Index} (reads : ReadsAll docs x)
    (same : ∀ p, x'.reading? p = x.reading? p) : ReadsAll docs x' := by
  refine ⟨reads.distinct, fun d member => (same _).trans (reads.reading d member), ?_⟩
  intro p present
  refine reads.backed p ?_
  have isSome := congrArg Option.isSome (same p)
  simp only [Index.reading?, Option.isSome_map] at isSome
  exact isSome.symm.trans present

/-- A file was read from its document. -/
theorem ReadsAll.readFrom {docs : List Document} {x : Index} (reads : ReadsAll docs x) {p : Path}
    {s : FileState} (found : x.files.get? p = some s) :
    ∃ d ∈ docs, d.path.components = p.components ∧ Engine.ReadFrom s d.text := by
  obtain ⟨d, member, path⟩ := reads.backed p (by rw [Table.contains, found]; rfl)
  have reading := reads.reading d member
  rw [Index.reading?, PathTable.get?_congr _ path, found] at reading
  obtain ⟨dialect, parsed⟩ := Prod.mk.inj (Option.some.inj reading)
  exact ⟨d, member, path, dialect, parsed⟩

/-! ### What a file says about a name -/

section Says

variable {docs : List Document} {x : Index} (reads : ReadsAll docs x) (dir : Path) (g : Nat)
  (y : String) {p : Path}

include reads

/-- The document of a file, and what it says about a name. -/
theorem ReadsAll.definitionsIn_eq (present : x.files.contains p = true) :
    ∃ d ∈ docs, d.path.components = p.components ∧ definitionsIn x dir g y p =
      if d.path.directory.components = dir.components then
        (Grammar.definersOf d.text y).filterMap
          (Binding.symbolAt Grammar.dialect (Grammar.parse d.text).tree p g)
      else [] := by
  obtain ⟨d, member, path⟩ := reads.backed p present
  have reading : x.reading? p = some (Grammar.dialect, Grammar.parse d.text) := by
    rw [← reads.reading d member, Index.reading?, Index.reading?, PathTable.get?_congr _ path]
  refine ⟨d, member, path, ?_⟩
  rw [definitionsIn, Path.directory_congr path]
  simp only [reading]
  rfl

/-- A file that says something about a name has a document that defines it, and a real definition
comes from a document with one. -/
theorem ReadsAll.document_of_mem (present : x.files.contains p = true) {s : Symbol}
    (said : s ∈ definitionsIn x dir g y p) :
    ∃ d ∈ docs, d.path.components = p.components ∧
      d.path.directory.components = dir.components ∧ Grammar.definersOf d.text y ≠ [] ∧
      (s.forward = false → Grammar.defines d.text y = true) := by
  obtain ⟨d, member, path, told⟩ := reads.definitionsIn_eq dir g y present
  rw [told] at said
  split at said
  · next here =>
    obtain ⟨n, definer, brings⟩ := List.mem_filterMap.1 said
    obtain ⟨c, _, rfl⟩ := Binding.eq_symbolFor_of_symbolAt brings
    refine ⟨d, member, path, here, List.ne_nil_of_mem definer, fun real => ?_⟩
    refine List.any_eq_true.2 ⟨n, definer, ?_⟩
    have kind : Grammar.isForward (Grammar.parse d.text).tree n = false := real
    rw [kind]
    rfl
  · cases said

end Says

/-- Every symbol that stands for a name belongs to a document of the directory. -/
theorem exists_owner {docs : List Document} {base : ScopeStore} {x : Index} {bound : PathSet}
    {round : List Path} (midway : Midway base x bound round) (reads : ReadsAll docs x) {dir : Path}
    {g : Nat} {y : String} (home : x.scopes.byKey.get? dir = some g) {v : Standing}
    (stands : x.scopes.standing g y = some v) {u : Symbol} (which : u = v.first ∨ v.second = some u) :
    ∃ d ∈ docs, d.path.directory.components = dir.components ∧ u.OwnedBy d.path := by
  obtain ⟨id, s, live, _, place, rfl⟩ := midway.sound.symbol_of_standing stands which
  obtain ⟨q, file, here⟩ := midway.sound.exists_file_in home live place
  obtain ⟨d, member, path⟩ := reads.backed q (midway.filed id s q live file)
  exact ⟨d, member, (Path.directory_congr path).trans here,
    show s.OwnedBy d.path from Symbol.ownedBy_iff.2 ⟨q, file, path.symm⟩⟩

/-! ### The leading document in a round -/

section Leader

variable {docs : List Document} {x : Index} (reads : ReadsAll docs x) {dir : Path} {g : Nat}
  {y : String} {f : Document} (member : f ∈ docs)
  (here : f.path.directory.components = dir.components)
  (definers : Grammar.definersOf f.text y ≠ []) (leads : f.Leads docs y)

include reads member here

/-- What a document of the directory says about the name. -/
theorem definitionsIn_document {q : Path} (present : x.files.contains q = true)
    (path : f.path.components = q.components) : definitionsIn x dir g y q =
      (Grammar.definersOf f.text y).filterMap
        (Binding.symbolAt Grammar.dialect (Grammar.parse f.text).tree q g) := by
  obtain ⟨d, memberD, pathD, told⟩ := reads.definitionsIn_eq dir g y present
  obtain rfl := reads.distinct d memberD f member (pathD.trans path.symm)
  rw [told, if_pos here]

include leads

omit member in
/-- A real definition that the round brings in has one in the leading document beside it. -/
theorem defines_of_heard {round : List Path} (present : ∀ p ∈ round, x.files.contains p = true)
    {u : Symbol} (said : u ∈ round.flatMap (definitionsIn x dir g y)) (real : u.forward = false) :
    Grammar.defines f.text y = true := by
  obtain ⟨r, inRound, said⟩ := List.mem_flatMap.1 said
  obtain ⟨d, memberD, _, hereD, definersD, defines⟩ :=
    reads.document_of_mem dir g y (present r inRound) said
  exact (leads d memberD (hereD.trans here.symm) definersD).2 (defines real)

include definers

omit definers member in
/-- No file that comes before the leading document in the round has anything to say about the
name. -/
theorem silent_before_leader {before after : List Path} {q : Path}
    (present : ∀ p ∈ before ++ q :: after, x.files.contains p = true)
    (distinct : (before ++ q :: after).Pairwise fun p q => p.components ≠ q.components)
    (sorted : (before ++ q :: after).Pairwise fun p q => compare p q ≠ .gt)
    (path : f.path.components = q.components) : before.flatMap (definitionsIn x dir g y) = [] := by
  refine List.flatMap_eq_nil_iff.2 fun r earlier => ?_
  refine List.eq_nil_iff_forall_not_mem.2 fun u said => ?_
  obtain ⟨d, memberD, pathD, hereD, definersD, _⟩ :=
    reads.document_of_mem dir g y (present r (by simp [earlier])) said
  have lower := (leads d memberD (hereD.trans here.symm) definersD).1
  have upper := (List.pairwise_append.1 sorted).2.2 r earlier q (by simp)
  rw [Path.compare_congr path pathD] at lower
  exact (List.pairwise_append.1 distinct).2.2 r earlier q (by simp)
    (Path.ordered_antisymm upper lower)

/-- If the leading document is bound in the round, it is heard first. -/
theorem heard_of_leader {round : List Path} (present : ∀ p ∈ round, x.files.contains p = true)
    (distinct : round.Pairwise fun p q => p.components ≠ q.components)
    (sorted : round.Pairwise fun p q => compare p q ≠ .gt) {q : Path} (inRound : q ∈ round)
    (path : f.path.components = q.components) :
    ∃ s l, round.flatMap (definitionsIn x dir g y) = s :: l ∧ s.OwnedBy f.path ∧
      (s.forward = true → ∀ u, l.find? (!·.forward) = some u → u.OwnedBy f.path) := by
  have own : ∀ {u}, u ∈ definitionsIn x dir g y q → u.OwnedBy f.path := fun said =>
    (ownedBy_of_mem_definitionsIn said).congr path.symm
  have told := definitionsIn_document (g := g) (y := y) reads member here (present q inRound) path
  have backed := fun {u} => defines_of_heard (u := u) (g := g) reads here leads present
  obtain ⟨pre, post, rfl⟩ := List.append_of_mem inRound
  have silent := silent_before_leader (g := g) reads here leads present distinct sorted path
  rw [List.flatMap_append, silent, List.nil_append, List.flatMap_cons] at backed ⊢
  have defined : ∀ n ∈ Grammar.definersOf f.text y,
      (Grammar.dialect.definition? (Grammar.parse f.text).tree ∅ n).isSome = true :=
    fun n definer => (Grammar.mem_definersOf.1 definer).2.1
  have firstReal : (definitionsIn x dir g y q).find? (!·.forward) =
      ((Grammar.definersOf f.text y).find? (!Grammar.isForward (Grammar.parse f.text).tree ·)).bind
        (Binding.symbolAt Grammar.dialect (Grammar.parse f.text).tree q g) := by
    rw [told]
    exact Binding.find?_filterMap_symbolAt defined
  cases heard : definitionsIn x dir g y q with
  | nil =>
    obtain ⟨n, definer⟩ := List.exists_mem_of_ne_nil _ definers
    obtain ⟨c, class_⟩ := Option.isSome_iff_exists.1 (defined n definer)
    rw [heard] at told
    have none_ := List.filterMap_eq_nil_iff.1 told.symm n definer
    rw [Binding.symbolAt, class_] at none_
    cases none_
  | cons s l =>
    rw [heard] at own firstReal backed
    refine ⟨s, l ++ post.flatMap (definitionsIn x dir g y), rfl, own (by simp), ?_⟩
    intro declares u found
    rw [List.find?_append] at found
    rcases Option.or_eq_some_iff.1 found with inside | ⟨none_, outside⟩
    · exact own (by simp [List.mem_of_find?_eq_some inside])
    · -- A real definition elsewhere would have one in the leading document before it.
      have kind := List.find?_some outside
      have real := backed (u := u) (by simp [List.mem_of_find?_eq_some outside])
        (by simpa using kind)
      obtain ⟨m, first⟩ := Grammar.find?_of_defines real
      obtain ⟨c, class_⟩ := Option.isSome_iff_exists.1
        (defined m (List.mem_of_find?_eq_some first))
      have found' : (s :: l).find? (!·.forward) =
          some (Binding.symbolFor Grammar.dialect (Grammar.parse f.text).tree q g m c) := by
        rw [firstReal, first, Option.bind_some, Binding.symbolAt, class_, Option.map_some]
      rw [List.find?_cons, declares] at found'
      simp only [Bool.not_true] at found'
      rw [none_] at found'
      cases found'

variable {base : ScopeStore} {bound : PathSet} {round : List Path}
  (midway : Midway base x bound round) (order : InOrder docs x.scopes dir y)

include midway order

/-- Before the round the name stands for symbols of the leading document. -/
theorem standing_leader (home : x.scopes.byKey.get? dir = some g) {v : Standing}
    (stands : x.scopes.standing g y = some v) :
    v.first.OwnedBy f.path ∧ ∀ u, v.second = some u → u.OwnedBy f.path := by
  have both : ∀ {u : Symbol}, (u = v.first ∨ v.second = some u) → u.OwnedBy f.path := by
    intro u which
    obtain ⟨d, memberD, hereD, own⟩ := exists_owner midway reads home stands which
    obtain ⟨id, s, live, name, _, rfl⟩ := midway.sound.symbol_of_standing stands which
    obtain ⟨definersD, leadsD⟩ := order id s live name d memberD hereD own
    exact own.congr (leadsD.unique leads memberD member (hereD.trans here.symm) definersD definers)
  exact ⟨both (.inl rfl), fun u follows => both (.inr follows)⟩

/-- A leading document that is not in the round is attached and holds the name, and an announcement
of its own is followed if it has a real definition. -/
theorem standing_of_apart (apart : Apart f.path round)
    (home' : (runRound ⟨x, bound⟩ round).1.index.scopes.byKey.get? dir = some g) :
    ∃ v, x.scopes.standing g y = some v ∧ x.scopes.byKey.get? dir = some g ∧
      (v.first.forward = true → Grammar.defines f.text y = true → v.second.isSome = true) := by
  have reading := reads.reading f member
  obtain ⟨t, found, parsed⟩ := Option.map_eq_some_iff.1 reading
  obtain ⟨dialect, parsed⟩ := Prod.mk.inj parsed
  have held : t.Attached x.scopes f.path ∧ t.Named x.scopes := by
    cases done : Table.contains bound f.path with
    | true => exact ⟨(midway.done _ t found done).1, (midway.done _ t found done).2.1⟩
    | false =>
      have settled := midway.rest _ t found done apart
      exact ⟨settled.attached, settled.named⟩
  obtain ⟨attached, named⟩ := held
  have home := attached.home
  rw [PathTable.get?_congr _ here] at home
  have place : t.scope = g :=
    Option.some.inj ((keys_runRound midway _ _ home).symm.trans home')
  rw [place] at home
  obtain ⟨n, definer⟩ := List.exists_mem_of_ne_nil _ definers
  obtain ⟨terminal, defined, text⟩ := Grammar.mem_definersOf.1 definer
  have bound_ := named n ⟨by rw [parsed]; exact terminal, by rw [dialect, parsed]; exact defined⟩
  rw [place, parsed, text] at bound_
  obtain ⟨id, found⟩ := Option.isSome_iff_exists.1 bound_
  obtain ⟨s, live, _⟩ := midway.sound.bound g y id found
  have stands := ScopeStore.standing_of_bound found live
  refine ⟨_, stands, home, fun declares real => ?_⟩
  have own := (standing_leader reads member here definers leads midway order home stands).1
  obtain ⟨m, first⟩ := Grammar.find?_of_defines real
  have seated := (attached.seated y id s (place ▸ found) live own).2.2 declares
  rw [dialect, parsed] at seated
  obtain ⟨j, _, target⟩ := seated m first
  obtain ⟨_, u, liveU, _⟩ := midway.sound.aimed id s j live target
  simp [target, liveU]

/-- After the round, too, the name stands for symbols of the leading document. -/
theorem standing_leader_runRound (sorted : round.Pairwise fun p q => compare p q ≠ .gt)
    (home' : (runRound ⟨x, bound⟩ round).1.index.scopes.byKey.get? dir = some g) :
    ∃ v, (runRound ⟨x, bound⟩ round).1.index.scopes.standing g y = some v ∧
      v.first.OwnedBy f.path ∧ ∀ u, v.second = some u → u.OwnedBy f.path := by
  rw [standing_runRound midway home']
  have before := fun home v => standing_leader reads member here definers leads midway order
    (g := g) home (v := v)
  by_cases inRound : ∃ q ∈ round, f.path.components = q.components
  · obtain ⟨q, inRound, path⟩ := inRound
    have free : Standing.leaveAll round (x.scopes.standing g y) = none := by
      cases stands : x.scopes.standing g y with
      | none => exact Standing.leaveAll_none round
      | some v =>
        by_cases keyed : x.scopes.byKey.get? dir = some g
        · exact Standing.leaveAll_of_owned inRound ((before keyed v stands).1.congr path)
        · rw [standing_of_unkeyed midway.sound (midway_runRound midway).sound
            (keys_runRound midway) home' keyed] at stands
          cases stands
    obtain ⟨s, l, heard, own, second⟩ := heard_of_leader reads member here definers leads
      midway.present midway.distinct sorted inRound path (g := g)
    rw [free, heard, Standing.foldl_hear_none]
    refine ⟨_, rfl, own, fun u follows => ?_⟩
    split at follows
    · next declares => exact second declares u follows
    · cases follows
  · have apart : Apart f.path round := fun q member same => inRound ⟨q, member, same⟩
    obtain ⟨v, stands, home, followed⟩ :=
      standing_of_apart reads member here definers leads midway order apart home'
    obtain ⟨first, second⟩ := before home v stands
    have outside : ∀ {u : Symbol}, u.OwnedBy f.path → u.Outside round := fun own q member own' =>
      apart q member (own.unique own')
    rw [stands, Standing.leaveAll_eq_self ⟨outside first, fun u follows => outside (second u follows)⟩,
      Standing.foldl_hear_some]
    refine ⟨_, rfl, first, fun u follows => ?_⟩
    simp only at follows
    rcases Option.or_eq_some_iff.1 follows with held | ⟨none_, heard⟩
    · exact second u held
    · split at heard
      · next declares =>
        have kind := List.find?_some heard
        have real := defines_of_heard reads here leads midway.present
          (List.mem_of_find?_eq_some heard) (by simpa using kind)
        have some_ := followed declares real
        rw [none_] at some_
        cases some_
      · cases heard

end Leader

/-- A round keeps the order. -/
theorem inOrder_runRound {docs : List Document} {dir : Path} {y : String}
    (led : Document.SomeLeads docs dir y) {base : ScopeStore} {x : Index} {bound : PathSet}
    {round : List Path} (midway : Midway base x bound round)
    (sorted : round.Pairwise fun p q => compare p q ≠ .gt) (reads : ReadsAll docs x)
    (order : InOrder docs x.scopes dir y) :
    InOrder docs (runRound ⟨x, bound⟩ round).1.index.scopes dir y := by
  have done := midway.roundDone
  have sound := (midway_runRound midway).sound
  intro id s live name d member here own
  by_cases inRound : ∃ q ∈ round, d.path.components = q.components
  · obtain ⟨q, inRound, path⟩ := inRound
    obtain ⟨t, found⟩ := Option.isSome_iff_exists.1 (midway.present q inRound)
    obtain ⟨t', found', _, attached, _⟩ := done.bound q inRound t found
    obtain ⟨d', member', path', read⟩ := (reads.of_reading done.reading).readFrom found'
    obtain rfl := reads.distinct d member d' member' (path.trans path'.symm)
    have definers := Engine.definersOf_ne_nil attached read live (own.congr path)
    rw [name] at definers
    refine ⟨definers, ?_⟩
    obtain ⟨f, memberF, hereF, definersF, leadsF⟩ := led d member here definers
    obtain ⟨r, file, spelled⟩ := Symbol.ownedBy_iff.1 own
    have home := sound.homed id s r live file
    rw [PathTable.get?_congr _ ((Path.directory_congr spelled).trans here)] at home
    obtain ⟨v, stands, first, second⟩ := standing_leader_runRound reads memberF hereF definersF
      leadsF midway order sorted home
    -- The symbol is bound to the name or stands behind the one that is: the leader's either way.
    obtain ⟨id₀, s₀, bound₀, live₀, place⟩ := reached_runRound midway inRound id s live (own.congr path)
    rw [name] at bound₀
    rw [ScopeStore.standing_of_bound bound₀ live₀] at stands
    cases stands
    have ownF : s.OwnedBy f.path := by
      rcases place with rfl | target
      · rw [live] at live₀
        cases live₀
        exact first
      · exact second s.bare (by rw [target, Option.bind_some, live, Option.map_some])
    rw [reads.distinct d member f memberF (own.unique ownF)]
    exact leadsF
  · have outside : s.Outside round := fun q listed own' => inRound ⟨q, listed, own.unique own'⟩
    obtain ⟨s₀, live₀, alike⟩ := done.touched.frame.back id s live outside
    exact order id s₀ live₀ (alike.name.trans name) d member here (alike.ownedBy.2 own)

/-- Files are bound in path order. -/
theorem sorted_nextRound (p : Progress) (round : List Path) (freed defined : ScopedNames) :
    (nextRound p round freed defined).Pairwise fun q r => compare q r ≠ .gt := by
  refine List.Pairwise.filter _ ((Table.pairwise_keys _).imp fun lower => ?_)
  rw [lower]
  decide

/-- A run keeps the order. -/
theorem inOrder_runRounds {docs : List Document} {dir : Path} {y : String}
    (led : Document.SomeLeads docs dir y) {base : ScopeStore} {x : Index} {first : List Path}
    (midway : Midway base x ∅ first) (sorted : first.Pairwise fun p q => compare p q ≠ .gt)
    (reads : ReadsAll docs x) (order : InOrder docs x.scopes dir y) :
    InOrder docs (runRounds (x.files.size + 1) ⟨x, ∅⟩ first).index.scopes dir y := by
  obtain ⟨_, _, order', _⟩ := runRounds_induction (Q := fun x' _ round' => ReadsAll docs x' ∧
      InOrder docs x'.scopes dir y ∧ round'.Pairwise fun p q => compare p q ≠ .gt)
    (fun {x' bound' round'} midway' holds => by
      obtain ⟨reads, order, sorted⟩ := holds
      exact ⟨reads.of_reading (further_runRound midway').reading,
        inOrder_runRound led midway' sorted reads order, sorted_nextRound _ _ _ _⟩)
    _ midway (waitingCount_lt_size x ∅) ⟨reads, order, sorted⟩
  exact order'

end Compile

namespace Engine

/-- What a run starts from was read from the documents. -/
theorem readsAll_read {e : Engine} (consistent : e.Consistent) :
    Compile.ReadsAll e.documents (Compile.readInto e.index e.dirtyDocuments) := by
  have tidy := consistent.tidy
  refine ⟨fun d member d' member' path => ?_, fun d member => ?_, fun p present => ?_⟩
  · have held := (Workspace.mem_documents_iff tidy).1 member
    have held' := (Workspace.mem_documents_iff tidy).1 member'
    rw [Workspace.find?_congr e.workspace path, held'] at held
    exact (Option.some.inj held).symm
  · have held : e.document? d.path = some d := (Workspace.mem_documents_iff tidy).1 member
    rcases get?_read consistent d.path with ⟨d', _, held', _, found⟩ | ⟨clean, _, kept⟩
    · rw [held] at held'
      cases held'
      rw [Index.reading?, found]
      rfl
    · obtain ⟨s, found⟩ := Option.isSome_iff_exists.1
        (consistent.indexed d.path d held (clean d held))
      have read := (consistent.settled d.path s d found held (clean d held)).2
      rw [Index.reading?, kept, found, Option.map_some, FileState.reading, read.dialect, read.parsed]
  · rcases get?_read consistent p with ⟨d, member, _, path, _⟩ | ⟨_, _, kept⟩
    · exact ⟨d, (List.mem_filter.1 member).1, path.symm⟩
    · rw [Table.contains, kept] at present
      obtain ⟨s, found⟩ := Option.isSome_iff_exists.1 present
      obtain ⟨d, held⟩ := consistent.backed p s found
      exact ⟨d, Workspace.mem_documents_of_find? tidy held, Workspace.path_of_find? tidy held⟩

/-- A run keeps the order. -/
theorem inOrder_compiled {e : Engine} (consistent : e.Consistent) {dir : Path} {x : String}
    (led : Document.SomeLeads e.documents dir x)
    (order : Compile.InOrder e.documents e.index.scopes dir x) :
    Compile.InOrder e.documents e.compiled.index.scopes dir x := by
  rw [scopes_compiled]
  refine Compile.inOrder_runRounds led (midway_read consistent) ?_ (readsAll_read consistent) order
  exact List.pairwise_map.2 ((Workspace.sorted_documents _).filter _)

section Orderly

variable {before e : Engine} (fresh : Fresh before e) {dir : Path} {x : String}
  (orderly : e.Orderly dir x)

include fresh orderly

/-- In an orderly index a name has a leading document. -/
theorem Fresh.someLeads : Document.SomeLeads e.documents dir x := by
  intro d member here definers
  obtain ⟨s, _, settled, _⟩ := fresh.file_of_document member
  have home := settled.attached.home
  rw [PathTable.get?_congr _ here] at home
  obtain ⟨id, bound⟩ := fresh.bound_of_definers home member here definers
  obtain ⟨f, _, _, led⟩ := fresh.led orderly home bound
  exact ⟨f, led.member, led.here, led.definers, led.leads⟩

theorem Fresh.inOrder : Compile.InOrder e.documents e.index.scopes dir x := by
  intro id s live name d member here own
  obtain ⟨t, _, settled, read⟩ := fresh.file_of_document member
  exact ⟨name ▸ definersOf_ne_nil settled.attached read live own,
    orderly s (ScopeStore.mem_symbols.2 ⟨id, live⟩) name d member here own⟩

/-- A run over the same texts leaves an orderly index orderly. -/
theorem Fresh.orderly_compile {again after : Engine} (consistent : again.Consistent)
    (index : again.index = e.index) (same : ∀ c, c ∈ again.contents ↔ c ∈ e.contents)
    {paths : List Path} (success : again.compile = (after, .ok paths)) : after.Orderly dir x := by
  have led : Document.SomeLeads again.documents dir x := by
    intro d₂ member₂ here₂ definers
    obtain ⟨d, member, path, text⟩ := exists_document (fun c => (same c).1) member₂
    obtain ⟨f, memberF, hereF, definersF, leads⟩ := fresh.someLeads orderly d member
      ((Path.directory_congr path).trans here₂) (text ▸ definers)
    obtain ⟨f₂, memberF₂, pathF, textF⟩ := exists_document (fun c => (same c).2) memberF
    exact ⟨f₂, memberF₂, (Path.directory_congr pathF).trans hereF, textF ▸ definersF,
      leads_of_contents (fun c => (same c).1) pathF.symm textF.symm leads⟩
  have order : Compile.InOrder again.documents again.index.scopes dir x := by
    intro id s live name d₂ member₂ here₂ own
    obtain ⟨d, member, path, text⟩ := exists_document (fun c => (same c).1) member₂
    rw [index] at live
    obtain ⟨definers, leads⟩ := fresh.inOrder orderly id s live name d member
      ((Path.directory_congr path).trans here₂) (own.congr path.symm)
    exact ⟨text ▸ definers, leads_of_contents (fun c => (same c).1) path text leads⟩
  have kept := contents_fresh consistent (fresh_of_compile consistent success)
  rcases cases_of_compile consistent success with ⟨_, rfl⟩ | ⟨_, rfl, _⟩
  · exact orderly.of_contents (by rw [index]) fun c => (same c).1
  · intro s live name d' member' here' own
    obtain ⟨id, live⟩ := ScopeStore.mem_symbols.1 live
    obtain ⟨d, member, path, text⟩ := exists_document (fun c => (kept c).1) member'
    refine leads_of_contents (fun c => (kept c).1) path text ?_
    exact (inOrder_compiled consistent led order id s live name d member
      ((Path.directory_congr path).trans here') (own.congr path.symm)).2

end Orderly

end Engine

end GrammarIndex
