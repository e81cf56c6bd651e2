import GrammarIndex.Proofs.Engine.Rounds

/-!
What a round does to the standing of names.

Attaching the files of a round takes their symbols out of every standing; then the definitions of
their present texts are heard, file after file in the order of the round. So the standing of a name
after a round is told from the standing before it and the texts alone.
-/
namespace GrammarIndex.Compile

/-! ### Attaching -/

theorem standing_initScope {st : ScopeStore} (sound : st.Sound) (p : Path) (g : Nat) (x : String) :
    (Binding.initScope st p).1.standing g x = (st.standing g x).bind (Standing.leave p) := by
  obtain ⟨soundS, home, _, symbols, names⟩ := ScopeStore.scopeFor_spec sound p.directory
  have same : (st.scopeFor p.directory).1.standing g x = st.standing g x := by
    refine ScopeStore.standing_congr sound.toCore (names g x) fun id s _ live => ?_
    exact ⟨(symbols id).trans live, fun t _ => symbols t⟩
  rw [← same]
  exact ScopeStore.standing_of_fileGone soundS (ScopeStore.removeFile_spec soundS home) g x

theorem standing_attach {x : Index} {round : List Path} (sound : x.scopes.Sound)
    (present : ∀ p ∈ round, x.files.contains p = true) (g : Nat) (y : String) :
    (attach x round).1.scopes.standing g y = Standing.leaveAll round (x.scopes.standing g y) := by
  have run : ∀ (acc : Index × ScopedNames), acc.1.scopes.Sound →
      (∀ p ∈ round, acc.1.files.contains p = true) →
      (round.foldl attachOne acc).1.scopes.standing g y =
        Standing.leaveAll round (acc.1.scopes.standing g y) := by
    clear sound present
    induction round with
    | nil => exact fun _ _ _ => rfl
    | cons p round ih =>
      intro acc sound present
      obtain ⟨s, found⟩ := Option.isSome_iff_exists.1 (present p (by simp))
      have scopes : (attachOne acc p).1.scopes = (Binding.initScope acc.1.scopes p).1 := by
        simp only [attachOne, found]
      rw [List.foldl_cons, ih, scopes, standing_initScope sound, Standing.leaveAll_cons]
      · rw [scopes]
        exact (initScope_spec sound p).1
      · intro q member
        simp only [attachOne, found, Table.contains_insert]
        exact .inr (present q (by simp [member]))
  exact run (x, []) sound present

/-! ### Defining -/

/-- The definitions of a name that the text of a file brings into the scope of a directory. -/
def definitionsIn (x : Index) (dir : Path) (g : Nat) (y : String) (p : Path) : List Symbol :=
  if p.directory.components = dir.components then
    match x.reading? p with
    | some (d, parsed) =>
      (Binding.definersOf d parsed.tree y).filterMap (Binding.symbolAt d parsed.tree p g)
    | none => []
  else []

theorem definitionsIn_congr {x x' : Index} (same : ∀ p, x'.reading? p = x.reading? p) (dir : Path)
    (g : Nat) (y : String) : definitionsIn x' dir g y = definitionsIn x dir g y := by
  funext p
  rw [definitionsIn, definitionsIn, same]

/-- The definitions that a text brings in are the file's, and the name's. -/
theorem ownedBy_of_mem_definitionsIn {x : Index} {dir : Path} {g : Nat} {y : String} {p : Path}
    {s : Symbol} (member : s ∈ definitionsIn x dir g y p) : s.OwnedBy p := by
  unfold definitionsIn at member
  split at member
  · split at member
    · obtain ⟨n, _, brings⟩ := List.mem_filterMap.1 member
      obtain ⟨c, _, rfl⟩ := Binding.eq_symbolFor_of_symbolAt brings
      exact Binding.symbolFor_owned _ _ _ _ _ _
    · cases member
  · cases member

/-- A file of another directory brings nothing into the scope. -/
theorem filter_candidates_of_ne (d : Dialect) (tree : SyntaxTree) (p : Path) {scope g : Nat}
    (other : scope ≠ g) (x : String) :
    (Binding.candidates d tree p scope).filter (·.goesBy g x) = [] := by
  refine List.filter_eq_nil_iff.2 fun s member => ?_
  obtain ⟨n, _, brings⟩ := List.mem_filterMap.1 member
  obtain ⟨c, _, rfl⟩ := Binding.eq_symbolFor_of_symbolAt brings
  rw [Symbol.goesBy_iff]
  exact fun here => other here.1.symm

theorem standing_defineOne {x : Index} (before : ScopedNames) {p : Path} {s : FileState}
    (sound : x.scopes.Sound) (found : x.files.get? p = some s) (ready : Ready x p s) {dir : Path}
    {g : Nat} (home : s.scope = g ↔ p.directory.components = dir.components) (y : String) :
    (defineOne (x, before) p).1.scopes.standing g y =
      (definitionsIn x dir g y p).foldl Standing.hear (x.scopes.standing g y) := by
  have heard := Binding.standing_bindDefinitions ready.readable.steady sound ready.home ready.gone
    ready.readable.distinct g y
  have reading : x.reading? p = some (s.dialect, s.parsed) := by
    rw [Index.reading?, found, Option.map_some]
    rfl
  simp only [defineOne, found, ready.blank, heard, definitionsIn, reading]
  split
  · next here => rw [← home.2 here, Binding.filter_candidates]
  · next away => rw [filter_candidates_of_ne _ _ _ fun same => away (home.1 same)]

theorem standing_define {x : Index} {round : List Path} (sound : x.scopes.Sound)
    (ready : ∀ p ∈ round, ∃ s, x.files.get? p = some s ∧ Ready x p s)
    (distinct : round.Pairwise fun p q => p.components ≠ q.components) {dir : Path} {g : Nat}
    (home : ∀ p ∈ round, ∀ s, x.files.get? p = some s →
      (s.scope = g ↔ p.directory.components = dir.components)) (y : String) :
    (define x round).1.scopes.standing g y =
      (round.flatMap (definitionsIn x dir g y)).foldl Standing.hear (x.scopes.standing g y) := by
  have run : ∀ (acc : Index × ScopedNames), acc.1.scopes.Sound →
      (∀ p ∈ round, ∃ s, acc.1.files.get? p = some s ∧ Ready acc.1 p s) →
      (∀ p ∈ round, ∀ s, acc.1.files.get? p = some s →
        (s.scope = g ↔ p.directory.components = dir.components)) →
      (round.foldl defineOne acc).1.scopes.standing g y =
        (round.flatMap (definitionsIn acc.1 dir g y)).foldl Standing.hear
          (acc.1.scopes.standing g y) := by
    clear sound ready home
    induction round with
    | nil => exact fun _ _ _ _ => rfl
    | cons p round ih =>
      intro acc sound ready home
      obtain ⟨apart, distinctRest⟩ := List.pairwise_cons.1 distinct
      obtain ⟨x, before⟩ := acc
      obtain ⟨s, found, readyP⟩ := ready p (by simp)
      have one := definedOne before sound found readyP
      have heard := standing_defineOne before sound found readyP (home p (by simp) s found) y
      have reading : ∀ q, (defineOne (x, before) p).1.reading? q = x.reading? q := by
        intro q
        obtain ⟨s', files, same, _⟩ := one.files
        rw [← Index.reading?_insert x s' found same x.scopes x.graph q, Index.reading?,
          Index.reading?, files]
      rw [List.foldl_cons, ih distinctRest _ one.grown.sound, heard, List.flatMap_cons,
        List.foldl_append, definitionsIn_congr reading]
      · intro q member
        obtain ⟨t, foundQ, readyQ⟩ := ready q (by simp [member])
        exact ⟨t, readyQ.of_definedOne foundQ one (apart q member)⟩
      · intro q member t foundQ
        obtain ⟨u, foundU, readyU⟩ := ready q (by simp [member])
        rw [(readyU.of_definedOne foundU one (apart q member)).1] at foundQ
        cases foundQ
        exact home q (by simp [member]) t foundU
  exact run (x, []) sound ready home

/-- The files of a round are reached when all of them are defined. -/
theorem reached_define {x : Index} {round : List Path} (sound : x.scopes.Sound)
    (ready : ∀ p ∈ round, ∃ s, x.files.get? p = some s ∧ Ready x p s)
    (distinct : round.Pairwise fun p q => p.components ≠ q.components) {p : Path}
    (member : p ∈ round) : (define x round).1.scopes.Reached p := by
  have run : ∀ (acc : Index × ScopedNames), acc.1.scopes.Sound →
      (∀ q ∈ round, ∃ s, acc.1.files.get? q = some s ∧ Ready acc.1 q s) →
      p ∈ round ∨ Apart p round ∧ acc.1.scopes.Reached p →
      (round.foldl defineOne acc).1.scopes.Reached p := by
    clear sound ready member
    induction round with
    | nil =>
      rintro acc _ _ (member | ⟨_, reached⟩)
      · cases member
      · exact reached
    | cons q round ih =>
      intro acc sound ready either
      obtain ⟨apart, distinctRest⟩ := List.pairwise_cons.1 distinct
      obtain ⟨x, before⟩ := acc
      obtain ⟨s, found, readyQ⟩ := ready q (by simp)
      have one := definedOne before sound found readyQ
      rw [List.foldl_cons]
      refine ih distinctRest _ one.grown.sound (fun r member => ?_) ?_
      · obtain ⟨t, foundR, readyR⟩ := ready r (by simp [member])
        exact ⟨t, readyR.of_definedOne foundR one (apart r member)⟩
      · rcases either with member | ⟨away, reached⟩
        · rcases List.mem_cons.1 member with rfl | later
          · refine .inr ⟨apart, ?_⟩
            have reached := Binding.reached_bindDefinitions readyQ.readable.steady sound readyQ.home
              readyQ.gone readyQ.readable.distinct
            simpa only [defineOne, found, readyQ.blank] using reached
          · exact .inl later
        · refine .inr ⟨fun r member => away r (by simp [member]), ?_⟩
          refine reached.of_grown one.grown fun j u live dead own => ?_
          exact absurd (own.unique (one.grown.fresh j u live dead)) (away q (by simp))
  exact run (x, []) sound ready (.inl member)

/-! ### One round -/

/-- A scope that no directory has yet holds no names. -/
theorem standing_of_unkeyed {st st' : ScopeStore} (sound : st.Sound) (sound' : st'.Sound)
    (keys : ∀ k g, st.byKey.get? k = some g → st'.byKey.get? k = some g) {dir : Path} {g : Nat}
    (home : st'.byKey.get? dir = some g) (absent : st.byKey.get? dir ≠ some g) (y : String) :
    st.standing g y = none := by
  rw [ScopeStore.standing_eq_none_iff sound.toCore]
  cases found : st.lookup? g y with
  | none => rfl
  | some id =>
    obtain ⟨s, live, _, place⟩ := sound.bound g y id found
    obtain ⟨f, file⟩ := sound.exists_file live (place ▸ (sound'.layered.keyed _ _ home).1)
    have homeF := sound.homed id s f live file
    rw [place] at homeF
    have same := sound'.layered.distinct _ _ _ (keys _ _ homeF) home
    rw [PathTable.get?_congr _ same] at homeF
    exact absurd homeF absent

/-- Attaching the files of a round makes them ready. -/
theorem ready_attach {base : ScopeStore} {x : Index} {bound : PathSet} {round : List Path}
    (midway : Midway base x bound round) :
    ∀ p ∈ round, ∃ s, (attach x round).1.files.get? p = some s ∧ Ready (attach x round).1 p s := by
  have first := attachedAll_attach midway.sound midway.present midway.distinct
  intro p member
  obtain ⟨s, found⟩ := Option.isSome_iff_exists.1 (midway.present p member)
  obtain ⟨scope, foundM, home⟩ := first.ready p member s found
  exact ⟨_, foundM, (midway.readable p s found).congr rfl, rfl, home, first.gone p member⟩

/-- The standing of a name after a round. -/
theorem standing_runRound {base : ScopeStore} {x : Index} {bound : PathSet} {round : List Path}
    (midway : Midway base x bound round) {dir : Path} {g : Nat}
    (home : (runRound ⟨x, bound⟩ round).1.index.scopes.byKey.get? dir = some g) (y : String) :
    (runRound ⟨x, bound⟩ round).1.index.scopes.standing g y =
      (round.flatMap (definitionsIn x dir g y)).foldl Standing.hear
        (Standing.leaveAll round (x.scopes.standing g y)) := by
  have first := attachedAll_attach midway.sound midway.present midway.distinct
  have left := standing_attach midway.sound midway.present g y
  have ready := ready_attach midway
  have index : (runRound ⟨x, bound⟩ round).1.index = (define (attach x round).1 round).1 := rfl
  rw [index] at home ⊢
  generalize attach x round = mid at first left home ready
  obtain ⟨m, freed⟩ := mid
  simp only at first left home ready ⊢
  have second := definedAll_define first.sound ready midway.distinct
  have homes : ∀ p ∈ round, ∀ s, m.files.get? p = some s →
      (s.scope = g ↔ p.directory.components = dir.components) := by
    intro p member s found
    obtain ⟨s', found', readyP⟩ := ready p member
    rw [found] at found'
    cases found'
    have homeP := second.frame.keys _ _ readyP.home
    constructor
    · rintro rfl
      exact second.sound.layered.distinct _ _ _ homeP home
    · intro same
      rw [PathTable.get?_congr _ same, home] at homeP
      exact (Option.some.inj homeP).symm
  rw [standing_define first.sound ready midway.distinct homes, left,
    definitionsIn_congr first.reading]

/-- After a round, every symbol of its files is bound or stands behind the one that is. -/
theorem reached_runRound {base : ScopeStore} {x : Index} {bound : PathSet} {round : List Path}
    (midway : Midway base x bound round) {p : Path} (member : p ∈ round) :
    (runRound ⟨x, bound⟩ round).1.index.scopes.Reached p := by
  have first := attachedAll_attach midway.sound midway.present midway.distinct
  exact reached_define first.sound (ready_attach midway) midway.distinct member

theorem keys_runRound {base : ScopeStore} {x : Index} {bound : PathSet} {round : List Path}
    (midway : Midway base x bound round) (k : Path) (g : Nat) (found : x.scopes.byKey.get? k = some g) :
    (runRound ⟨x, bound⟩ round).1.index.scopes.byKey.get? k = some g :=
  midway.roundDone.touched.frame.keys k g found

/-! ### All rounds -/

section Rounds

variable {dir : Path} {y : String}

/-- A round that has the old symbols of a name hears the name anew. -/
theorem standing_runRound_of_owned {base : ScopeStore} {x : Index} {bound : PathSet}
    {round : List Path} (midway : Midway base x bound round) {g : Nat}
    (owned : x.scopes.byKey.get? dir = some g → ∀ v, x.scopes.standing g y = some v →
      ∃ p ∈ round, v.first.OwnedBy p)
    (home : (runRound ⟨x, bound⟩ round).1.index.scopes.byKey.get? dir = some g) :
    (runRound ⟨x, bound⟩ round).1.index.scopes.standing g y =
      (round.flatMap (definitionsIn x dir g y)).foldl Standing.hear none := by
  have free : Standing.leaveAll round (x.scopes.standing g y) = none := by
    cases before : x.scopes.standing g y with
    | none => exact Standing.leaveAll_none round
    | some v =>
      by_cases keyed : x.scopes.byKey.get? dir = some g
      · obtain ⟨p, member, own⟩ := owned keyed v before
        exact Standing.leaveAll_of_owned member own
      · rw [standing_of_unkeyed midway.sound (midway_runRound midway).sound (keys_runRound midway)
          home keyed] at before
        cases before
  rw [standing_runRound midway home, free]

variable {x₀ : Index} {first : List Path}
  (silent : ∀ g p, Apart p first → definitionsIn x₀ dir g y p = [])

include silent

/-- After a round that had all there is of a name, others leave the name as it is. -/
theorem standing_runRound_of_heard {base : ScopeStore} {x : Index} {bound : PathSet}
    {round : List Path} (midway : Midway base x bound round)
    (present : ∀ p ∈ first, x₀.files.contains p = true)
    (done : ∀ p ∈ first, bound.contains p = true) (reading : ∀ p, x.reading? p = x₀.reading? p)
    (stands : ∀ g, x.scopes.byKey.get? dir = some g → x.scopes.standing g y =
      (first.flatMap (definitionsIn x₀ dir g y)).foldl Standing.hear none) {g : Nat}
    (home : (runRound ⟨x, bound⟩ round).1.index.scopes.byKey.get? dir = some g) :
    (runRound ⟨x, bound⟩ round).1.index.scopes.standing g y =
      (first.flatMap (definitionsIn x₀ dir g y)).foldl Standing.hear none := by
  have apart : ∀ p ∈ round, Apart p first := by
    intro p member q inFirst same
    have absent := midway.unbound p member
    rw [PathSet.contains_congr bound same, done q inFirst] at absent
    cases absent
  have nothing : round.flatMap (definitionsIn x dir g y) = [] := by
    rw [definitionsIn_congr reading]
    exact List.flatMap_eq_nil_iff.2 fun p member => silent g p (apart p member)
  rw [standing_runRound midway home, nothing, List.foldl_nil]
  by_cases keyed : x.scopes.byKey.get? dir = some g
  · rw [stands g keyed]
    refine Standing.leaveAll_foldl_hear fun s member p inRound own => ?_
    obtain ⟨q, inFirst, said⟩ := List.mem_flatMap.1 member
    exact apart p inRound q inFirst (own.unique (ownedBy_of_mem_definitionsIn said))
  · -- Without a scope for the directory, none of its files was bound.
    have empty : first.flatMap (definitionsIn x₀ dir g y) = [] := by
      refine List.flatMap_eq_nil_iff.2 fun p member => if_neg fun here => keyed ?_
      have same := congrArg Option.isSome (reading p)
      simp only [Index.reading?, Option.isSome_map] at same
      obtain ⟨s, found⟩ := Option.isSome_iff_exists.1 (same.trans (present p member))
      have homeP := (midway.done p s found (done p member)).1.home
      rw [PathTable.get?_congr _ here] at homeP
      have later := keys_runRound midway _ _ homeP
      rw [home] at later
      rw [homeP, Option.some.inj later]
    rw [standing_of_unkeyed midway.sound (midway_runRound midway).sound (keys_runRound midway) home
      keyed, Standing.leaveAll_none, empty]
    rfl

/-- If the first round has all there is of a name, then after the run the name stands as this round
heard it. -/
theorem standing_runRounds {base : ScopeStore} (start : Midway base x₀ ∅ first) (some_ : first ≠ [])
    (owned : ∀ g, x₀.scopes.byKey.get? dir = some g → ∀ v, x₀.scopes.standing g y = some v →
      ∃ p ∈ first, v.first.OwnedBy p) {g : Nat}
    (home : (runRounds (x₀.files.size + 1) ⟨x₀, ∅⟩ first).index.scopes.byKey.get? dir = some g) :
    (runRounds (x₀.files.size + 1) ⟨x₀, ∅⟩ first).index.scopes.standing g y =
      (first.flatMap (definitionsIn x₀ dir g y)).foldl Standing.hear none := by
  -- Either the first round is still to come, or the name stands as it should.
  have ended := (runRounds_induction (Q := fun x bound round =>
    (x = x₀ ∧ bound = ∅ ∧ round = first) ∨ ((∀ p ∈ first, bound.contains p = true) ∧
      (∀ p, x.reading? p = x₀.reading? p) ∧ ∀ g, x.scopes.byKey.get? dir = some g →
        x.scopes.standing g y = (first.flatMap (definitionsIn x₀ dir g y)).foldl Standing.hear none))
    ?_ _ start (waitingCount_lt_size x₀ ∅) (.inl ⟨rfl, rfl, rfl⟩)).2
  · rcases ended with ⟨_, _, none_⟩ | ⟨_, _, stands⟩
    · exact absurd none_.symm some_
    · exact stands g home
  · intro x bound round midway holds
    have further := further_runRound midway
    rcases holds with ⟨rfl, rfl, rfl⟩ | ⟨done, reading, stands⟩
    · refine .inr ⟨fun p member => ?_, further.reading, fun g home => ?_⟩
      · exact (PathSet.contains_addAll ∅ round p).2 (.inr ⟨p, member, rfl⟩)
      · exact standing_runRound_of_owned midway (owned g) home
    · refine .inr ⟨fun p member => further.grows p (done p member),
        fun p => (further.reading p).trans (reading p), fun g home => ?_⟩
      exact standing_runRound_of_heard silent midway start.present done reading stands home

end Rounds

end GrammarIndex.Compile
