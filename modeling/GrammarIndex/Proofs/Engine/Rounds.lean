import GrammarIndex.Proofs.Engine.Attach

/-!
The rounds of a run.

Between rounds the files bound so far have all their names bound, the files of the coming round are
to be bound again, and all others are up to date. A round keeps this: a file that is neither bound
nor called into the next round cannot have been hurt, and a name that a bound file lost is defined
again in the same round, by the file that held it. Each round binds a file for the first time, so
the rounds end with nothing left to bind.
-/
namespace GrammarIndex.Compile

/-! ### One round -/

/-- What the two passes of a round do together. -/
structure RoundDone (round : List Path) (x x' : Index) (freed defined : ScopedNames) : Prop where
  touched : Touched round freed defined x.scopes x'.scopes
  graph : x'.graph = x.graph
  keys : x'.files.keys = x.files.keys
  reading : ∀ p, x'.reading? p = x.reading? p
  others : ∀ p, Apart p round → x'.files.get? p = x.files.get? p
  bound : ∀ p ∈ round, ∀ s, x.files.get? p = some s → ∃ s', x'.files.get? p = some s' ∧
    s'.reading = s.reading ∧ s'.Attached x'.scopes p ∧ s'.Named x'.scopes ∧ s'.Drafted

theorem roundDone {x : Index} {round : List Path} (sound : x.scopes.Sound)
    (readable : ∀ p s, x.files.get? p = some s → s.Readable)
    (present : ∀ p ∈ round, x.files.contains p = true)
    (distinct : round.Pairwise fun p q => p.components ≠ q.components) :
    RoundDone round x (define (attach x round).1 round).1 (attach x round).2
      (define (attach x round).1 round).2 := by
  have first := attachedAll_attach sound present distinct
  generalize attach x round = mid at first
  obtain ⟨m, freed⟩ := mid
  simp only at first ⊢
  have ready : ∀ p ∈ round, ∃ s, m.files.get? p = some s ∧ Ready m p s := by
    intro p member
    obtain ⟨s, found⟩ := Option.isSome_iff_exists.1 (present p member)
    obtain ⟨scope, foundM, home⟩ := first.ready p member s found
    exact ⟨_, foundM, (readable p s found).congr rfl, rfl, home, first.gone p member⟩
  have second := definedAll_define first.sound ready distinct
  refine ⟨⟨sound, second.sound, first.frame.trans second.frame, first.freed, second.defined⟩,
    second.graph.trans first.graph, second.keys.trans first.keys,
    fun p => (second.reading p).trans (first.reading p),
    fun p apart => (second.others p apart).trans (first.others p apart), ?_⟩
  intro p member s found
  obtain ⟨scope, foundM, _⟩ := first.ready p member s found
  obtain ⟨s', found', reading, facts⟩ := second.bound p member _ foundM
  exact ⟨s', found', reading, facts⟩

theorem RoundDone.contains {round : List Path} {x x' : Index} {freed defined : ScopedNames}
    (step : RoundDone round x x' freed defined) (p : Path) :
    x'.files.contains p = x.files.contains p := by
  have same := congrArg Option.isSome (step.reading p)
  simpa [Index.reading?, Table.contains] using same

/-- The files that a round leaves out are those that were left out before and are not in it. -/
theorem contains_addAll_eq_false {bound : PathSet} {round : List Path} {p : Path} :
    (OrderedSet.addAll bound round).contains p = false ↔
      bound.contains p = false ∧ Apart p round := by
  have members := PathSet.contains_addAll bound round p
  rw [← Bool.not_eq_true, members, not_or, Bool.not_eq_true]
  exact and_congr_right fun _ => not_exists.trans (forall_congr' fun q => not_and)

/-! ### Between rounds -/

/-- The state of a run between rounds. -/
structure Midway (base : ScopeStore) (x : Index) (bound : PathSet) (round : List Path) : Prop where
  sound : x.scopes.Sound
  based : Based base x.scopes
  readable : ∀ p s, x.files.get? p = some s → s.Readable
  filed : ∀ id s q, x.scopes.symbol? id = some s → s.file? = some q → x.files.contains q = true
  present : ∀ p ∈ round, x.files.contains p = true
  unbound : ∀ p ∈ round, bound.contains p = false
  distinct : round.Pairwise fun p q => p.components ≠ q.components
  done : ∀ p s, x.files.get? p = some s → bound.contains p = true →
    s.Attached x.scopes p ∧ s.Named x.scopes ∧ s.Drafted
  rest : ∀ p s, x.files.get? p = some s → bound.contains p = false → Apart p round →
    s.Settled x.scopes x.graph p
  again : (∀ p, bound.contains p = false) ∨
    ∀ p ∈ round, ∀ s, x.files.get? p = some s → s.Attached x.scopes p

theorem Midway.roundDone {base : ScopeStore} {x : Index} {bound : PathSet} {round : List Path}
    (midway : Midway base x bound round) :
    RoundDone round x (define (attach x round).1 round).1 (attach x round).2
      (define (attach x round).1 round).2 :=
  Compile.roundDone midway.sound midway.readable midway.present midway.distinct

/-- A path is in the next round if it is a spelling of a listed one. -/
theorem mem_nextRound {x : Index} {bound : PathSet} {round : List Path}
    {freed defined : ScopedNames} {p : Path} {s : FileState} (found : x.files.get? p = some s)
    (fresh : bound.contains p = false)
    (hurt : (∃ q ∈ round, x.graph.Refers p q) ∨ isStale x freed defined s = true) :
    ∃ q ∈ nextRound ⟨x, bound⟩ round freed defined, p.components = q.components := by
  have listed : ∃ q ∈ OrderedSet.toList (OrderedSet.addAll
      (OrderedSet.ofList (x.graph.dependentsOfAll round))
      ((x.files.entries.filter fun e => !bound.contains e.1 && isStale x freed defined e.2).map
        (·.1))), p.components = q.components := by
    rw [← PathSet.contains_iff_mem_toList, PathSet.contains_addAll, PathSet.contains_ofList]
    rcases hurt with ⟨q, member, refers⟩ | stale
    · obtain ⟨r, listed, spelled⟩ := PathSet.contains_iff_mem_toList.1 refers
      exact .inl ⟨r, List.mem_flatMap.2 ⟨q, member, listed⟩, spelled⟩
    · obtain ⟨k, entry, same⟩ := Table.mem_of_get? found
      have spelled := (Path.compare_eq_iff p k).1 same
      refine .inr ⟨k, List.mem_map.2 ⟨(k, s), List.mem_filter.2 ⟨entry, ?_⟩, rfl⟩, spelled⟩
      rw [← PathSet.contains_congr bound spelled, fresh, stale]
      rfl
  obtain ⟨q, member, spelled⟩ := listed
  refine ⟨q, List.mem_filter.2 ⟨member, ?_⟩, spelled⟩
  rw [← PathSet.contains_congr bound spelled, fresh, Table.contains,
    ← PathTable.get?_congr x.files spelled, found]
  rfl

theorem nextRound_facts (x : Index) (bound : PathSet) (round : List Path)
    (freed defined : ScopedNames) :
    (∀ p ∈ nextRound ⟨x, bound⟩ round freed defined,
        bound.contains p = false ∧ x.files.contains p = true) ∧
      (nextRound ⟨x, bound⟩ round freed defined).Pairwise fun p q => p.components ≠ q.components := by
  constructor
  · intro p member
    have kept := (List.mem_filter.1 member).2
    simpa using kept
  · exact (PathSet.pairwise_toList _).filter _

/-- What a round hurts comes in the next one. -/
theorem unhurt_of_apart {x : Index} {bound : PathSet} {round : List Path}
    {freed defined : ScopedNames} {p : Path} {s : FileState} (found : x.files.get? p = some s)
    (fresh : bound.contains p = false)
    (apart : Apart p (nextRound ⟨x, bound⟩ round freed defined)) :
    (∀ q ∈ round, ¬ x.graph.Refers p q) ∧ isStale x freed defined s = false := by
  have unhurt : ¬ ((∃ q ∈ round, x.graph.Refers p q) ∨ isStale x freed defined s = true) := by
    intro hurt
    obtain ⟨q, listed, spelled⟩ := mem_nextRound found fresh hurt
    exact apart q listed spelled
  rw [not_or, Bool.not_eq_true] at unhurt
  exact ⟨fun q member refers => unhurt.1 ⟨q, member, refers⟩, unhurt.2⟩

/-- What is not stale was hurt neither by the freed names nor by the defined ones. -/
theorem kept_of_not_stale {x : Index} {freed defined : ScopedNames} {s : FileState}
    (fresh : isStale x freed defined s = false) :
    (∀ y, (s.scope, y) ∈ freed → s.record.dropped.contains y = false) ∧
      ∀ y, (s.scope, y) ∈ defined → s.record.unresolved.contains y = false ∧
        usesBuiltin x.scopes s.record y = false := by
  rw [isStale, Bool.or_eq_false_iff, List.any_eq_false, List.any_eq_false] at fresh
  constructor
  · intro y listed
    simpa using fresh.1 _ listed
  · intro y listed
    simpa using fresh.2 _ listed

section Step

variable {base : ScopeStore} {x x' : Index} {bound : PathSet} {round : List Path}
  {freed defined : ScopedNames}

/-- A bound file keeps its names: one that it loses in a round is defined anew in the same round. -/
theorem named_of_bound (midway : Midway base x bound round)
    (step : RoundDone round x x' freed defined) {p : Path} {s : FileState}
    (found : x.files.get? p = some s) (member : bound.contains p = true) : s.Named x'.scopes := by
  intro n defines
  obtain ⟨id, here⟩ := Option.isSome_iff_exists.1 ((midway.done p s found member).2.1 n defines)
  obtain ⟨sym, live, name, place⟩ := midway.sound.bound _ _ _ here
  by_cases outside : sym.Outside round
  · rw [step.touched.frame.names _ _ id sym here live outside]
    rfl
  · -- The name was bound to a symbol of a file of the round, whose text is the one bound before.
    simp only [Symbol.Outside, Classical.not_forall, Classical.not_not] at outside
    obtain ⟨q, inRound, own⟩ := outside
    rcases midway.again with none_ | attached
    · rw [none_ p] at member
      cases member
    · obtain ⟨t, foundQ⟩ := Option.isSome_iff_exists.1 (midway.present q inRound)
      have old := attached q inRound t foundQ
      obtain ⟨m, c, r, terminal, _, _, class_, _, alike⟩ := old.recorded.site live own
      obtain ⟨t', foundQ', reading, attached', named', _⟩ := step.bound q inRound t foundQ
      have again : t'.Defines m := FileState.Defines.congr (s := t) ⟨terminal, by rw [class_]; rfl⟩ reading
      have named := named' m again
      have scope : t'.scope = s.scope := by
        have home := step.touched.frame.keys _ _ old.home
        rw [attached'.home] at home
        rw [Option.some.inj home, ← place]
        exact alike.scope
      have text : t'.parsed.tree.textOf m = s.parsed.tree.textOf n := by
        have same : t'.parsed = t.parsed := congrArg Prod.snd reading
        rw [same, ← name]
        exact alike.name
      rw [scope, text] at named
      exact named

theorem midway_of_roundDone (midway : Midway base x bound round)
    (step : RoundDone round x x' freed defined) :
    Midway base x' (OrderedSet.addAll bound round)
      (nextRound ⟨x', OrderedSet.addAll bound round⟩ round freed defined) := by
  have before : ∀ {p s'}, Apart p round → x'.files.get? p = some s' → x.files.get? p = some s' :=
    fun apart found' => (step.others _ apart).symm.trans found'
  obtain ⟨nextFacts, nextDistinct⟩ := nextRound_facts x' (OrderedSet.addAll bound round) round
    freed defined
  refine ⟨step.touched.after, step.touched.based midway.based, ?_, ?_, fun p member => (nextFacts p member).2,
    fun p member => (nextFacts p member).1, nextDistinct, ?_, ?_, ?_⟩
  · intro p s' found'
    have same := step.reading p
    rw [Index.reading?, found', Index.reading?] at same
    obtain ⟨s, found, reading⟩ := Option.map_eq_some_iff.1 same.symm
    exact (midway.readable p s found).congr reading.symm
  · intro id s' q live' file
    rw [step.contains]
    by_cases outside : s'.Outside round
    · obtain ⟨s, live, alike⟩ := step.touched.frame.back id s' live' outside
      exact midway.filed id s q live (alike.file?.trans file)
    · simp only [Symbol.Outside, Classical.not_forall, Classical.not_not] at outside
      obtain ⟨r, member, own⟩ := outside
      obtain ⟨f, file', spelled⟩ := Symbol.ownedBy_iff.1 own
      rw [file] at file'
      cases file'
      rw [Table.contains, PathTable.get?_congr x.files spelled]
      exact midway.present r member
  · intro p s' found' member
    by_cases inRound : ∃ q ∈ round, p.components = q.components
    · obtain ⟨q, inRound, spelled⟩ := inRound
      obtain ⟨s, found⟩ := Option.isSome_iff_exists.1 (midway.present q inRound)
      obtain ⟨t, foundT, _, attached, named, drafted⟩ := step.bound q inRound s found
      rw [PathTable.get?_congr x'.files spelled, foundT] at found'
      cases found'
      exact ⟨attached.congr spelled.symm, named, drafted⟩
    · have wasBound := ((PathSet.contains_addAll bound round p).1 member).resolve_right inRound
      have apart : Apart p round := fun q inR same => inRound ⟨q, inR, same⟩
      have found := before apart found'
      obtain ⟨attached, _, drafted⟩ := midway.done p s' found wasBound
      exact ⟨step.touched.attached apart attached, named_of_bound midway step found wasBound, drafted⟩
  · intro p s' found' absent apartNext
    obtain ⟨fresh, apart⟩ := contains_addAll_eq_false.1 absent
    have settled := midway.rest p s' (before apart found') fresh apart
    obtain ⟨unused, fine⟩ := unhurt_of_apart found' absent apartNext
    obtain ⟨unfreed, undefined⟩ := kept_of_not_stale fine
    rw [step.graph] at unused ⊢
    exact step.touched.settled apart settled unused unfreed undefined
  · refine .inr fun p member s' found' => ?_
    obtain ⟨fresh, apart⟩ := contains_addAll_eq_false.1 (nextFacts p member).1
    exact step.touched.attached apart (midway.rest p s' (before apart found') fresh apart).attached

theorem midway_runRound (midway : Midway base x bound round) :
    Midway base (runRound ⟨x, bound⟩ round).1.index (runRound ⟨x, bound⟩ round).1.bound
      (runRound ⟨x, bound⟩ round).2 :=
  midway_of_roundDone midway midway.roundDone

end Step

/-! ### All rounds -/

/-- A round binds a file, however its path is spelled. -/
def Binds (round : List Path) (p : Path) : Prop := ∃ q ∈ round, p.components = q.components

instance (round : List Path) (p : Path) : Decidable (Binds round p) := by
  delta Binds
  infer_instance

theorem apart_of_not_binds {round : List Path} {p : Path} (out : ¬ Binds round p) : Apart p round :=
  fun q member path => out ⟨q, member, path⟩

/-- The number of files that are not bound yet. -/
def waitingCount (x : Index) (bound : PathSet) : Nat :=
  (x.files.keys.filter fun k => !bound.contains k).length

theorem waitingCount_lt {x x' : Index} {bound bound' : PathSet} (keys : x'.files.keys = x.files.keys)
    (grows : ∀ p, bound.contains p = true → bound'.contains p = true) {p : Path}
    (present : x.files.contains p = true) (fresh : bound.contains p = false)
    (added : bound'.contains p = true) : waitingCount x' bound' < waitingCount x bound := by
  have narrowed : (x.files.keys.filter fun k => !bound'.contains k) =
      (x.files.keys.filter fun k => !bound.contains k).filter fun k => !bound'.contains k := by
    rw [List.filter_filter]
    refine List.filter_congr fun k _ => ?_
    cases was : Table.contains bound k with
    | false => simp
    | true => simp [grows k was]
  obtain ⟨k, listed, spelled⟩ := PathTable.contains_iff.1 present
  rw [waitingCount, keys, narrowed, waitingCount, List.length_filter_lt_length_iff_exists]
  refine ⟨k, List.mem_filter.2 ⟨listed, ?_⟩, ?_⟩
  · rw [← PathSet.contains_congr bound spelled, fresh]
    rfl
  · rw [← PathSet.contains_congr bound' spelled, added]
    simp

/-- A run has more rounds than there are files. -/
theorem waitingCount_lt_size (x : Index) (bound : PathSet) :
    waitingCount x bound < x.files.size + 1 := by
  have most : waitingCount x bound ≤ x.files.keys.length := List.length_filter_le _ _
  have size : x.files.keys.length = x.files.size := List.length_map ..
  omega

/-- What was read stays, and files once bound stay bound. -/
structure Further (x x' : Index) (bound bound' : PathSet) : Prop where
  reading : ∀ p, x'.reading? p = x.reading? p
  grows : ∀ p, bound.contains p = true → bound'.contains p = true

theorem further_runRound {base : ScopeStore} {x : Index} {bound : PathSet} {round : List Path}
    (midway : Midway base x bound round) :
    Further x (runRound ⟨x, bound⟩ round).1.index bound (runRound ⟨x, bound⟩ round).1.bound := by
  refine ⟨midway.roundDone.reading, ?_⟩
  intro p member
  exact (PathSet.contains_addAll bound round p).2 (.inl member)

/-- A round with a file in it binds one for the first time. -/
theorem waitingCount_runRound {base : ScopeStore} {x : Index} {bound : PathSet} {p : Path}
    {round : List Path} (midway : Midway base x bound (p :: round)) :
    waitingCount (runRound ⟨x, bound⟩ (p :: round)).1.index
      (runRound ⟨x, bound⟩ (p :: round)).1.bound < waitingCount x bound := by
  have keys : (runRound ⟨x, bound⟩ (p :: round)).1.index.files.keys = x.files.keys :=
    midway.roundDone.keys
  exact waitingCount_lt keys (further_runRound midway).grows (midway.present p (by simp))
    (midway.unbound p (by simp))
    ((PathSet.contains_addAll bound (p :: round) p).2 (.inr ⟨p, by simp, rfl⟩))

/-- The rounds of a run, in order. -/
def roundsOf : (limit : Nat) → Progress → List Path → List (List Path)
  | 0, _, _ => []
  | limit + 1, p, round =>
    if round.isEmpty then []
    else
      let (p, next) := runRound p round
      round :: roundsOf limit p next

theorem mem_roundsOf {limit : Nat} {p : Progress} {first : List Path} (begun : first ≠ []) :
    first ∈ roundsOf (limit + 1) p first := by
  rw [roundsOf, if_neg (by simpa using begun)]
  exact List.mem_cons_self

/-- A run binds its rounds one after another. -/
theorem runRounds_eq_foldl (limit : Nat) (p : Progress) (round : List Path) :
    runRounds limit p round =
      (roundsOf limit p round).foldl (fun p round => (runRound p round).1) p := by
  induction limit generalizing p round with
  | zero => rfl
  | succ limit ih =>
    rw [runRounds, roundsOf]
    split
    · rfl
    · rw [List.foldl_cons]
      exact ih _ _

/-- What holds before the first round and is kept by each, whatever rounds came before it, holds
after all of them, when nothing is left to bind. Enough rounds come to that. -/
theorem roundsOf_induction {base : ScopeStore} {all : List (List Path)}
    {Q : List (List Path) → Index → PathSet → List Path → Prop}
    (step : ∀ {past x bound p round rest}, Midway base x bound (p :: round) →
      all = past ++ (p :: round) :: rest → Q past x bound (p :: round) →
        Q (past ++ [p :: round]) (runRound ⟨x, bound⟩ (p :: round)).1.index
          (runRound ⟨x, bound⟩ (p :: round)).1.bound (runRound ⟨x, bound⟩ (p :: round)).2)
    (limit : Nat) {past : List (List Path)} {x : Index} {bound : PathSet} {round : List Path}
    (midway : Midway base x bound round) (enough : waitingCount x bound < limit)
    (split : all = past ++ roundsOf limit ⟨x, bound⟩ round) (holds : Q past x bound round) :
    Midway base (runRounds limit ⟨x, bound⟩ round).index (runRounds limit ⟨x, bound⟩ round).bound [] ∧
      Q all (runRounds limit ⟨x, bound⟩ round).index (runRounds limit ⟨x, bound⟩ round).bound [] := by
  induction limit generalizing past x bound round with
  | zero => exact absurd enough (Nat.not_lt_zero _)
  | succ limit ih =>
    rw [roundsOf] at split
    rw [runRounds]
    cases round with
    | nil =>
      obtain rfl : all = past := split.trans (List.append_nil past)
      exact ⟨midway, holds⟩
    | cons p round =>
      have next := midway_runRound midway
      have fewer := waitingCount_runRound midway
      simp only [List.isEmpty_cons, Bool.false_eq_true, if_false] at split ⊢
      have kept := step midway split holds
      rw [List.append_cons] at split
      generalize runRound ⟨x, bound⟩ (p :: round) = out at *
      obtain ⟨⟨x', bound'⟩, round'⟩ := out
      exact ih next (by simp only at fewer; omega) split kept

/-- What holds before the first round and is kept by each holds when nothing is left to bind. -/
theorem runRounds_induction {base : ScopeStore} {Q : Index → PathSet → List Path → Prop}
    (step : ∀ {x bound round}, Midway base x bound round → Q x bound round →
      Q (runRound ⟨x, bound⟩ round).1.index (runRound ⟨x, bound⟩ round).1.bound
        (runRound ⟨x, bound⟩ round).2)
    (limit : Nat) {x : Index} {bound : PathSet} {round : List Path}
    (midway : Midway base x bound round) (enough : waitingCount x bound < limit)
    (holds : Q x bound round) :
    Midway base (runRounds limit ⟨x, bound⟩ round).index (runRounds limit ⟨x, bound⟩ round).bound [] ∧
      Q (runRounds limit ⟨x, bound⟩ round).index (runRounds limit ⟨x, bound⟩ round).bound [] :=
  roundsOf_induction (Q := fun _ => Q) (fun midway _ => step midway) limit midway enough
    (List.nil_append _).symm holds

/-- Enough rounds end with nothing left to bind. -/
theorem midway_runRounds {base : ScopeStore} (limit : Nat) {x : Index} {bound : PathSet}
    {round : List Path} (midway : Midway base x bound round)
    (enough : waitingCount x bound < limit) :
    Midway base (runRounds limit ⟨x, bound⟩ round).index (runRounds limit ⟨x, bound⟩ round).bound [] ∧
      Further x (runRounds limit ⟨x, bound⟩ round).index bound
        (runRounds limit ⟨x, bound⟩ round).bound ∧
      ∀ p ∈ round, (runRounds limit ⟨x, bound⟩ round).bound.contains p = true := by
  obtain ⟨ended, further, added⟩ := runRounds_induction (Q := fun x' bound' round' =>
      Further x x' bound bound' ∧ ∀ p ∈ round, bound'.contains p = true ∨ p ∈ round')
    (fun {x' bound' round'} midway' holds => by
      have further := further_runRound midway'
      refine ⟨⟨fun q => (further.reading q).trans (holds.1.reading q),
        fun q member => further.grows q (holds.1.grows q member)⟩, fun p member => .inl ?_⟩
      rcases holds.2 p member with was | listed
      · exact further.grows p was
      · exact (PathSet.contains_addAll bound' round' p).2 (.inr ⟨p, listed, rfl⟩))
    limit midway enough ⟨⟨fun _ => rfl, fun _ h => h⟩, fun p member => .inr member⟩
  exact ⟨ended, further, fun p member => (added p member).resolve_right (by simp)⟩

theorem counted_nil (p : Path) :
    Table.contains (∅ : PathSet) p = true ↔ ∃ r ∈ ([] : List (List Path)), Binds r p := by
  constructor
  · intro there
    cases there
  · rintro ⟨r, none_, _⟩
    cases none_

/-- The files that have been bound are those of the rounds done so far. -/
theorem counted_runRound {past : List (List Path)} {x : Index} {bound : PathSet}
    (counted : ∀ p, bound.contains p = true ↔ ∃ r ∈ past, Binds r p) (round : List Path) (p : Path) :
    (runRound ⟨x, bound⟩ round).1.bound.contains p = true ↔
      ∃ r ∈ past ++ [round], Binds r p := by
  refine (PathSet.contains_addAll bound round p).trans ?_
  rw [counted]
  simp only [List.mem_append, List.mem_singleton, or_and_right, exists_or, exists_eq_left]
  rfl

/-- A run has bound the files of its rounds. -/
theorem counted_runRounds {base : ScopeStore} {x : Index} {first : List Path}
    (midway : Midway base x ∅ first) (p : Path) :
    (runRounds (x.files.size + 1) ⟨x, ∅⟩ first).bound.contains p = true ↔
      ∃ r ∈ roundsOf (x.files.size + 1) ⟨x, ∅⟩ first, Binds r p := by
  exact (roundsOf_induction (Q := fun past _ bound _ => ∀ p, bound.contains p = true ↔
    ∃ r ∈ past, Binds r p) (fun _ _ counted => counted_runRound counted _) _ midway
    (waitingCount_lt_size x ∅) (List.nil_append _).symm counted_nil).2 p

/-! ### References -/

/-- A record that differs in what is said about references only. -/
theorem recorded_of_same {d : Dialect} {tree : SyntaxTree} {p : Path} {scope : Nat}
    {seen : List Nat} {st : ScopeStore} {r r' : BindingRecord}
    (recorded : Binding.Recorded d tree p scope seen st r) (defs : r'.defs = r.defs)
    (symbols : r'.symbols = r.symbols) (dropped : r'.dropped = r.dropped) :
    Binding.Recorded d tree p scope seen st r' := by
  refine ⟨?_, ?_, ?_, ?_⟩
  · rw [symbols, defs]
    exact recorded.described
  · rw [symbols]
    exact recorded.owned
  · rw [symbols, defs]
    exact recorded.defs
  · rw [dropped]
    exact recorded.covered

/-- The file with its references resolved. -/
def resolvedState (x : Index) (p : Path) (s : FileState) : FileState :=
  { s with
    record := Binding.collectErrors s.parsed (Binding.bindReferences x.scopes s.dialect s.parsed p
      s.scope s.record x.graph).1 }

/-- The graph with the references of a file. -/
def resolvedGraph (x : Index) (p : Path) (s : FileState) : DependencyGraph :=
  (Binding.bindReferences x.scopes s.dialect s.parsed p s.scope s.record x.graph).2

theorem settled_resolvedState {x : Index} (sound : x.scopes.Sound) {p : Path} {s : FileState}
    (attached : s.Attached x.scopes p) (named : s.Named x.scopes) (drafted : s.Drafted) :
    (resolvedState x p s).Settled x.scopes (resolvedGraph x p s) p := by
  obtain ⟨traced, linked⟩ := Binding.traced_bindReferences x.scopes s.dialect s.parsed p s.scope
    s.record x.graph
  unfold resolvedState resolvedGraph
  generalize Binding.bindReferences x.scopes s.dialect s.parsed p s.scope s.record x.graph = out
    at traced linked
  obtain ⟨r, g⟩ := out
  simp only [Binding.collectErrors] at traced linked ⊢
  have target : ∀ n, n ∈ s.parsed.tree.terminals →
      (Binding.referenceAt s.dialect s.parsed.tree s.record.defs n).isSome = true →
      r.resolved.get? n = x.scopes.resolveTarget? s.scope (s.parsed.tree.textOf n) := by
    intro n terminal refers
    rw [traced.resolved, if_pos ⟨terminal, refers⟩]
  refine ⟨⟨attached.home, recorded_of_same attached.recorded traced.defs traced.symbols
    traced.dropped, attached.seated.congr rfl traced.symbols⟩, named, ⟨?_, ?_, traced.comments.trans drafted.comments, rfl, ?_, ?_⟩, ?_⟩
  · intro n
    simp only [FileState.reference?, traced.defs]
    exact traced.refs n
  · intro n
    simp only [FileState.reference?, traced.defs, traced.tags, drafted.tags]
    split <;> rfl
  · intro n id found
    rw [traced.resolved] at found
    split at found
    · next refers =>
      simp only [FileState.Refers, FileState.reference?, traced.defs]
      exact refers
    · cases found
  · intro y
    simp only [FileState.Refers, FileState.reference?, traced.defs, traced.unresolved]
    constructor
    · rintro ⟨n, terminal, refers, text, absent⟩
      refine ⟨n, ⟨terminal, refers⟩, text, ?_⟩
      rw [target n terminal refers, text, ScopeStore.resolveTarget?, absent]
      rfl
    · rintro ⟨n, ⟨terminal, refers⟩, text, absent⟩
      refine ⟨n, terminal, refers, text, ?_⟩
      rw [target n terminal refers, text, ScopeStore.resolveTarget?, Option.map_eq_none_iff] at absent
      exact absent
  · rintro n ⟨terminal, refers⟩
    simp only [FileState.reference?, traced.defs] at terminal refers
    simp only [target n terminal refers, ScopeStore.resolveTarget?]
    cases found : x.scopes.resolve? s.scope (s.parsed.tree.textOf n) with
    | none => exact .inl ⟨rfl, rfl⟩
    | some id =>
      refine .inr ⟨id, x.scopes.follow id, rfl, rfl, ?_, linked.own n terminal refers id found⟩
      rw [ScopeStore.follow_eq sound.toCore]
      cases aimed : (x.scopes.symbol? id).bind Symbol.target with
      | none => exact .inl rfl
      | some t => exact .inr rfl

theorem resolveAll_cons (x : Index) (p : Path) (todo : List Path) :
    resolveAll x (p :: todo) = resolveAll (match x.files.get? p with
      | none => x
      | some s => { x with
          graph := resolvedGraph x p s, files := x.files.insert p (resolvedState x p s) }) todo := by
  unfold resolveAll
  rw [List.foldl_cons]
  cases x.files.get? p <;> rfl

/-- Resolving the references of the files that wait for it settles all files. -/
theorem settled_resolveAll (todo : List Path) {x : Index} (sound : x.scopes.Sound)
    (distinct : todo.Pairwise fun p q => p.components ≠ q.components)
    (waiting : ∀ p ∈ todo, ∀ s, x.files.get? p = some s →
      s.Attached x.scopes p ∧ s.Named x.scopes ∧ s.Drafted)
    (rest : ∀ p s, x.files.get? p = some s → Apart p todo → s.Settled x.scopes x.graph p) :
    (resolveAll x todo).scopes = x.scopes ∧ (∀ p, (resolveAll x todo).reading? p = x.reading? p) ∧
      ∀ p s, (resolveAll x todo).files.get? p = some s →
        s.Settled x.scopes (resolveAll x todo).graph p := by
  induction todo generalizing x with
  | nil => exact ⟨rfl, fun _ => rfl, fun p s found => rest p s found (fun q member => by cases member)⟩
  | cons p todo ih =>
    obtain ⟨apart, distinctRest⟩ := List.pairwise_cons.1 distinct
    rw [resolveAll_cons]
    cases found : x.files.get? p with
    | none =>
      refine ih sound distinctRest (fun q member => waiting q (by simp [member])) ?_
      intro q s foundQ apartQ
      refine rest q s foundQ fun r member => ?_
      rcases List.mem_cons.1 member with rfl | member
      · intro same
        rw [PathTable.get?_congr x.files same, found] at foundQ
        cases foundQ
      · exact apartQ r member
    | some s =>
      obtain ⟨attached, named, drafted⟩ := waiting p (by simp) s found
      have here := settled_resolvedState sound attached named drafted
      have linked := (Binding.traced_bindReferences x.scopes s.dialect s.parsed p s.scope s.record
        x.graph).2
      have later := ih (x := { x with
          graph := resolvedGraph x p s, files := x.files.insert p (resolvedState x p s) })
        sound distinctRest ?_ ?_
      · refine ⟨later.1, fun q => (later.2.1 q).trans ?_, later.2.2⟩
        exact Index.reading?_insert x (resolvedState x p s) found rfl x.scopes _ q
      · intro q member t foundQ
        simp only [PathTable.get?_insert, if_neg (apart q member).symm] at foundQ
        exact waiting q (by simp [member]) t foundQ
      · intro q t foundQ apartQ
        simp only [PathTable.get?_insert] at foundQ
        split at foundQ
        · next same =>
          cases foundQ
          exact here.congr same.symm
        · next other =>
          refine FileState.Settled.of_graph (rest q t foundQ fun r member => ?_)
            fun on refers => (linked.others q on other).2 refers
          rcases List.mem_cons.1 member with rfl | member
          · exact other
          · exact apartQ r member

/-! ### The run -/

/-- An index all of whose files are up to date. -/
structure UpToDate (base : ScopeStore) (x : Index) : Prop where
  sound : x.scopes.Sound
  based : Based base x.scopes
  filed : ∀ id s q, x.scopes.symbol? id = some s → s.file? = some q → x.files.contains q = true
  settled : ∀ p s, x.files.get? p = some s → s.Settled x.scopes x.graph p

/-- Binding the files of a first round and all they invalidate brings the index up to date. -/
theorem upToDate_bindAll {base : ScopeStore} {x : Index} {dirty : List Path}
    (midway : Midway base x ∅ dirty) :
    UpToDate base (bindAll x dirty).index ∧
      (∀ p, (bindAll x dirty).index.reading? p = x.reading? p) ∧
      ∀ p ∈ dirty, (bindAll x dirty).bound.contains p = true := by
  obtain ⟨ended, further, added⟩ := midway_runRounds _ midway (waitingCount_lt_size x ∅)
  unfold bindAll
  generalize runRounds (x.files.size + 1) ⟨x, ∅⟩ dirty = p at ended further added
  obtain ⟨scopes, reading, settled⟩ := settled_resolveAll p.bound.toList ended.sound
    (PathSet.pairwise_toList p.bound)
    (fun q member s found => ended.done q s found
      (PathSet.contains_iff_mem_toList.2 ⟨q, member, rfl⟩))
    (fun q s found apart => ended.rest q s found (by
      cases member : Table.contains p.bound q with
      | false => rfl
      | true =>
        obtain ⟨r, listed, spelled⟩ := PathSet.contains_iff_mem_toList.1 member
        exact absurd spelled (apart r listed)) (fun r member => by cases member))
  refine ⟨⟨scopes ▸ ended.sound, scopes ▸ ended.based, ?_, scopes ▸ settled⟩,
    fun q => (reading q).trans (further.reading q), added⟩
  intro id s q live file
  have was := ended.filed id s q (scopes ▸ live) file
  have same := congrArg Option.isSome (reading q)
  simp only [Index.reading?, Option.isSome_map] at same
  rw [Table.contains, same]
  exact was

end GrammarIndex.Compile
