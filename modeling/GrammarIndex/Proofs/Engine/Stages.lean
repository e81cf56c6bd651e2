import GrammarIndex.Proofs.Engine.Rebinding

/-!
Stages of a run, for a name that is announced and defined.

A file that announces a name frees it when it is bound again. A file that defines the name and has
not been bound by then waits for it, so it is heard in the next round and the announcement leads to a
real definition. But if all files that define the name have been bound by then, none is heard any
more, and the announcement stands alone although nothing was edited.

So a run reaches the real definition as long as a file that holds a name and only announces it is not
bound after all the files that define the name. A file that is not bound at all keeps the name, and
then a real definition has to be heard in the run, or to be there already.
-/
namespace GrammarIndex

/-- The name means a real definition. -/
def ScopeStore.Real (st : ScopeStore) (g : Nat) (x : String) : Prop :=
  ∃ v, st.standing g x = some v ∧ v.meant.forward = false

/-- A name held by a file that does not only announce it means a real definition of that file. -/
theorem FileState.Attached.meant_of_held {st : ScopeStore} {p : Path} {s : FileState}
    (attached : s.Attached st p) (sound : st.Sound) {text : String} (read : Engine.ReadFrom s text)
    {x : String} {v : Standing} (stands : st.standing s.scope x = some v) (own : v.first.OwnedBy p)
    (real : Grammar.defines text x = true) :
    v.meant.forward = false ∧ ∀ u, v.second = some u → u.OwnedBy p := by
  obtain ⟨id, sym, found, live, rfl⟩ := ScopeStore.bound_of_standing stands
  obtain ⟨⟨n, first, _⟩, _, second⟩ := attached.seated x id sym found live own
  rw [read.dialect, read.parsed] at first second
  cases declares : sym.forward with
  | false =>
    -- A real definition has nothing behind it.
    have alone : sym.target = none := by
      cases target : sym.target with
      | none => rfl
      | some t =>
        rw [(sound.aimed id sym t live target).1] at declares
        cases declares
    simp only [alone, Option.bind_none, Option.map_none, Standing.meant, Option.getD_none]
    exact ⟨declares, fun u follows => by cases follows⟩
  | true =>
    obtain ⟨m, found⟩ := Grammar.find?_of_defines real
    obtain ⟨j, listed, target⟩ := second declares m found
    obtain ⟨_, u, liveU, _, kind, _⟩ := sound.aimed id sym j live target
    obtain ⟨_, _, q, u', _, _, spelled, liveU', alike⟩ := attached.recorded.described m j listed
    rw [liveU] at liveU'
    cases liveU'
    have ownU : u.OwnedBy p := alike.ownedBy.1 (Symbol.ownedBy_iff.2 ⟨q, rfl, spelled⟩)
    simp only [target, Option.bind_some, liveU, Option.map_some, Standing.meant, Option.getD_some]
    refine ⟨kind, fun u' follows => ?_⟩
    cases follows
    exact ownU

namespace Compile

/-- A document that has a real definition of a name in a directory. -/
structure Definer (docs : List Document) (dir : Path) (y : String) (d : Document) : Prop where
  member : d ∈ docs
  here : d.path.directory.components = dir.components
  real : Grammar.defines d.text y = true

/-- The name means a real definition of a document that has one. -/
def Backed (docs : List Document) (st : ScopeStore) (dir : Path) (g : Nat) (y : String) : Prop :=
  ∃ v d, st.standing g y = some v ∧ v.meant.forward = false ∧ Definer docs dir y d ∧
    v.meant.OwnedBy d.path

/-- A file that only announces a name does not keep it from the documents that define the name: a
run does not bind the file after all of them, and if it binds neither the file nor any of them, then
the name `v` means a real definition already, which its document still has. -/
structure GivesWay (docs : List Document) (rounds : List (List Path)) (dir : Path) (y : String)
    (v : Standing) (a : Path) : Prop where
  before : ∀ past round rest, rounds = past ++ round :: rest → Binds round a →
    ∃ d, Definer docs dir y d ∧ ∀ r ∈ past, ¬ Binds r d.path
  bound : (∃ r ∈ rounds, Binds r a ∨ ∃ d, Definer docs dir y d ∧ Binds r d.path) ∨
    ∃ d, Definer docs dir y d ∧ v.meant.OwnedBy d.path

/-- After the first round every file is attached. -/
theorem Midway.attached {base : ScopeStore} {x : Index} {bound : PathSet} {round : List Path}
    (midway : Midway base x bound round) (later : ∃ p, bound.contains p = true) {p : Path}
    {s : FileState} (found : x.files.get? p = some s) : s.Attached x.scopes p := by
  cases done : Table.contains bound p with
  | true => exact (midway.done p s found done).1
  | false =>
    by_cases inRound : Binds round p
    · obtain ⟨q, inRound, path⟩ := inRound
      rcases midway.again with none_ | attached
      · obtain ⟨r, there⟩ := later
        rw [none_ r] at there
        cases there
      · exact (attached q inRound s ((PathTable.get?_congr _ path.symm).trans found)).congr path.symm
    · exact (midway.rest p s found done (apart_of_not_binds inRound)).attached

section Round

variable {docs : List Document} {base : ScopeStore} {x : Index} {bound : PathSet}
  {round : List Path} (midway : Midway base x bound round) (reads : ReadsAll docs x) {dir : Path}
  {g : Nat} {y : String}

include midway reads

/-- A real definition that stands for a name is one that its document has, if its file is attached. -/
theorem backed_of_real (later : ∃ p, bound.contains p = true)
    (home : x.scopes.byKey.get? dir = some g) (real : x.scopes.Real g y) :
    Backed docs x.scopes dir g y := by
  obtain ⟨v, stands, kind⟩ := real
  obtain ⟨d, member, here, own⟩ := exists_owner midway reads home stands v.meant_eq
  obtain ⟨id, s, live, name, _, bare⟩ := midway.sound.symbol_of_standing stands v.meant_eq
  obtain ⟨t, found, same⟩ := Option.map_eq_some_iff.1 (reads.reading d member)
  obtain ⟨dialect, parsed⟩ := Prod.mk.inj same
  rw [bare] at own kind
  obtain ⟨n, c, q, terminal, _, _, class_, _, alike⟩ :=
    (midway.attached later found).recorded.site live (show s.OwnedBy d.path from own)
  have text := alike.name
  have forward := alike.forward
  rw [dialect, parsed] at class_ forward
  rw [parsed] at terminal text
  refine ⟨v, d, stands, bare ▸ kind, ⟨member, here, ?_⟩, bare ▸ own⟩
  have definer : n ∈ Grammar.definersOf d.text y :=
    Grammar.mem_definersOf.2 ⟨terminal, by rw [class_]; rfl, text.trans name⟩
  refine List.any_eq_true.2 ⟨n, definer, ?_⟩
  have kind' : Grammar.isForward (Grammar.parse d.text).tree n = false := forward.trans kind
  rw [kind']
  rfl

/-- A round hears the real definitions of its documents. -/
theorem exists_real_heard {d : Document} (definer : Definer docs dir y d)
    (inRound : Binds round d.path) :
    ∃ u ∈ round.flatMap (definitionsIn x dir g y), u.forward = false := by
  obtain ⟨member, here, real⟩ := definer
  obtain ⟨q, inRound, path⟩ := inRound
  obtain ⟨n, definer, kind⟩ := List.any_eq_true.1 real
  obtain ⟨_, defined, _⟩ := Grammar.mem_definersOf.1 definer
  obtain ⟨c, class_⟩ := Option.isSome_iff_exists.1 defined
  have forward : Grammar.isForward (Grammar.parse d.text).tree n = false := by simpa using kind
  refine ⟨Binding.symbolFor Grammar.dialect (Grammar.parse d.text).tree q g n c,
    List.mem_flatMap.2 ⟨q, inRound, ?_⟩, forward⟩
  rw [definitionsIn_document reads member here (midway.present q inRound) path]
  refine List.mem_filterMap.2 ⟨n, definer, ?_⟩
  rw [Binding.symbolAt, class_, Option.map_some]

/-- Before a round, a name of a document that is neither bound nor in the round is held. -/
theorem standing_of_rest {d : Document} (definer : Definer docs dir y d)
    (fresh : bound.contains d.path = false) (apart : Apart d.path round) :
    ∃ s v, x.files.get? d.path = some s ∧ s.Settled x.scopes x.graph d.path ∧
      Engine.ReadFrom s d.text ∧ x.scopes.byKey.get? dir = some s.scope ∧
      x.scopes.standing s.scope y = some v := by
  obtain ⟨member, here, real⟩ := definer
  obtain ⟨s, found, same⟩ := Option.map_eq_some_iff.1 (reads.reading d member)
  obtain ⟨dialect, parsed⟩ := Prod.mk.inj same
  have settled := midway.rest d.path s found fresh apart
  obtain ⟨n, definer, _⟩ := List.any_eq_true.1 real
  obtain ⟨terminal, defined, text⟩ := Grammar.mem_definersOf.1 definer
  have named := settled.named n
    ⟨by rw [parsed]; exact terminal, by rw [dialect, parsed]; exact defined⟩
  rw [parsed, text] at named
  obtain ⟨id, bound_⟩ := Option.isSome_iff_exists.1 named
  obtain ⟨sym, live, _⟩ := midway.sound.bound _ _ _ bound_
  refine ⟨s, _, found, settled, ⟨dialect, parsed⟩, ?_, ScopeStore.standing_of_bound bound_ live⟩
  rw [← PathTable.get?_congr _ here]
  exact settled.attached.home

/-- If a name is freed, a document that defines it and is neither bound nor in the round comes next:
it waits for the name. -/
theorem binds_next_of_freed {d : Document} (definer : Definer docs dir y d)
    (fresh : bound.contains d.path = false) (apart : Apart d.path round)
    (home : x.scopes.byKey.get? dir = some g) {v : Standing}
    (stands : x.scopes.standing g y = some v) (inside : ¬ v.first.Outside round) :
    Binds (runRound ⟨x, bound⟩ round).2 d.path := by
  obtain ⟨s, _, found, settled, read, home', _⟩ := standing_of_rest midway reads definer fresh apart
  obtain rfl : s.scope = g := Option.some.inj (home'.symm.trans home)
  obtain ⟨id, sym, bound_, live, rfl⟩ := ScopeStore.bound_of_standing stands
  have done := midway.roundDone
  have freed := done.touched.freed _ _ id sym bound_ live inside
  refine mem_nextRound ((done.others _ apart).trans found)
    (contains_addAll_eq_false.2 ⟨fresh, apart⟩) (.inr ?_)
  obtain ⟨n, definer, _⟩ := List.any_eq_true.1 definer.real
  obtain ⟨terminal, defined, text⟩ := Grammar.mem_definersOf.1 definer
  have covered := settled.attached.recorded.covered n (by rw [read.parsed]; exact terminal)
    (by rw [read.dialect, read.parsed]; exact defined)
  rw [read.parsed, text] at covered
  rcases covered with dropped | ⟨id', sym', bound', live', own⟩
  · rw [isStale, Bool.or_eq_true, List.any_eq_true]
    exact .inl ⟨_, freed, by simp [dropped]⟩
  · -- The document does not hold the name itself, since it is not in the round.
    rw [bound_] at bound'
    cases bound'
    rw [live] at live'
    cases live'
    exact absurd (fun q inRound own' => apart q inRound (own.unique own')) inside

omit reads in
/-- What a round leaves of a name, and what it hears of it, come to a real definition if either has
one. -/
theorem real_runRound (home' : (runRound ⟨x, bound⟩ round).1.index.scopes.byKey.get? dir = some g)
    (either : (∃ w, Standing.leaveAll round (x.scopes.standing g y) = some w ∧
        w.meant.forward = false) ∨
      ∃ u ∈ round.flatMap (definitionsIn x dir g y), u.forward = false) :
    (runRound ⟨x, bound⟩ round).1.index.scopes.Real g y := by
  rw [ScopeStore.Real, standing_runRound midway home']
  refine Standing.real_foldl_hear (fun w left u follows => ?_) either
  cases stands : x.scopes.standing g y with
  | none =>
    rw [stands, Standing.leaveAll_none] at left
    cases left
  | some v =>
    rw [stands] at left
    exact midway.sound.real_second stands ((Standing.of_leaveAll left).2 u follows)

omit reads in
/-- A name that is held in a scope which a directory has after the round was held in the scope of
that directory. -/
theorem home_of_standing
    (home' : (runRound ⟨x, bound⟩ round).1.index.scopes.byKey.get? dir = some g) {v : Standing}
    (stands : x.scopes.standing g y = some v) : x.scopes.byKey.get? dir = some g := by
  refine Classical.byContradiction fun absent => ?_
  rw [standing_of_unkeyed midway.sound (midway_runRound midway).sound (keys_runRound midway) home'
    absent] at stands
  cases stands

omit reads in
/-- After a round a name is held by a file of the round, or by the symbol that held it before. -/
theorem first_runRound (home' : (runRound ⟨x, bound⟩ round).1.index.scopes.byKey.get? dir = some g)
    {w : Standing} (stands' : (runRound ⟨x, bound⟩ round).1.index.scopes.standing g y = some w) :
    (∃ q ∈ round, w.first.OwnedBy q) ∨ x.scopes.byKey.get? dir = some g ∧
      ∃ v, x.scopes.standing g y = some v ∧ w.first = v.first := by
  rw [standing_runRound midway home'] at stands'
  cases left : Standing.leaveAll round (x.scopes.standing g y) with
  | none =>
    rw [left] at stands'
    cases heard : round.flatMap (definitionsIn x dir g y) with
    | nil =>
      rw [heard] at stands'
      cases stands'
    | cons s l =>
      rw [heard, Standing.foldl_hear_none] at stands'
      cases stands'
      obtain ⟨q, inRound, said⟩ := List.mem_flatMap.1
        (show s ∈ round.flatMap (definitionsIn x dir g y) by rw [heard]; simp)
      exact .inl ⟨q, inRound, ownedBy_of_mem_definitionsIn said⟩
  | some u =>
    rw [left, Standing.foldl_hear_some] at stands'
    cases stands'
    cases stands : x.scopes.standing g y with
    | none =>
      rw [stands, Standing.leaveAll_none] at left
      cases left
    | some v =>
      rw [stands] at left
      exact .inr ⟨home_of_standing midway home' stands, v, rfl, (Standing.of_leaveAll left).1⟩

end Round

/-! ### A run -/

section Run

/-- How far a run has come with a name that documents of a directory define: `past` are the rounds
done so far, among `all` rounds of the run. -/
inductive Stage (docs : List Document) (all : List (List Path)) (dir : Path) (y : String)
    (past : List (List Path)) (x : Index) (round : List Path) : Prop
  /-- A document that defines the name comes next. -/
  | called {d : Document} (definer : Definer docs dir y d) (next : Binds round d.path)
  /-- The name means a real definition. -/
  | backed {g : Nat} (home : x.scopes.byKey.get? dir = some g)
      (backed : Backed docs x.scopes dir g y)
  /-- Neither the file that holds the name nor any document that defines it was bound, but one of
  them will be. -/
  | waiting {g : Nat} {v : Standing} {a : Path} (home : x.scopes.byKey.get? dir = some g)
      (stands : x.scopes.standing g y = some v) (own : v.first.OwnedBy a)
      (untouched : ∀ r ∈ past, ¬ Binds r a ∧ ∀ d, Definer docs dir y d → ¬ Binds r d.path)
      (touched : ∃ r ∈ all, Binds r a ∨ ∃ d, Definer docs dir y d ∧ Binds r d.path)

/-- The state of a run between rounds, as far as a name is concerned. It started from `x₀`. -/
structure Along (docs : List Document) (all : List (List Path)) (dir : Path) (y : String)
    (x₀ : Index) (first : List Path) (past : List (List Path)) (x : Index) (bound : PathSet)
    (round : List Path) : Prop where
  reads : ReadsAll docs x
  counted : ∀ p, bound.contains p = true ↔ ∃ r ∈ past, Binds r p
  begun : past = [] ∧ round = first ∨ ∀ p, Binds first p → bound.contains p = true
  holder : ∀ g, x.scopes.byKey.get? dir = some g → ∀ v, x.scopes.standing g y = some v →
    (∃ p, bound.contains p = true ∧ v.first.OwnedBy p) ∨ x₀.scopes.byKey.get? dir = some g ∧
      ∃ v₀, x₀.scopes.standing g y = some v₀ ∧ v.first = v₀.first
  stage : Stage docs all dir y past x round

variable {docs : List Document} {all : List (List Path)} {base : ScopeStore} {dir : Path}
  {y : String} {x₀ : Index} {first : List Path}
  (ahead : ∀ g v, x₀.scopes.byKey.get? dir = some g → x₀.scopes.standing g y = some v →
    ∀ a ∈ docs, v.first.OwnedBy a.path → ¬ Binds first a.path →
      Grammar.defines a.text y = false → GivesWay docs all dir y v a.path)
  {d₀ : Document} (definer₀ : Definer docs dir y d₀)

include ahead definer₀

/-- Before the first round. -/
theorem stage_start (midway : Midway base x₀ ∅ first) (reads : ReadsAll docs x₀)
    (begins : first ≠ [] → first ∈ all) : Stage docs all dir y [] x₀ first := by
  by_cases inFirst : Binds first d₀.path
  · exact .called definer₀ inFirst
  · obtain ⟨_, v, _, _, _, home, stands⟩ :=
      standing_of_rest midway reads definer₀ rfl (apart_of_not_binds inFirst)
    obtain ⟨a, member, here, own⟩ := exists_owner midway reads home stands (.inl rfl)
    have untouched : ∀ r ∈ ([] : List (List Path)),
        ¬ Binds r a.path ∧ ∀ d, Definer docs dir y d → ¬ Binds r d.path := by simp
    by_cases dirty : Binds first a.path
    · have begun : first ≠ [] := by
        rintro rfl
        obtain ⟨q, none_, _⟩ := dirty
        cases none_
      exact .waiting home stands own untouched ⟨first, begins begun, .inl dirty⟩
    cases real : Grammar.defines a.text y with
    | true =>
      obtain ⟨t, found, same⟩ := Option.map_eq_some_iff.1 (reads.reading a member)
      obtain ⟨dialect, parsed⟩ := Prod.mk.inj same
      have attached := (midway.rest a.path t found rfl (apart_of_not_binds dirty)).attached
      have scope := attached.home
      rw [PathTable.get?_congr _ here, home] at scope
      rw [Option.some.inj scope] at stands home
      obtain ⟨kind, second⟩ := attached.meant_of_held midway.sound ⟨dialect, parsed⟩ stands own real
      refine .backed home ⟨v, a, stands, kind, ⟨member, here, real⟩, ?_⟩
      rcases v.meant_eq with same | follows
      · exact same ▸ own
      · exact second _ follows
    | false =>
      have way := ahead _ v home stands a member own dirty real
      rcases way.bound with touched | ⟨d, definer, own'⟩
      · exact .waiting home stands own untouched touched
      · refine .backed home ⟨v, d, stands, ?_, definer, own'⟩
        rcases v.meant_eq with same | follows
        · -- The file that holds the name would define it.
          rw [same] at own'
          obtain rfl := reads.distinct a member d definer.member (own.unique own')
          rw [definer.real] at real
          cases real
        · exact midway.sound.real_second stands follows

section Step

variable {past rest : List (List Path)} {x : Index} {bound : PathSet} {round : List Path}
  (midway : Midway base x bound round) (split : all = past ++ round :: rest)
  (along : Along docs all dir y x₀ first past x bound round)

include midway split along

/-- A name that is freed in a round is heard in this round or in the next one. -/
theorem exists_called {g : Nat} (home : x.scopes.byKey.get? dir = some g) {v : Standing}
    (stands : x.scopes.standing g y = some v) (inside : ¬ v.first.Outside round) :
    ∃ d, Definer docs dir y d ∧
      (Binds round d.path ∨ Binds (runRound ⟨x, bound⟩ round).2 d.path) := by
  by_cases now : ∃ d, Definer docs dir y d ∧ Binds round d.path
  · obtain ⟨d, definer, inRound⟩ := now
    exact ⟨d, definer, .inl inRound⟩
  have next : ∀ {d}, Definer docs dir y d → (∀ r ∈ past, ¬ Binds r d.path) →
      ∃ d, Definer docs dir y d ∧
        (Binds round d.path ∨ Binds (runRound ⟨x, bound⟩ round).2 d.path) := by
    intro d definer new
    have fresh : bound.contains d.path = false := by
      rw [← Bool.not_eq_true, along.counted]
      rintro ⟨r, done, there⟩
      exact new r done there
    exact ⟨d, definer, .inr (binds_next_of_freed midway along.reads definer fresh
      (apart_of_not_binds fun inRound => now ⟨d, definer, inRound⟩) home stands inside)⟩
  rcases along.begun with ⟨rfl, _⟩ | begun
  · exact next definer₀ (by simp)
  · -- The file that holds the name is clean and only announces it.
    obtain ⟨a, member, here, own⟩ := exists_owner midway along.reads home stands (.inl rfl)
    have inRound : Binds round a.path := by
      simp only [Symbol.Outside, Classical.not_forall, Classical.not_not] at inside
      obtain ⟨q, inRound, own'⟩ := inside
      exact ⟨q, inRound, own.unique own'⟩
    have fresh : bound.contains a.path = false := by
      obtain ⟨q, inRound, path⟩ := inRound
      exact (PathSet.contains_congr bound path).trans (midway.unbound q inRound)
    have clean : ¬ Binds first a.path := fun dirty => by
      rw [begun _ dirty] at fresh
      cases fresh
    have only : Grammar.defines a.text y = false := by
      cases real : Grammar.defines a.text y with
      | false => rfl
      | true => exact absurd ⟨a, ⟨member, here, real⟩, inRound⟩ now
    rcases along.holder g home v stands with ⟨p, there, own'⟩ | ⟨home₀, v₀, stands₀, same⟩
    · rw [PathSet.contains_congr bound (own.unique own'), there] at fresh
      cases fresh
    · have way := ahead g v₀ home₀ stands₀ a member (same ▸ own) clean only
      obtain ⟨d, definer, new⟩ := way.before past round rest split inRound
      exact next definer new

end Step

/-- What a round makes of a name. -/
theorem stage_runRound {past rest : List (List Path)} {x : Index} {bound : PathSet} {p : Path}
    {round : List Path} (midway : Midway base x bound (p :: round))
    (split : all = past ++ (p :: round) :: rest)
    (along : Along docs all dir y x₀ first past x bound (p :: round)) :
    Stage docs all dir y (past ++ [p :: round]) (runRound ⟨x, bound⟩ (p :: round)).1.index
      (runRound ⟨x, bound⟩ (p :: round)).2 := by
  have reads := along.reads
  have midway' := midway_runRound midway
  have reads' := reads.of_reading (further_runRound midway).reading
  have later : ∃ q, (runRound ⟨x, bound⟩ (p :: round)).1.bound.contains q = true :=
    ⟨p, (PathSet.contains_addAll bound _ p).2 (.inr ⟨p, by simp, rfl⟩)⟩
  have called := fun {g} => exists_called (g := g) ahead definer₀ midway split along
  have heard : ∀ {d}, Definer docs dir y d → Binds (p :: round) d.path →
      Stage docs all dir y (past ++ [p :: round]) (runRound ⟨x, bound⟩ (p :: round)).1.index
        (runRound ⟨x, bound⟩ (p :: round)).2 := by
    intro d definer inRound
    obtain ⟨s, found, _⟩ := Option.map_eq_some_iff.1 (reads'.reading d definer.member)
    have home' := (midway'.attached later found).home
    rw [PathTable.get?_congr _ definer.here] at home'
    exact .backed home' (backed_of_real midway' reads' later home'
      (real_runRound midway home' (.inr (exists_real_heard midway reads definer inRound))))
  cases along.stage with
  | called definer next => exact heard definer next
  | @backed g home backed =>
    obtain ⟨v, d, stands, kind, definer, own⟩ := backed
    have home' := keys_runRound midway _ _ home
    by_cases inRound : Binds (p :: round) d.path
    · exact heard definer inRound
    by_cases outside : v.first.Outside (p :: round)
    · have second : ∀ u, v.second = some u → u.Outside (p :: round) := by
        intro u follows q inRound' own'
        have same : v.meant = u := by rw [Standing.meant, follows]; rfl
        rw [same] at own
        exact inRound ⟨q, inRound', own.unique own'⟩
      refine .backed home' (backed_of_real midway' reads' later home'
        (real_runRound midway home' (.inl ⟨v, ?_, kind⟩)))
      rw [stands, Standing.leaveAll_eq_self ⟨outside, second⟩]
    · obtain ⟨d', definer', now | next⟩ := called home stands outside
      · exact heard definer' now
      · exact .called definer' next
  | @waiting g v a home stands own untouched touched =>
    have home' := keys_runRound midway _ _ home
    by_cases now : ∃ d, Definer docs dir y d ∧ Binds (p :: round) d.path
    · obtain ⟨d, definer, inRound⟩ := now
      exact heard definer inRound
    by_cases outside : v.first.Outside (p :: round)
    · obtain ⟨w, left, same⟩ := Standing.leaveAll_of_outside outside
      have stands' := standing_runRound midway home' y
      rw [stands, left, Standing.foldl_hear_some] at stands'
      refine .waiting home' stands' (show w.first.OwnedBy a from same ▸ own) ?_ touched
      intro r done
      rcases List.mem_append.1 done with earlier | this
      · exact untouched r earlier
      · obtain rfl := List.mem_singleton.1 this
        refine ⟨fun inRound => ?_, fun d definer inRound => now ⟨d, definer, inRound⟩⟩
        obtain ⟨q, inRound, path⟩ := inRound
        exact outside q inRound (own.congr path)
    · obtain ⟨d', definer', inRound | next⟩ := called home stands outside
      · exact heard definer' inRound
      · exact .called definer' next

/-- A run ends with a real definition of a name that a document defines, if the clean file that holds
the name gives way where it only announces it. -/
theorem real_runRounds (midway : Midway base x₀ ∅ first) (reads : ReadsAll docs x₀)
    (rounds : all = roundsOf (x₀.files.size + 1) ⟨x₀, ∅⟩ first) {g : Nat}
    (home : (runRounds (x₀.files.size + 1) ⟨x₀, ∅⟩ first).index.scopes.byKey.get? dir = some g) :
    (runRounds (x₀.files.size + 1) ⟨x₀, ∅⟩ first).index.scopes.Real g y := by
  have begins : first ≠ [] → first ∈ all := fun begun => rounds ▸ mem_roundsOf begun
  have start : Along docs all dir y x₀ first [] x₀ ∅ first :=
    ⟨reads, counted_nil, .inl ⟨rfl, rfl⟩, fun g home v stands => .inr ⟨home, v, stands, rfl⟩,
      stage_start ahead definer₀ midway reads begins⟩
  have ended := (roundsOf_induction (Q := Along docs all dir y x₀ first) ?_ _ midway
    (waitingCount_lt_size x₀ ∅) rounds start).2
  · cases ended.stage with
    | called _ next =>
      obtain ⟨q, none_, _⟩ := next
      cases none_
    | @backed h home' backed =>
      obtain ⟨v, _, stands, kind, _⟩ := backed
      obtain rfl : h = g := Option.some.inj (home'.symm.trans home)
      exact ⟨v, stands, kind⟩
    | waiting _ _ _ untouched touched =>
      obtain ⟨r, done, there | ⟨d, definer, there⟩⟩ := touched
      · exact absurd there (untouched r done).1
      · exact absurd there ((untouched r done).2 d definer)
  · intro past x bound p round rest midway' split along
    have further := further_runRound midway'
    have added := PathSet.contains_addAll bound (p :: round)
    refine ⟨along.reads.of_reading further.reading, counted_runRound along.counted _,
      .inr fun q inFirst => ?_, ?_, stage_runRound ahead definer₀ midway' split along⟩
    · rcases along.begun with ⟨_, rfl⟩ | begun
      · exact (added q).2 (.inr inFirst)
      · exact further.grows q (begun q inFirst)
    · intro h home' w stands'
      rcases first_runRound midway' home' stands' with ⟨q, inRound, own⟩ | ⟨home₁, v, stands, same⟩
      · exact .inl ⟨q, (added q).2 (.inr ⟨q, inRound, rfl⟩), own⟩
      · rw [same]
        refine (along.holder h home₁ v stands).imp_left ?_
        rintro ⟨q, there, own⟩
        exact ⟨q, further.grows q there, own⟩

end Run

end Compile

end GrammarIndex
