import GrammarIndex.Proofs.Scope.Frame

/-!
What a name stands for in a scope.

The standing of a name is the symbol bound to it and, where that one only announces the name, the
definition it came to stand for. It can be told without slots: a definition is heard by the standing
of its own name, where the first one stays first and the first real one follows an announcement, and
a file that goes takes its symbols out of every standing. Hearing definitions in order comes to the
first real one, or to the first one if all of them are announcements.
-/
namespace GrammarIndex

/-- The symbol, standing for itself. -/
def Symbol.bare (s : Symbol) : Symbol := { s with target := none }

theorem Symbol.bare_of_self {s : Symbol} (self : s.target = none) : s.bare = s := by
  obtain ⟨name, classification, scope, site, target, forward⟩ := s
  cases self
  rfl

theorem Symbol.Alike.bare {s s' : Symbol} (alike : s.Alike s') : s.bare = s'.bare := by
  obtain ⟨name, classification, scope, site, forward⟩ := alike
  cases s
  cases s'
  simp_all [Symbol.bare]

/-- A symbol that has a name, and the definition that followed if the symbol announced one. -/
structure Standing where
  first : Symbol
  second : Option Symbol := none
  deriving DecidableEq

namespace Standing

/-- The definition that a name stands for in the end. -/
def meant (v : Standing) : Symbol := v.second.getD v.first

theorem meant_eq (v : Standing) : v.meant = v.first ∨ v.second = some v.meant := by
  rw [meant]
  cases v.second <;> simp

/-- One more definition of the name: it comes first if there was none, and it follows an
announcement that nothing followed yet. -/
def hear (v : Option Standing) (s : Symbol) : Option Standing :=
  match v with
  | none => some { first := s }
  | some v =>
    some ⟨v.first, v.second.or (if v.first.forward && !s.forward then some s else none)⟩

/-- What is left without the symbols of a file. -/
def leave (p : Path) (v : Standing) : Option Standing :=
  if v.first.OwnedBy p then none
  else some ⟨v.first, v.second.filter fun s => !decide (s.OwnedBy p)⟩

/-! ### Several definitions -/

theorem foldl_hear_some (l : List Symbol) (v : Standing) :
    l.foldl hear (some v) =
      some ⟨v.first, v.second.or (if v.first.forward then l.find? (!·.forward) else none)⟩ := by
  induction l generalizing v with
  | nil => simp
  | cons s l ih =>
    rw [List.foldl_cons, hear, ih]
    cases v.second with
    | some u => simp
    | none => cases declares : v.first.forward <;> cases real : s.forward <;> simp [real]

/-- The first definition stays first, and the first real one follows an announcement. -/
theorem foldl_hear_none (s : Symbol) (l : List Symbol) :
    (s :: l).foldl hear none =
      some ⟨s, if s.forward then l.find? (!·.forward) else none⟩ := by
  rw [List.foldl_cons, hear, foldl_hear_some]
  rfl

/-- Of several definitions the first real one is meant, or the first of all. -/
theorem meant_foldl_hear (l : List Symbol) :
    (l.foldl hear none).map meant = (l.find? (!·.forward)).or l.head? := by
  cases l with
  | nil => rfl
  | cons s l =>
    rw [foldl_hear_none, Option.map_some, meant, List.find?_cons]
    cases declares : s.forward with
    | false => simp
    | true => cases l.find? (!·.forward) <;> simp

/-- What becomes of a standing when its symbols change. -/
def map (f : Symbol → Symbol) (v : Standing) : Standing := ⟨f v.first, v.second.map f⟩

theorem meant_map (f : Symbol → Symbol) (v : Standing) : (v.map f).meant = f v.meant := by
  unfold meant map
  cases v.second <;> rfl

/-- Changes that leave open what only announces a name can be made before or after. -/
theorem foldl_hear_map {f : Symbol → Symbol} (kept : ∀ s, (f s).forward = s.forward)
    (l : List Symbol) : (l.map f).foldl hear none = (l.foldl hear none).map (map f) := by
  cases l with
  | nil => rfl
  | cons s l =>
    have later : (fun s => !(f s).forward) = fun s => !s.forward := funext fun s => by rw [kept]
    rw [List.map_cons, foldl_hear_none, foldl_hear_none, Option.map_some, map, kept, List.find?_map,
      Function.comp_def, later]
    split <;> rfl

/-- Definitions that come too late may be left out. -/
theorem foldl_hear_filter {keep : Symbol → Bool} {l : List Symbol} {v : Standing}
    (heard : l.foldl hear none = some v) (first : keep v.first = true)
    (second : ∀ u, v.second = some u → keep u = true) :
    (l.filter keep).foldl hear none = some v := by
  cases l with
  | nil => cases heard
  | cons s l =>
    rw [foldl_hear_none, Option.some.injEq] at heard
    subst heard
    rw [List.filter_cons, if_pos first, foldl_hear_none, List.find?_filter]
    cases declares : s.forward with
    | false => rfl
    | true =>
      simp only [if_true, declares] at second ⊢
      congr 2
      cases found : l.find? (!·.forward) with
      | some u =>
        have kept := second u found
        refine List.find?_eq_some_iff_append.2 ?_
        obtain ⟨real, before, behind, rfl, early⟩ := List.find?_eq_some_iff_append.1 found
        exact ⟨by simp [kept, real], before, behind, rfl, fun a member => by simp [early a member]⟩
      | none =>
        refine List.find?_eq_none.2 fun a member => ?_
        have := List.find?_eq_none.1 found a member
        simp_all

/-- A name means a real definition if it did before or if one is heard. -/
theorem real_foldl_hear {v : Option Standing} {l : List Symbol}
    (follows : ∀ w, v = some w → ∀ u, w.second = some u → u.forward = false)
    (either : (∃ w, v = some w ∧ w.meant.forward = false) ∨ ∃ u ∈ l, u.forward = false) :
    ∃ w, l.foldl hear v = some w ∧ w.meant.forward = false := by
  have first : (∃ u ∈ l, u.forward = false) →
      ∃ u, l.find? (!·.forward) = some u ∧ u.forward = false := by
    rintro ⟨u, member, real⟩
    cases found : l.find? (!·.forward) with
    | some u => exact ⟨u, rfl, by simpa using List.find?_some found⟩
    | none => exact absurd real (by simpa using List.find?_eq_none.1 found u member)
  cases v with
  | none =>
    obtain ⟨u, found, real⟩ := first (either.resolve_left (by simp))
    have meant := meant_foldl_hear l
    rw [found, Option.some_or] at meant
    obtain ⟨w, heard, same⟩ := Option.map_eq_some_iff.1 meant
    exact ⟨w, heard, by rw [same]; exact real⟩
  | some v =>
    rw [foldl_hear_some]
    refine ⟨_, rfl, ?_⟩
    cases second : v.second with
    | some u => simpa [meant] using follows v rfl u second
    | none =>
      cases declares : v.first.forward with
      | false => simpa [meant] using declares
      | true =>
        rcases either with ⟨w, same, real⟩ | heard
        · cases same
          simp [meant, second, declares] at real
        · obtain ⟨u, found, real⟩ := first heard
          simpa [meant, found] using real

/-! ### Several files -/

/-- What is left without the symbols of files. -/
def leaveAll (files : List Path) (v : Option Standing) : Option Standing :=
  files.foldl (fun v p => v.bind (leave p)) v

@[simp] theorem leaveAll_nil (v : Option Standing) : leaveAll [] v = v := rfl

@[simp] theorem leaveAll_cons (p : Path) (files : List Path) (v : Option Standing) :
    leaveAll (p :: files) v = leaveAll files (v.bind (leave p)) := rfl

@[simp] theorem leaveAll_none (files : List Path) : leaveAll files none = none := by
  induction files with
  | nil => rfl
  | cons p files ih => exact ih

/-- Without the file of the first symbol nothing is left. -/
theorem leaveAll_of_owned {files : List Path} {p : Path} (member : p ∈ files) {v : Standing}
    (own : v.first.OwnedBy p) : leaveAll files (some v) = none := by
  induction files generalizing v with
  | nil => cases member
  | cons q files ih =>
    rw [leaveAll_cons, Option.bind_some, leave]
    split
    · exact leaveAll_none files
    · next other =>
      have later : p ∈ files := (List.mem_cons.1 member).resolve_left fun same => other (same ▸ own)
      exact ih later own

/-- What is left was there. -/
theorem of_leaveAll {files : List Path} {v w : Standing} (left : leaveAll files (some v) = some w) :
    w.first = v.first ∧ ∀ u, w.second = some u → v.second = some u := by
  induction files generalizing v with
  | nil =>
    cases left
    exact ⟨rfl, fun _ follows => follows⟩
  | cons p files ih =>
    rw [leaveAll_cons, Option.bind_some, leave] at left
    split at left
    · rw [leaveAll_none] at left
      cases left
    · obtain ⟨first, second⟩ := ih left
      refine ⟨first, fun u follows => ?_⟩
      exact (Option.filter_eq_some_iff.1 (second u follows)).1

/-- None of the symbols belongs to these files. -/
def Outside (v : Standing) (files : List Path) : Prop :=
  v.first.Outside files ∧ ∀ u, v.second = some u → u.Outside files

/-- Without other files everything is left. -/
theorem leaveAll_eq_self {files : List Path} {v : Standing} (outside : v.Outside files) :
    leaveAll files (some v) = some v := by
  obtain ⟨first, second⟩ := outside
  induction files with
  | nil => rfl
  | cons p files ih =>
    have stays : (v.second.filter fun s => !decide (s.OwnedBy p)) = v.second := by
      cases follows : v.second with
      | none => rfl
      | some u => simp [second u follows p (by simp)]
    rw [leaveAll_cons, Option.bind_some, leave, if_neg (first p (by simp)), stays]
    exact ih (first.mono (by simp)) fun u follows => (second u follows).mono (by simp)

/-- A name that its first symbol does not leave is still held by this symbol. -/
theorem leaveAll_of_outside {files : List Path} {v : Standing} (outside : v.first.Outside files) :
    ∃ w, leaveAll files (some v) = some w ∧ w.first = v.first := by
  induction files generalizing v with
  | nil => exact ⟨v, rfl, rfl⟩
  | cons p files ih =>
    rw [leaveAll_cons, Option.bind_some, leave, if_neg (outside p (by simp))]
    exact ih (outside.mono (by simp))

/-- What was heard from other files is left. -/
theorem leaveAll_foldl_hear {files : List Path} {l : List Symbol}
    (others : ∀ s ∈ l, s.Outside files) : leaveAll files (l.foldl hear none) = l.foldl hear none := by
  cases l with
  | nil => exact leaveAll_none files
  | cons s l =>
    rw [foldl_hear_none]
    refine leaveAll_eq_self ⟨others s (by simp), fun u follows => ?_⟩
    simp only at follows
    split at follows
    · exact others u (by simp [List.mem_of_find?_eq_some follows])
    · cases follows

end Standing

namespace ScopeStore

/-- The symbol bound to a name, and the symbol that this one stands for. -/
def standing (st : ScopeStore) (g : Nat) (x : String) : Option Standing :=
  (st.lookup? g x).bind fun id => (st.symbol? id).map fun s =>
    ⟨s.bare, (s.target.bind st.symbol?).map Symbol.bare⟩

theorem standing_of_bound {st : ScopeStore} {g : Nat} {x : String} {id : Nat} {s : Symbol}
    (found : st.lookup? g x = some id) (live : st.symbol? id = some s) :
    st.standing g x = some ⟨s.bare, (s.target.bind st.symbol?).map Symbol.bare⟩ := by
  rw [standing, found, Option.bind_some, live, Option.map_some]

theorem standing_eq_none_iff {st : ScopeStore} (core : st.Core) (g : Nat) (x : String) :
    st.standing g x = none ↔ st.lookup? g x = none := by
  cases found : st.lookup? g x with
  | none => simp [standing, found]
  | some id =>
    obtain ⟨s, live, _⟩ := core.bound g x id found
    simp [standing_of_bound found live]

theorem bound_of_standing {st : ScopeStore} {g : Nat} {x : String} {v : Standing}
    (stands : st.standing g x = some v) : ∃ id s, st.lookup? g x = some id ∧
      st.symbol? id = some s ∧ v = ⟨s.bare, (s.target.bind st.symbol?).map Symbol.bare⟩ := by
  obtain ⟨id, found, stands⟩ := Option.bind_eq_some_iff.1 stands
  obtain ⟨s, live, same⟩ := Option.map_eq_some_iff.1 stands
  exact ⟨id, s, found, live, same.symm⟩

/-- What stands for a name are live symbols with that name, in that scope. -/
theorem Core.symbol_of_standing {st : ScopeStore} (core : st.Core) {g : Nat} {x : String}
    {v : Standing} (stands : st.standing g x = some v) {u : Symbol}
    (which : u = v.first ∨ v.second = some u) :
    ∃ id s, st.symbol? id = some s ∧ s.name = x ∧ s.scope = g ∧ u = s.bare := by
  obtain ⟨id, s, found, live, rfl⟩ := bound_of_standing stands
  obtain ⟨s', live', name, place⟩ := core.bound g x id found
  rw [live] at live'
  cases live'
  rcases which with rfl | follows
  · exact ⟨id, s, live, name, place, rfl⟩
  · obtain ⟨t, aimed, rfl⟩ := Option.map_eq_some_iff.1 follows
    obtain ⟨j, target, liveT⟩ := Option.bind_eq_some_iff.1 aimed
    obtain ⟨_, t', liveT', _, _, nameT, placeT⟩ := core.aimed id s j live target
    rw [liveT] at liveT'
    cases liveT'
    exact ⟨j, t, liveT, nameT.trans name, placeT.trans place, rfl⟩

/-- What a name means has that name in that scope. -/
theorem Core.named_of_standing {st : ScopeStore} (core : st.Core) {g : Nat} {x : String}
    {v : Standing} (stands : st.standing g x = some v) : v.meant.name = x ∧ v.meant.scope = g := by
  obtain ⟨_, s, _, name, place, bare⟩ := core.symbol_of_standing stands v.meant_eq
  rw [bare]
  exact ⟨name, place⟩

/-- A definition that follows is a real one. -/
theorem Core.real_second {st : ScopeStore} (core : st.Core) {g : Nat} {x : String} {v : Standing}
    (stands : st.standing g x = some v) {u : Symbol} (follows : v.second = some u) :
    u.forward = false := by
  obtain ⟨id, s, _, live, rfl⟩ := bound_of_standing stands
  obtain ⟨t, aimed, rfl⟩ := Option.map_eq_some_iff.1 follows
  obtain ⟨j, target, liveT⟩ := Option.bind_eq_some_iff.1 aimed
  obtain ⟨_, t', liveT', _, real, _⟩ := core.aimed id s j live target
  rw [liveT] at liveT'
  cases liveT'
  exact real

/-- What a bound name stands for in the end is what its standing means. -/
theorem symbol?_follow_bound {st : ScopeStore} (core : st.Core) {g : Nat} {x : String} {id : Nat}
    (found : st.lookup? g x = some id) :
    st.symbol? (st.follow id) = (st.standing g x).map Standing.meant := by
  obtain ⟨s, live, _⟩ := core.bound g x id found
  rw [standing_of_bound found live, Option.map_some]
  cases target : s.target with
  | none =>
    rw [follow_of_self core live target, live, Symbol.bare_of_self target]
    rfl
  | some t =>
    obtain ⟨_, u, liveU, self, _⟩ := core.aimed id s t live target
    rw [follow_of_target core live target, liveU]
    simp [Standing.meant, liveU, Symbol.bare_of_self self]

/-- Names that keep their symbol, and the symbol that it stands for, keep their standing. -/
theorem standing_congr {st st' : ScopeStore} (core : st.Core) {g : Nat} {x : String}
    (names : st'.lookup? g x = st.lookup? g x)
    (symbols : ∀ id s, st.lookup? g x = some id → st.symbol? id = some s →
      st'.symbol? id = some s ∧ ∀ t, s.target = some t → st'.symbol? t = st.symbol? t) :
    st'.standing g x = st.standing g x := by
  cases found : st.lookup? g x with
  | none => rw [standing, standing, names, found, Option.bind_none, Option.bind_none]
  | some id =>
    obtain ⟨s, live, _⟩ := core.bound g x id found
    obtain ⟨live', targets⟩ := symbols id s found live
    rw [standing_of_bound found live, standing_of_bound (names.trans found) live']
    cases target : s.target with
    | none => rfl
    | some t => simp [targets t target]

/-! ### New definitions -/

section Adding

variable {st : ScopeStore} (sound : st.Sound) {s : Symbol} (self : s.target = none)

include sound self

/-- Binding a new symbol to a free name. -/
theorem standing_bind (unbound : st.lookup? s.scope s.name = none)
    (inside : s.scope < st.scopes.size) (g : Nat) (x : String) :
    ((st.allocate s).1.modifyNames s.scope (·.insert s.name (st.allocate s).2)).standing g x =
      if g = s.scope ∧ x = s.name then Standing.hear (st.standing g x) s
      else st.standing g x := by
  have names := lookup?_bind (st.allocate s).1 (inside : s.scope < (st.allocate s).1.scopes.size) g
    s.name x (st.allocate s).2
  split
  · next here =>
    rw [if_pos here] at names
    have live := symbol?_allocate_self sound.slots s
    have free : st.standing g x = none := by
      rw [standing_eq_none_iff sound.toCore, here.1, here.2, unbound]
    rw [standing_of_bound names (by rw [symbol?_modifyNames, live]), free, self,
      Symbol.bare_of_self self]
    rfl
  · next other =>
    rw [if_neg other, lookup?_allocate] at names
    refine standing_congr sound.toCore names fun id t found live => ?_
    refine ⟨by rw [symbol?_modifyNames, symbol?_allocate_of_live sound.slots s live],
      fun u aimed => ?_⟩
    obtain ⟨_, w, liveW, _⟩ := sound.aimed id t u live aimed
    rw [symbol?_modifyNames, symbol?_allocate_of_live sound.slots s liveW, liveW]

/-- A new symbol that follows the announcement of its name. -/
theorem standing_forward (real : s.forward = false) {source : Nat} {t : Symbol}
    (found : st.lookup? s.scope s.name = some source) (live : st.symbol? source = some t)
    (open_ : t.target = none) (declares : t.forward = true) (g : Nat) (x : String) :
    ((st.allocate s).1.forward source (st.allocate s).2).standing g x =
      if g = s.scope ∧ x = s.name then Standing.hear (st.standing g x) s
      else st.standing g x := by
  have view := @symbol?_forward _ source (st.allocate s).2 _
    (symbol?_allocate_of_live sound.slots s live)
  have apart := (ne_allocated sound.slots s live).symm
  split
  · next here =>
    obtain ⟨rfl, rfl⟩ := here
    have names : ((st.allocate s).1.forward source (st.allocate s).2).lookup? s.scope s.name =
        some source := by rw [lookup?_forward, lookup?_allocate, found]
    have there : ((st.allocate s).1.forward source (st.allocate s).2).symbol? (st.allocate s).2 =
        some s := by rw [view, if_neg apart, symbol?_allocate_self sound.slots]
    have first : ({ t with target := some (st.allocate s).2 } : Symbol).bare = t.bare := rfl
    have declared : t.bare.forward = true := declares
    rw [standing_of_bound names (by rw [view, if_pos rfl]), standing_of_bound found live, first]
    simp [Standing.hear, there, open_, declared, real, Symbol.bare_of_self self]
  · next other =>
    refine standing_congr sound.toCore (by rw [lookup?_forward, lookup?_allocate])
      fun id u bound liveU => ?_
    have distinct : id ≠ source := by
      rintro rfl
      obtain ⟨u', liveU', name, scope⟩ := sound.bound g x id bound
      obtain ⟨t', liveT', nameT, scopeT⟩ := sound.bound _ _ id found
      rw [liveU'] at liveT'
      cases liveT'
      exact other ⟨scope.symm.trans scopeT, name.symm.trans nameT⟩
    refine ⟨by rw [view, if_neg distinct, symbol?_allocate_of_live sound.slots s liveU],
      fun w aimed => ?_⟩
    obtain ⟨_, w', liveW, _, realW, _⟩ := sound.aimed id u w liveU aimed
    rw [view, if_neg, symbol?_allocate_of_live sound.slots s liveW, liveW]
    rintro rfl
    rw [live] at liveW
    cases liveW
    rw [declares] at realW
    cases realW

end Adding

/-! ### Files that go -/

section FileGone

variable {st st' : ScopeStore} {p : Path} {freed : List String} (sound : st.Sound)
  (gone : FileGone p st st' freed)

include gone

/-- What is live without the file is not the file's. -/
theorem not_ownedBy_of_fileGone {id : Nat} {s s' : Symbol} (live : st.symbol? id = some s)
    (live' : st'.symbol? id = some s') : ¬ s.OwnedBy p := by
  have other := gone.gone id s' live'
  obtain ⟨s₀, live₀, alike⟩ := gone.frame.back id s' live' (Symbol.outside_singleton.2 other)
  rw [live] at live₀
  cases live₀
  exact fun own => other (alike.ownedBy.1 own)

include sound

/-- A symbol of another file goes on standing for what is not the file's. -/
theorem second_of_fileGone {id : Nat} {s s' : Symbol} (live : st.symbol? id = some s)
    (live' : st'.symbol? id = some s') (other : ¬ s.OwnedBy p) :
    (s'.target.bind st'.symbol?).map Symbol.bare =
      ((s.target.bind st.symbol?).map Symbol.bare).filter fun u => !decide (u.OwnedBy p) := by
  cases target : s.target with
  | none =>
    cases target' : s'.target with
    | none => rfl
    | some t => rw [gone.aimsBack id s s' t live live' target'] at target; cases target
  | some t =>
    obtain ⟨_, u, liveU, _⟩ := sound.aimed id s t live target
    rw [Option.bind_some, liveU, Option.map_some]
    by_cases own : u.OwnedBy p
    · have open_ : s'.target = none := by
        cases target' : s'.target with
        | none => rfl
        | some t' =>
          have same := gone.aimsBack id s s' t' live live' target'
          rw [target] at same
          cases same
          obtain ⟨_, u', liveU', _⟩ := gone.sound.aimed id s' t live' target'
          exact absurd own (not_ownedBy_of_fileGone gone liveU liveU')
      rw [open_, Option.filter_some_neg]
      · rfl
      · simpa using (show u.bare.OwnedBy p from own)
    · have outside : u.Outside [p] := Symbol.outside_singleton.2 own
      obtain ⟨u', liveU', alike⟩ := gone.frame.stay t u liveU outside
      rw [gone.frame.aims id s s' t u live live' (Symbol.outside_singleton.2 other) target liveU
        outside, Option.bind_some, liveU', Option.map_some, ← alike.bare, Option.filter_some_pos]
      simpa using (show ¬ u.bare.OwnedBy p from own)

/-- A file that goes takes its symbols out of every standing. -/
theorem standing_of_fileGone (g : Nat) (x : String) :
    st'.standing g x = (st.standing g x).bind (Standing.leave p) := by
  cases found : st.lookup? g x with
  | none =>
    have free : st'.lookup? g x = none := by
      cases found' : st'.lookup? g x with
      | none => rfl
      | some id => rw [gone.names g x id found'] at found; cases found
    rw [standing, free, standing, found]
    rfl
  | some id =>
    obtain ⟨s, live, _⟩ := sound.bound g x id found
    rw [standing_of_bound found live, Option.bind_some, Standing.leave]
    by_cases own : s.OwnedBy p
    · rw [if_pos (show s.bare.OwnedBy p from own), standing_eq_none_iff gone.sound.toCore]
      cases found' : st'.lookup? g x with
      | none => rfl
      | some id' =>
        have same := gone.names g x id' found'
        rw [found] at same
        cases same
        obtain ⟨s', live', _⟩ := gone.sound.bound g x id found'
        exact absurd own (not_ownedBy_of_fileGone gone live live')
    · have outside : s.Outside [p] := Symbol.outside_singleton.2 own
      rw [if_neg (show ¬ s.bare.OwnedBy p from own)]
      obtain ⟨s', live', alike⟩ := gone.frame.stay id s live outside
      rw [standing_of_bound (gone.frame.names g x id s found live outside) live', alike.bare,
        second_of_fileGone sound gone live live' own]

end FileGone

end ScopeStore

end GrammarIndex
