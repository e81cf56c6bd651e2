import GrammarIndex.Proofs.Scope.Sound

/-!
Purging a file.

Emptying one slot takes out one symbol, the name bound to it and the links from and to it. Purging a
file empties the slots of all its symbols and nothing else, and the freed names are those that were
bound to one of them.
-/
namespace GrammarIndex

/-- The symbol, standing for itself if it stood for the given slot. -/
def Symbol.release (id : Nat) (s : Symbol) : Symbol :=
  if s.target = some id then { s with target := none } else s

theorem Symbol.alike_release (id : Nat) (s : Symbol) : s.Alike (s.release id) := by
  unfold Symbol.release
  split
  · exact .retarget s none
  · exact .refl s

@[simp] theorem Symbol.name_release (id : Nat) (s : Symbol) : (s.release id).name = s.name :=
  (s.alike_release id).name.symm

@[simp] theorem Symbol.scope_release (id : Nat) (s : Symbol) : (s.release id).scope = s.scope :=
  (s.alike_release id).scope.symm

@[simp] theorem Symbol.forward_release (id : Nat) (s : Symbol) :
    (s.release id).forward = s.forward :=
  (s.alike_release id).forward.symm

@[simp] theorem Symbol.file?_release (id : Nat) (s : Symbol) : (s.release id).file? = s.file? :=
  (s.alike_release id).file?.symm

theorem Symbol.target_release (id : Nat) (s : Symbol) (t : Nat) :
    (s.release id).target = some t ↔ s.target = some t ∧ t ≠ id := by
  unfold Symbol.release
  split
  · next aimed =>
    constructor
    · intro found
      cases found
    · rintro ⟨found, apart⟩
      rw [aimed] at found
      cases found
      exact absurd rfl apart
  · next unaimed =>
    constructor
    · intro found
      refine ⟨found, ?_⟩
      rintro rfl
      exact unaimed found
    · exact fun found => found.1

namespace ScopeStore

/-- The store with a slot emptied and the link from it cut. -/
def cut (st : ScopeStore) (id : Nat) (s : Symbol) : ScopeStore :=
  { st with
    slots := st.slots.setIfInBounds id none
    free := id :: st.free
    forwarders := match s.target with
      | some target => st.forwarders.erase target
      | none => st.forwarders }

/-- The store with a slot emptied and the links from and to it cut. -/
def vacate (st : ScopeStore) (id : Nat) (s : Symbol) : ScopeStore := (st.cut id s).detach id

/-- The store without a symbol. -/
def without (st : ScopeStore) (id : Nat) (s : Symbol) : ScopeStore :=
  if st.lookup? s.scope s.name = some id then
    (st.vacate id s).modifyNames s.scope (·.erase s.name)
  else st.vacate id s

section Vacate

variable {st : ScopeStore} {id : Nat} {s : Symbol}

/-- What emptying a slot does to the back links. -/
theorem forwarders_detach (st : ScopeStore) (id t : Nat) :
    (st.detach id).forwarders.get? t = if t = id then none else st.forwarders.get? t := by
  unfold detach
  split
  · next none_ =>
    split
    · next same => rw [same, none_]
    · rfl
  · exact Table.get?_erase_lawful _ _ _

theorem symbol?_detach (st : ScopeStore) (id j : Nat) :
    (st.detach id).symbol? j =
      if st.forwarders.get? id = some j then (st.symbol? j).map (Symbol.release id)
      else st.symbol? j := by
  unfold detach
  split
  · next none_ => simp [none_]
  · next source found =>
    simp only [found, Option.some.injEq]
    refine (symbol?_modifySymbol _ source j _).trans ?_
    by_cases same : j = source
    · subst same
      rfl
    · simp only [same, Ne.symm same, if_false]
      rfl

theorem lookup?_vacate (st : ScopeStore) (id : Nat) (s : Symbol) (g : Nat) (x : String) :
    (st.vacate id s).lookup? g x = st.lookup? g x := by
  unfold vacate detach
  split <;> rfl

theorem layout_vacate (st : ScopeStore) (id : Nat) (s : Symbol) :
    (st.vacate id s).layout = st.layout := by
  unfold vacate detach
  split <;> rfl

theorem byFile_vacate (st : ScopeStore) (id : Nat) (s : Symbol) :
    (st.vacate id s).byFile = st.byFile := by
  unfold vacate detach
  split <;> rfl

theorem free_vacate (st : ScopeStore) (id : Nat) (s : Symbol) :
    (st.vacate id s).free = id :: st.free := by
  unfold vacate detach
  split <;> rfl

theorem size_vacate (st : ScopeStore) (id : Nat) (s : Symbol) :
    (st.vacate id s).slots.size = st.slots.size := by
  unfold vacate detach
  split <;> simp [modifySymbol, cut]

theorem forwarders_cut (st : ScopeStore) (id : Nat) (s : Symbol) (t : Nat) :
    (st.cut id s).forwarders.get? t =
      if s.target = some t then none else st.forwarders.get? t := by
  unfold cut
  cases target : s.target with
  | none => simp
  | some u =>
    rw [Table.get?_erase_lawful]
    simp only [Option.some.injEq, eq_comm]

theorem forwarders_vacate (st : ScopeStore) (id : Nat) (s : Symbol) (t : Nat) :
    (st.vacate id s).forwarders.get? t =
      if t = id ∨ s.target = some t then none else st.forwarders.get? t := by
  rw [vacate, forwarders_detach, forwarders_cut]
  by_cases same : t = id <;> simp [same]

theorem symbol?_vacate (linked : st.BackLinked) (live : st.symbol? id = some s) (j : Nat) :
    (st.vacate id s).symbol? j =
      if j = id then none else (st.symbol? j).map (Symbol.release id) := by
  rw [vacate, symbol?_detach, forwarders_cut,
    show (st.cut id s).symbol? j = if j = id then none else st.symbol? j from
      symbol?_clear st id j (id :: st.free)]
  by_cases here : j = id
  · simp [here]
  · simp only [here, if_false]
    by_cases back : (if s.target = some id then none else st.forwarders.get? id) = some j
    · rw [if_pos back]
    · rw [if_neg back]
      -- What has no back link, or stood for itself, is stood for by no other symbol.
      cases live' : st.symbol? j with
      | none => rfl
      | some s' =>
        have other : s'.target ≠ some id := fun aimed => by
          have found := (linked id j).2 ⟨s', live', aimed⟩
          rw [found] at back
          split at back
          · next self =>
            have found' := (linked id id).2 ⟨s, live, self⟩
            rw [found] at found'
            exact here (Option.some.inj found')
          · exact back rfl
        simp [Symbol.release, other]

end Vacate

/-! ### Without one symbol -/

/-- Only the name of the symbol that is taken out is unbound. -/
theorem lookup?_without_of_bound {st : ScopeStore} {id : Nat} {s : Symbol}
    (names : ∀ g x id, st.lookup? g x = some id →
      ∃ s, st.symbol? id = some s ∧ s.name = x ∧ s.scope = g)
    (live : st.symbol? id = some s) (g : Nat) (x : String) :
    (st.without id s).lookup? g x =
      if st.lookup? g x = some id then none else st.lookup? g x := by
  unfold without
  split
  · next bound =>
    rw [lookup?_unbind, lookup?_vacate]
    by_cases here : g = s.scope ∧ x = s.name
    · obtain ⟨rfl, rfl⟩ := here
      simp [bound]
    · have other : st.lookup? g x ≠ some id := by
        intro found
        obtain ⟨s', live', name, scope⟩ := names g x id found
        rw [live] at live'
        cases live'
        exact here ⟨scope.symm, name.symm⟩
      simp [here, other]
  · next unbound =>
    rw [lookup?_vacate]
    have other : st.lookup? g x ≠ some id := by
      intro found
      obtain ⟨s', live', name, scope⟩ := names g x id found
      rw [live] at live'
      cases live'
      exact unbound (name ▸ scope ▸ found)
    simp [other]

theorem symbol?_without_of_linked {st : ScopeStore} {id : Nat} {s : Symbol}
    (linked : st.BackLinked) (live : st.symbol? id = some s) (j : Nat) :
    (st.without id s).symbol? j =
      if j = id then none else (st.symbol? j).map (Symbol.release id) := by
  rw [← symbol?_vacate linked live]
  unfold without
  split <;> rfl

theorem forwarders_without {st : ScopeStore} {id : Nat} {s : Symbol} (t : Nat) :
    (st.without id s).forwarders.get? t =
      if t = id ∨ s.target = some t then none else st.forwarders.get? t := by
  rw [← forwarders_vacate]
  unfold without
  split <;> rfl

/-- What is left are the other symbols, released. -/
theorem symbol?_without_eq_some_of_linked {st : ScopeStore} {id : Nat} {s : Symbol}
    (linked : st.BackLinked) (live : st.symbol? id = some s) (j : Nat) (s' : Symbol) :
    (st.without id s).symbol? j = some s' ↔
      j ≠ id ∧ ∃ s₀, st.symbol? j = some s₀ ∧ s₀.release id = s' := by
  rw [symbol?_without_of_linked linked live]
  by_cases here : j = id
  · simp [here]
  · rw [if_neg here, Option.map_eq_some_iff]
    exact ⟨fun kept => ⟨here, kept⟩, And.right⟩

/-- Taking a symbol out keeps the back links those of the links that are left. -/
theorem backLinked_without {st : ScopeStore} {id : Nat} {s : Symbol} (linked : st.BackLinked)
    (live : st.symbol? id = some s) : (st.without id s).BackLinked := by
  have left := symbol?_without_eq_some_of_linked linked live
  intro t source
  rw [forwarders_without]
  constructor
  · intro found
    split at found
    · cases found
    · next other =>
      obtain ⟨s₀, live₀, aimed⟩ := (linked t source).1 found
      have apart : source ≠ id := by
        rintro rfl
        rw [live] at live₀
        cases live₀
        exact other (.inr aimed)
      refine ⟨s₀.release id, (left source _).2 ⟨apart, s₀, live₀, rfl⟩, ?_⟩
      exact (Symbol.target_release id s₀ t).2 ⟨aimed, fun same => other (.inl same)⟩
  · rintro ⟨s', live', aimed⟩
    obtain ⟨apart, s₀, live₀, rfl⟩ := (left source s').1 live'
    obtain ⟨aimed₀, notId⟩ := (Symbol.target_release id s₀ t).1 aimed
    have found := (linked t source).2 ⟨s₀, live₀, aimed₀⟩
    rw [if_neg, found]
    rintro (same | mine)
    · exact notId same
    · have found' := (linked t id).2 ⟨s, live, mine⟩
      rw [found] at found'
      cases found'
      exact apart rfl

section Without

variable {st : ScopeStore} {id : Nat} {s : Symbol} (core : st.Core)
  (live : st.symbol? id = some s)

include core live

theorem symbol?_without (j : Nat) :
    (st.without id s).symbol? j =
      if j = id then none else (st.symbol? j).map (Symbol.release id) :=
  symbol?_without_of_linked core.linked live j

theorem symbol?_without_eq_some (j : Nat) (s' : Symbol) :
    (st.without id s).symbol? j = some s' ↔
      j ≠ id ∧ ∃ s₀, st.symbol? j = some s₀ ∧ s₀.release id = s' :=
  symbol?_without_eq_some_of_linked core.linked live j s'

/-- The names that are left lead where they led. -/
theorem lookup?_without_eq_some (g : Nat) (x : String) (j : Nat) :
    (st.without id s).lookup? g x = some j ↔ st.lookup? g x = some j ∧ j ≠ id := by
  rw [lookup?_without_of_bound core.bound live]
  split
  · next mine =>
    rw [mine]
    constructor
    · intro found
      cases found
    · rintro ⟨found, apart⟩
      exact absurd (Option.some.inj found).symm apart
  · next other => exact ⟨fun found => ⟨found, fun same => other (same ▸ found)⟩, And.left⟩

omit core live in
theorem layout_without : (st.without id s).layout = st.layout := by
  unfold without
  split
  · rw [layout_modifyNames, layout_vacate]
  · exact layout_vacate st id s

omit core live in
theorem byFile_without : (st.without id s).byFile = st.byFile := by
  unfold without
  split <;> exact byFile_vacate st id s

omit core live in
theorem free_without : (st.without id s).free = id :: st.free := by
  rw [← free_vacate st id s]
  unfold without
  split <;> rfl

omit core live in
theorem size_without : (st.without id s).slots.size = st.slots.size := by
  rw [← size_vacate st id s]
  unfold without
  split <;> rfl

theorem freeSlots_without : (st.without id s).FreeSlots := by
  have free : (st.without id s).free = id :: st.free := free_without
  have size : (st.without id s).slots.size = st.slots.size := size_without
  refine ⟨?_, ?_, ?_⟩
  · rw [free]
    refine List.nodup_cons.2 ⟨fun listed => ?_, core.slots.nodup⟩
    have dead := core.slots.dead id listed
    rw [live] at dead
    cases dead
  · intro j listed
    rw [free] at listed
    rw [size]
    rcases List.mem_cons.1 listed with rfl | listed
    · exact lt_slots_of_symbol? live
    · exact core.slots.inside j listed
  · intro j listed
    rw [free] at listed
    rw [symbol?_without core live]
    rcases List.mem_cons.1 listed with rfl | listed
    · simp
    · simp [core.slots.dead j listed]

/-- Taking a symbol out keeps the store together. -/
theorem core_without : (st.without id s).Core := by
  have left := symbol?_without_eq_some core live
  have same : (st.without id s).layout = st.layout := layout_without
  refine ⟨core.layered.of_layout same, freeSlots_without core live, ?_, ?_, ?_, ?_, ?_⟩
  · intro g x j found
    obtain ⟨found, apart⟩ := (lookup?_without_eq_some core live g x j).1 found
    obtain ⟨s₀, live₀, name, scope⟩ := core.bound g x j found
    exact ⟨s₀.release id, (left j _).2 ⟨apart, s₀, live₀, rfl⟩, by simpa using name,
      by simpa using scope⟩
  · intro j s' p live' file
    obtain ⟨_, s₀, live₀, rfl⟩ := (left j s').1 live'
    rw [byKey_of_layout same, Symbol.scope_release]
    exact core.homed j s₀ p live₀ (by simpa using file)
  · intro j s' live' file
    obtain ⟨_, s₀, live₀, rfl⟩ := (left j s').1 live'
    obtain ⟨scope, self⟩ := core.builtin j s₀ live₀ (by simpa using file)
    exact ⟨by simpa using scope, by simp [Symbol.release, self]⟩
  · exact backLinked_without core.linked live
  · intro j s' t live' aimed
    obtain ⟨_, s₀, live₀, rfl⟩ := (left j s').1 live'
    obtain ⟨aimed₀, notId⟩ := (Symbol.target_release id s₀ t).1 aimed
    obtain ⟨forward, u, liveU, self, defines, name, scope⟩ := core.aimed j s₀ t live₀ aimed₀
    have kept : u.release id = u := by simp [Symbol.release, self]
    refine ⟨by simpa using forward, u, (left t u).2 ⟨notId, u, liveU, kept⟩, self, defines, ?_, ?_⟩
    · rw [name, Symbol.name_release]
    · rw [scope, Symbol.scope_release]

end Without

/-! ### Without the symbols of a list of slots -/

theorem Purge.step_dead {scope id : Nat} {p : Purge} (dead : p.store.symbol? id = none) :
    Purge.step scope p id = p := by
  simp only [Purge.step, dead]

theorem Purge.step_live {scope id : Nat} {p : Purge} {s : Symbol}
    (live : p.store.symbol? id = some s) (here : s.scope = scope) :
    Purge.step scope p id = {
      store := p.store.without id s
      kept := p.kept
      freed := if p.store.lookup? scope s.name = some id then p.freed ++ [s.name] else p.freed } := by
  subst here
  have names := lookup?_vacate p.store id s s.scope s.name
  unfold Purge.step
  simp only [live, ne_eq, not_true_eq_false, if_false]
  cases target : s.target with
  | none =>
    have cleared : p.store.vacate id s = (ScopeStore.mk p.store.scopes p.store.byKey
        (p.store.slots.setIfInBounds id none) (id :: p.store.free) p.store.byFile
        p.store.forwarders).detach id := by simp only [vacate, cut, target]
    simp only [← cleared, names, without]
    split <;> rfl
  | some t =>
    have cleared : p.store.vacate id s = (ScopeStore.mk p.store.scopes p.store.byKey
        (p.store.slots.setIfInBounds id none) (id :: p.store.free) p.store.byFile
        (p.store.forwarders.erase t)).detach id := by simp only [vacate, cut, target]
    simp only [← cleared, names, without]
    split <;> rfl

/-- What a purge of some slots leaves of a store. -/
structure Purged (scope : Nat) (ids : List Nat) (p q : Purge) : Prop where
  core : q.store.Core
  kept : q.kept = p.kept
  layout : q.store.layout = p.store.layout
  byFile : q.store.byFile = p.store.byFile
  gone : ∀ j ∈ ids, q.store.symbol? j = none
  stay : ∀ j s, j ∉ ids → p.store.symbol? j = some s → ∃ s', q.store.symbol? j = some s' ∧
    s.Alike s' ∧ ∀ t, s'.target = some t ↔ s.target = some t ∧ t ∉ ids
  back : ∀ j s', q.store.symbol? j = some s' → ∃ s, p.store.symbol? j = some s
  names : ∀ g x id, q.store.lookup? g x = some id ↔ p.store.lookup? g x = some id ∧ id ∉ ids
  freed : ∀ x, x ∈ q.freed ↔ x ∈ p.freed ∨ ∃ id ∈ ids, p.store.lookup? scope x = some id

theorem purged_nil {scope : Nat} {p : Purge} (core : p.store.Core) : Purged scope [] p p := by
  refine ⟨core, rfl, rfl, rfl, by simp, ?_, fun j s live => ⟨s, live⟩, by simp, by simp⟩
  intro j s _ live
  exact ⟨s, live, .refl s, by simp⟩

/-- Purging some slots and then others purges them all. -/
theorem Purged.trans {scope : Nat} {ids ids' : List Nat} {p q r : Purge}
    (first : Purged scope ids p q) (second : Purged scope ids' q r) :
    Purged scope (ids ++ ids') p r where
  core := second.core
  kept := second.kept.trans first.kept
  layout := second.layout.trans first.layout
  byFile := second.byFile.trans first.byFile
  gone j member := by
    rcases List.mem_append.1 member with earlier | later
    · -- What was emptied first stays empty.
      refine Option.eq_none_iff_forall_ne_some.2 fun s live => ?_
      obtain ⟨s', live'⟩ := second.back j s live
      rw [first.gone j earlier] at live'
      cases live'
    · exact second.gone j later
  stay j s outside live := by
    rw [List.mem_append, not_or] at outside
    obtain ⟨s', live', alike, targets⟩ := first.stay j s outside.1 live
    obtain ⟨s'', live'', alike', targets'⟩ := second.stay j s' outside.2 live'
    refine ⟨s'', live'', alike.trans alike', fun t => ?_⟩
    rw [targets', targets, List.mem_append, not_or, and_assoc]
  back j s live := by
    obtain ⟨s', live'⟩ := second.back j s live
    exact first.back j s' live'
  names g x id := by rw [second.names, first.names, List.mem_append, not_or, and_assoc]
  freed x := by
    rw [second.freed, first.freed]
    simp only [first.names, List.mem_append]
    constructor
    · rintro ((listed | ⟨id, member, found⟩) | ⟨id, member, found, _⟩)
      · exact .inl listed
      · exact .inr ⟨id, .inl member, found⟩
      · exact .inr ⟨id, .inr member, found⟩
    · rintro (listed | ⟨id, member, found⟩)
      · exact .inl (.inl listed)
      · by_cases earlier : id ∈ ids
        · exact .inl (.inr ⟨id, earlier, found⟩)
        · exact .inr ⟨id, member.resolve_left earlier, found, earlier⟩

/-- There is nothing to purge in a dead slot. -/
theorem purged_dead {scope id : Nat} {p : Purge} (core : p.store.Core)
    (dead : p.store.symbol? id = none) : Purged scope [id] p p := by
  have apart : ∀ {j s}, p.store.symbol? j = some s → j ∉ [id] := by
    intro j s live member
    rw [List.mem_singleton.1 member, dead] at live
    cases live
  refine ⟨core, rfl, rfl, rfl, ?_, ?_, fun j s live => ⟨s, live⟩, ?_, ?_⟩
  · intro j member
    rw [List.mem_singleton.1 member]
    exact dead
  · intro j s _ live
    refine ⟨s, live, .refl s, fun t => ⟨fun aimed => ⟨aimed, ?_⟩, And.left⟩⟩
    obtain ⟨_, u, liveU, _⟩ := core.aimed j s t live aimed
    exact apart liveU
  · intro g x j
    refine ⟨fun found => ⟨found, ?_⟩, And.left⟩
    obtain ⟨s, live, _⟩ := core.bound g x j found
    exact apart live
  · intro x
    refine ⟨.inl, fun either => either.resolve_right ?_⟩
    rintro ⟨j, member, found⟩
    obtain ⟨s, live, _⟩ := core.bound scope x j found
    exact apart live member

/-- A step purges the slot of a live symbol. -/
theorem purged_step {scope id : Nat} {p : Purge} {s : Symbol} (core : p.store.Core)
    (live : p.store.symbol? id = some s) (here : s.scope = scope) :
    Purged scope [id] p (Purge.step scope p id) := by
  rw [Purge.step_live live here]
  have left := symbol?_without_eq_some core live
  refine ⟨core_without core live, rfl, layout_without, byFile_without, ?_, ?_, ?_, ?_, ?_⟩
  · intro j member
    refine Option.eq_none_iff_forall_ne_some.2 fun s' live' => ?_
    exact ((left j s').1 live').1 (List.mem_singleton.1 member)
  · intro j s₀ outside live₀
    rw [List.mem_singleton] at outside
    refine ⟨s₀.release id, (left j _).2 ⟨outside, s₀, live₀, rfl⟩, s₀.alike_release id, fun t => ?_⟩
    rw [Symbol.target_release, List.mem_singleton]
  · intro j s' live'
    obtain ⟨_, s₀, live₀, _⟩ := (left j s').1 live'
    exact ⟨s₀, live₀⟩
  · intro g x j
    rw [lookup?_without_eq_some core live, List.mem_singleton]
  · intro x
    -- A name that leads to the slot is the name of its symbol.
    have own : (∃ j ∈ [id], p.store.lookup? scope x = some j) ↔
        x = s.name ∧ p.store.lookup? scope s.name = some id := by
      simp only [List.mem_singleton, exists_eq_left]
      constructor
      · intro found
        obtain ⟨s', live', name, _⟩ := core.bound scope x id found
        rw [live] at live'
        cases live'
        exact ⟨name.symm, name ▸ found⟩
      · rintro ⟨rfl, found⟩
        exact found
    rw [own]
    split
    · next mine => simp [mine]
    · next other => simp [other]

/-- Purging slots of one scope, one after the other. -/
theorem purged_foldl {scope : Nat} (ids : List Nat) (p : Purge) (core : p.store.Core)
    (here : ∀ id ∈ ids, ∀ s, p.store.symbol? id = some s → s.scope = scope) :
    Purged scope ids p (ids.foldl (Purge.step scope) p) := by
  induction ids generalizing p with
  | nil => exact purged_nil core
  | cons id ids ih =>
    obtain ⟨first, others⟩ := List.forall_mem_cons.1 here
    rw [List.foldl_cons]
    cases live : p.store.symbol? id with
    | none =>
      rw [Purge.step_dead live]
      exact (purged_dead core live).trans (ih p core others)
    | some s =>
      have step := purged_step core live (first s live)
      refine step.trans (ih _ step.core fun j member s' live' => ?_)
      rw [Purge.step_live live (first s live)] at live'
      obtain ⟨_, s₀, live₀, rfl⟩ := (symbol?_without_eq_some core live j s').1 live'
      rw [Symbol.scope_release]
      exact others j member s₀ live₀

end ScopeStore

end GrammarIndex
