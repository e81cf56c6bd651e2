import GrammarIndex.Proofs.Scope.Views

/-!
The invariant of a scope store and the operations that keep it.

Every bound name leads to a live symbol of that name in that scope. A symbol that stands for another
is a forward declaration, and the other is a live definition of the same name that stands for
itself; so following targets takes one step at most. Symbols of a file live in the scope of its
directory.
-/
namespace GrammarIndex.ScopeStore

/-- The global scope is the parent of every other scope, and each directory has its own. -/
structure Layered (st : ScopeStore) : Prop where
  nonempty : 0 < st.scopes.size
  top : st.parent? globalScope = none
  below : ∀ g, 0 < g → g < st.scopes.size → st.parent? g = some globalScope
  keyed : ∀ k g, st.byKey.get? k = some g → 0 < g ∧ g < st.scopes.size
  distinct : ∀ k k' g, st.byKey.get? k = some g → st.byKey.get? k' = some g →
    k.components = k'.components

theorem Layered.of_layout {st st' : ScopeStore} (layered : st.Layered)
    (same : st'.layout = st.layout) : st'.Layered := by
  have keys := byKey_of_layout same
  have size := size_of_layout same
  refine ⟨?_, ?_, ?_, ?_, ?_⟩
  · rw [size]; exact layered.nonempty
  · rw [parent?_of_layout same]; exact layered.top
  · intro g positive inside
    rw [parent?_of_layout same]
    exact layered.below g positive (size ▸ inside)
  · intro k g found
    rw [size]
    exact layered.keyed k g (keys ▸ found)
  · intro k k' g found found'
    exact layered.distinct k k' g (keys ▸ found) (keys ▸ found')

/-- Symbols, names, back links and free slots fit together. -/
structure Core (st : ScopeStore) : Prop where
  layered : st.Layered
  slots : st.FreeSlots
  bound : ∀ g x id, st.lookup? g x = some id →
    ∃ s, st.symbol? id = some s ∧ s.name = x ∧ s.scope = g
  homed : ∀ id s p, st.symbol? id = some s → s.file? = some p →
    st.byKey.get? p.directory = some s.scope
  builtin : ∀ id s, st.symbol? id = some s → s.file? = none →
    s.scope = globalScope ∧ s.target = none
  linked : ∀ t source, st.forwarders.get? t = some source ↔
    ∃ s, st.symbol? source = some s ∧ s.target = some t
  aimed : ∀ id s t, st.symbol? id = some s → s.target = some t → s.forward = true ∧
    ∃ s', st.symbol? t = some s' ∧ s'.target = none ∧ s'.forward = false ∧ s'.name = s.name ∧
      s'.scope = s.scope

/-- The invariant: the slots listed for a file are those of its live symbols, too. -/
structure Sound (st : ScopeStore) : Prop extends Core st where
  filed : ∀ p id, id ∈ st.slotsOf p ↔ ∃ s, st.symbol? id = some s ∧ s.OwnedBy p

/-- The symbols of a file live in the scope of its directory. -/
theorem Core.scope_of_ownedBy {st : ScopeStore} (core : st.Core) {p : Path} {scope id : Nat}
    {s : Symbol} (home : st.byKey.get? p.directory = some scope) (live : st.symbol? id = some s)
    (own : s.OwnedBy p) : s.scope = scope := by
  obtain ⟨f, file, spelled⟩ := Symbol.ownedBy_iff.1 own
  have homeF := core.homed id s f live file
  rw [PathTable.get?_congr _ (Path.directory_congr spelled), home] at homeF
  exact (Option.some.inj homeF).symm

/-- A symbol in the global scope belongs to no file. -/
theorem Core.file?_of_global {st : ScopeStore} (core : st.Core) {id : Nat} {s : Symbol}
    (live : st.symbol? id = some s) (top : s.scope = globalScope) : s.file? = none := by
  cases file : s.file? with
  | none => rfl
  | some f =>
    have positive := (core.layered.keyed _ _ (core.homed id s f live file)).1
    rw [top] at positive
    exact absurd positive (by decide)

/-- A symbol in another scope belongs to a file. -/
theorem Core.exists_file {st : ScopeStore} (core : st.Core) {id : Nat} {s : Symbol}
    (live : st.symbol? id = some s) (positive : 0 < s.scope) : ∃ q, s.file? = some q := by
  cases file : s.file? with
  | some q => exact ⟨q, rfl⟩
  | none =>
    rw [(core.builtin id s live file).1] at positive
    exact absurd positive (by decide)

/-- A symbol in the scope of a directory belongs to a file there. -/
theorem Core.exists_file_in {st : ScopeStore} (core : st.Core) {dir : Path} {g : Nat}
    (home : st.byKey.get? dir = some g) {id : Nat} {s : Symbol} (live : st.symbol? id = some s)
    (place : s.scope = g) : ∃ q, s.file? = some q ∧ q.directory.components = dir.components := by
  obtain ⟨q, file⟩ := core.exists_file live (place ▸ (core.layered.keyed _ _ home).1)
  exact ⟨q, file, core.layered.distinct _ _ _ (place ▸ core.homed id s q live file) home⟩

/-! ### Resolving and following -/

/-- A directory sees its own names and the global ones. -/
theorem chain_eq {st : ScopeStore} (layered : st.Layered) {g : Nat} (positive : 0 < g)
    (inside : g < st.scopes.size) : st.chain g = [g, globalScope] := by
  have top : ∀ steps, st.chainWithin steps globalScope = [globalScope] := by
    intro steps
    cases steps with
    | zero => rfl
    | succ steps => simp [chainWithin, layered.top]
  obtain ⟨steps, size⟩ : ∃ steps, st.scopes.size = steps + 1 := ⟨st.scopes.size - 1, by omega⟩
  rw [chain, size, chainWithin, layered.below g positive inside]
  simp only [top]

theorem resolve?_eq {st : ScopeStore} (layered : st.Layered) {dir : Path} {g : Nat}
    (home : st.byKey.get? dir = some g) (x : String) :
    st.resolve? g x = (st.lookup? g x).or (st.lookup? globalScope x) := by
  obtain ⟨positive, inside⟩ := layered.keyed dir g home
  rw [resolve?, chain_eq layered positive inside]
  cases here : st.lookup? g x with
  | none => cases above : st.lookup? globalScope x <;> simp [List.findSome?, here, above]
  | some id => simp [List.findSome?, here]

/-- What a name resolves to has this name, and lives in the scope of the directory or above it. -/
theorem Core.symbol_of_resolve? {st : ScopeStore} (core : st.Core) {dir : Path} {g : Nat}
    (home : st.byKey.get? dir = some g) {x : String} {id : Nat}
    (found : st.resolve? g x = some id) : ∃ s, st.symbol? id = some s ∧ s.name = x ∧
      (s.scope = g ∨ s.scope = globalScope) := by
  rw [resolve?_eq core.layered home] at found
  rcases Option.or_eq_some_iff.1 found with here | ⟨_, above⟩
  · obtain ⟨s, live, name, scope⟩ := core.bound _ _ _ here
    exact ⟨s, live, name, .inl scope⟩
  · obtain ⟨s, live, name, scope⟩ := core.bound _ _ _ above
    exact ⟨s, live, name, .inr scope⟩

theorem get?_namesOf (st : ScopeStore) (g : Nat) (x : String) :
    (st.namesOf g).get? x = st.lookup? g x := by
  unfold namesOf lookup?
  cases st.scopes[g]? <;> rfl

/-- Gathering names: one that is seen already keeps what it is bound to, of the others the first
entry counts. -/
theorem get?_gathered (l : List (String × Nat)) (seen : Table String Nat) (x : String) :
    (l.foldl (fun seen e => if seen.contains e.1 then seen else seen.insert e.1 e.2) seen).get? x =
      (seen.get? x).or (Table.lookup x l) := by
  induction l generalizing seen with
  | nil => simp [Table.lookup]
  | cons e l ih =>
    obtain ⟨y, id⟩ := e
    have step : (if seen.contains y = true then seen else seen.insert y id).get? x =
        (seen.get? x).or (if x = y then some id else none) := by
      split
      · next present =>
        obtain ⟨old, found⟩ := Option.isSome_iff_exists.1 present
        by_cases same : x = y
        · rw [same, found, Option.some_or]
        · rw [if_neg same, Option.or_none]
      · next absent =>
        rw [Table.get?_insert_lawful]
        by_cases same : x = y
        · have free : seen.get? x = none := by simpa [Table.contains, same] using absent
          rw [if_pos same, if_pos same, free, Option.none_or]
        · rw [if_neg same, if_neg same, Option.or_none]
    rw [List.foldl_cons, ih, step, Option.or_assoc, Table.lookup]
    simp only [Std.LawfulEqCmp.compare_eq_iff_eq]
    by_cases same : x = y <;> simp [same]

/-- What is visible under a name is what the name resolves to. -/
theorem get?_visible (st : ScopeStore) (g : Nat) (x : String) :
    (st.visible g).get? x = st.resolve? g x := by
  -- With some names gathered already, the rest of the chain is asked for the others.
  have along : ∀ (scopes : List Nat) (seen : Table String Nat),
      (scopes.foldl (fun seen s => (st.namesOf s).entries.foldl (fun seen e =>
        if seen.contains e.1 then seen else seen.insert e.1 e.2) seen) seen).get? x =
          (seen.get? x).or (scopes.findSome? fun s => st.lookup? s x) := by
    intro scopes
    induction scopes with
    | nil => simp
    | cons s scopes ih =>
      intro seen
      rw [List.foldl_cons, ih, get?_gathered, ← Table.get?, get?_namesOf, Option.or_assoc,
        List.findSome?_cons]
      cases st.lookup? s x <;> rfl
  exact (along (st.chain g) ∅).trans (by rw [Table.get?_empty, Option.none_or, resolve?])

/-- Following takes one step at most. -/
theorem follow_eq {st : ScopeStore} (core : st.Core) (id : Nat) :
    st.follow id = ((st.symbol? id).bind (·.target)).getD id := by
  unfold follow
  cases size : st.slots.size with
  | zero =>
    have dead : st.symbol? id = none := by
      cases live : st.symbol? id with
      | none => rfl
      | some s => have := lt_slots_of_symbol? live; omega
    simp [followWithin, dead]
  | succ steps =>
    rw [followWithin]
    cases step : (st.symbol? id).bind (·.target) with
    | none => simp
    | some t =>
      obtain ⟨s, live, target⟩ := Option.bind_eq_some_iff.1 step
      obtain ⟨_, s', live', stands, _⟩ := core.aimed id s t live target
      have apart : t ≠ id := by
        rintro rfl
        rw [live] at live'
        cases live'
        rw [target] at stands
        cases stands
      have rest : ∀ steps seen, st.followWithin steps seen t = t := by
        intro steps seen
        cases steps with
        | zero => rfl
        | succ steps => simp [followWithin, live', stands]
      simp [apart, live', rest]

theorem follow_of_target {st : ScopeStore} (core : st.Core) {id t : Nat} {s : Symbol}
    (live : st.symbol? id = some s) (target : s.target = some t) : st.follow id = t := by
  rw [follow_eq core, live]
  simp [target]

theorem follow_of_self {st : ScopeStore} (core : st.Core) {id : Nat} {s : Symbol}
    (live : st.symbol? id = some s) (stands : s.target = none) : st.follow id = id := by
  rw [follow_eq core, live]
  simp [stands]

/-- What a live symbol stands for is live. -/
theorem live_follow {st : ScopeStore} (core : st.Core) {id : Nat} {s : Symbol}
    (live : st.symbol? id = some s) : ∃ s', st.symbol? (st.follow id) = some s' ∧
      s'.name = s.name ∧ s'.scope = s.scope ∧ s'.target = none := by
  cases target : s.target with
  | none =>
    rw [follow_of_self core live target]
    exact ⟨s, live, rfl, rfl, target⟩
  | some t =>
    rw [follow_of_target core live target]
    obtain ⟨_, s', live', stands, _, name, scope⟩ := core.aimed id s t live target
    exact ⟨s', live', name, scope, stands⟩

/-! ### New symbols -/

/-- What a symbol must be like to come into a store. -/
structure Admitted (st : ScopeStore) (s : Symbol) : Prop where
  self : s.target = none
  home : ∀ p, s.file? = some p → st.byKey.get? p.directory = some s.scope
  free : s.file? = none → s.scope = globalScope

theorem core_allocate {st : ScopeStore} (core : st.Core) {s : Symbol} (admitted : st.Admitted s) :
    (st.allocate s).1.Core := by
  have view := symbol?_allocate_eq_some core.slots s
  refine ⟨core.layered.of_layout rfl, freeSlots_allocate core.slots s, ?_, ?_, ?_, ?_, ?_⟩
  · intro g x id found
    obtain ⟨s', live, facts⟩ := core.bound g x id found
    exact ⟨s', (view id s').2 (.inr live), facts⟩
  · intro id s' p live file
    obtain ⟨-, rfl⟩ | live := (view id s').1 live
    · exact admitted.home p file
    · exact core.homed id s' p live file
  · intro id s' live file
    obtain ⟨-, rfl⟩ | live := (view id s').1 live
    · exact ⟨admitted.free file, admitted.self⟩
    · exact core.builtin id s' live file
  · intro t source
    rw [forwarders_allocate, core.linked]
    constructor
    · rintro ⟨s', live, target⟩
      exact ⟨s', (view source s').2 (.inr live), target⟩
    · rintro ⟨s', live, target⟩
      obtain ⟨-, rfl⟩ | live := (view source s').1 live
      · rw [admitted.self] at target
        cases target
      · exact ⟨s', live, target⟩
  · intro id s' t live target
    obtain ⟨-, rfl⟩ | live := (view id s').1 live
    · rw [admitted.self] at target
      cases target
    · obtain ⟨forward, u, liveTarget, facts⟩ := core.aimed id s' t live target
      exact ⟨forward, u, (view t u).2 (.inr liveTarget), facts⟩

theorem sound_allocate {st : ScopeStore} (sound : st.Sound) {s : Symbol}
    (admitted : st.Admitted s) : (st.allocate s).1.Sound := by
  have view := symbol?_allocate_eq_some sound.slots s
  refine ⟨core_allocate sound.toCore admitted, fun p id => ?_⟩
  rw [mem_slotsOf_allocate, sound.filed]
  constructor
  · rintro (⟨s', live, owned⟩ | ⟨owned, here⟩)
    · exact ⟨s', (view id s').2 (.inr live), owned⟩
    · exact ⟨s, (view id s).2 (.inl ⟨here, rfl⟩), owned⟩
  · rintro ⟨s', live, owned⟩
    obtain ⟨here, rfl⟩ | live := (view id s').1 live
    · exact .inr ⟨owned, here⟩
    · exact .inl ⟨s', live, owned⟩

/-- Binding a name to a live symbol of that name and scope. -/
theorem sound_bind {st : ScopeStore} (sound : st.Sound) {id : Nat} {s : Symbol}
    (live : st.symbol? id = some s) (inside : s.scope < st.scopes.size) :
    (st.modifyNames s.scope (·.insert s.name id)).Sound := by
  have same : (st.modifyNames s.scope (·.insert s.name id)).layout = st.layout :=
    layout_modifyNames st _ _
  refine ⟨⟨sound.layered.of_layout same, ⟨sound.slots.nodup, sound.slots.inside, sound.slots.dead⟩,
    ?_, ?_, sound.builtin, sound.linked, sound.aimed⟩, sound.filed⟩
  · intro g x j found
    rw [lookup?_bind st inside] at found
    split at found
    · next here =>
      cases found
      exact ⟨s, live, here.2.symm, here.1.symm⟩
    · exact sound.bound g x j found
  · intro j s' p live' file
    rw [byKey_of_layout same]
    exact sound.homed j s' p live' file

/-- The back links are the links, read backwards; so nothing is stood for by two symbols. -/
def BackLinked (st : ScopeStore) : Prop :=
  ∀ t source, st.forwarders.get? t = some source ↔
    ∃ s, st.symbol? source = some s ∧ s.target = some t

/-- Letting an open declaration stand for the definition it announces. -/
theorem symbol?_forward {st : ScopeStore} {source target : Nat} {s : Symbol}
    (live : st.symbol? source = some s) (j : Nat) :
    (st.forward source target).symbol? j =
      if j = source then some { s with target := some target } else st.symbol? j := by
  unfold forward
  simp only [live]
  show (st.modifySymbol source _).symbol? j = _
  rw [symbol?_modifySymbol]
  by_cases same : j = source
  · subst same
    simp [live]
  · simp [same]

theorem lookup?_forward {st : ScopeStore} {source target : Nat} (g : Nat) (x : String) :
    (st.forward source target).lookup? g x = st.lookup? g x := by
  unfold forward
  split <;> rfl

theorem layout_forward {st : ScopeStore} {source target : Nat} :
    (st.forward source target).layout = st.layout := by
  unfold forward
  split <;> rfl

theorem slotsOf_forward {st : ScopeStore} {source target : Nat} (p : Path) :
    (st.forward source target).slotsOf p = st.slotsOf p := by
  unfold forward
  split <;> rfl

theorem get?_forwarders_forward {st : ScopeStore} {source target : Nat} {s : Symbol}
    (live : st.symbol? source = some s) (t : Nat) :
    (st.forward source target).forwarders.get? t =
      if t = target then some source
      else if s.target = some t then none else st.forwarders.get? t := by
  unfold forward
  simp only [live]
  refine (Table.get?_insert_lawful _ _ _ _).trans ?_
  cases aimed : s.target with
  | none => simp
  | some previous =>
    rw [Table.get?_erase_lawful]
    simp only [Option.some.injEq, eq_comm]

theorem freeSlots_forward {st : ScopeStore} (slots : st.FreeSlots) {source target : Nat}
    {s : Symbol} (live : st.symbol? source = some s) : (st.forward source target).FreeSlots := by
  have free : (st.forward source target).free = st.free := by
    unfold forward
    split <;> rfl
  have size : (st.forward source target).slots.size = st.slots.size := by
    unfold forward
    split
    · rfl
    · simp [modifySymbol]
  refine ⟨free ▸ slots.nodup, fun id member => ?_, fun id member => ?_⟩
  · rw [size]
    exact slots.inside id (free ▸ member)
  · have dead := slots.dead id (free ▸ member)
    rw [symbol?_forward live, if_neg, dead]
    rintro rfl
    rw [live] at dead
    cases dead

section Forward

variable {st : ScopeStore} {source target : Nat} {s : Symbol} (live : st.symbol? source = some s)

include live

/-- One symbol changes its target. -/
theorem symbol?_forward_eq_some (j : Nat) (s' : Symbol) :
    (st.forward source target).symbol? j = some s' ↔
      (j = source ∧ s' = { s with target := some target }) ∨
        (j ≠ source ∧ st.symbol? j = some s') := by
  rw [symbol?_forward live]
  by_cases here : j = source
  · simp [here, eq_comm]
  · simp [here]

/-- Every symbol keeps all but its target. -/
theorem symbol?_of_forward {id : Nat} {s' : Symbol}
    (live' : (st.forward source target).symbol? id = some s') :
    ∃ s₀, st.symbol? id = some s₀ ∧ s₀.Alike s' := by
  rw [symbol?_forward live] at live'
  split at live'
  · next here =>
    cases live'
    exact ⟨s, here ▸ live, .retarget s _⟩
  · exact ⟨s', live', .refl s'⟩

theorem live_forward {id : Nat} {s₀ : Symbol} (live₀ : st.symbol? id = some s₀) :
    ∃ s', (st.forward source target).symbol? id = some s' ∧ s₀.Alike s' := by
  rw [symbol?_forward live]
  split
  · next here =>
    rw [here, live] at live₀
    cases live₀
    exact ⟨_, rfl, .retarget s _⟩
  · exact ⟨s₀, live₀, .refl s₀⟩

/-- A new link to a symbol that no other stands for. -/
theorem backLinked_forward (linked : st.BackLinked)
    (unshared : ∀ j, st.forwarders.get? target = some j → j = source) :
    (st.forward source target).BackLinked := by
  intro t j
  have view := @symbol?_forward_eq_some _ source target _ live j
  rw [get?_forwarders_forward live]
  constructor
  · intro found
    split at found
    · next here =>
      cases found
      exact ⟨_, (view _).2 (.inl ⟨rfl, rfl⟩), by rw [here]⟩
    · split at found
      · cases found
      · next kept =>
        obtain ⟨s', live', aimed⟩ := (linked t j).1 found
        have other : j ≠ source := by
          rintro rfl
          rw [live] at live'
          cases live'
          exact kept aimed
        exact ⟨s', (view s').2 (.inr ⟨other, live'⟩), aimed⟩
  · rintro ⟨s', live', aimed⟩
    obtain ⟨rfl, rfl⟩ | ⟨other, live'⟩ := (view s').1 live'
    · cases aimed
      rw [if_pos rfl]
    · have found := (linked t j).2 ⟨s', live', aimed⟩
      rw [if_neg, if_neg, found]
      · intro mine
        have found' := (linked t source).2 ⟨s, live, mine⟩
        rw [found] at found'
        exact other (Option.some.inj found')
      · rintro rfl
        exact other (unshared j found)

end Forward

/-- An open declaration may come to stand for a definition of its name that nothing stands for. -/
theorem sound_forward {st : ScopeStore} (sound : st.Sound) {source target : Nat} {s t : Symbol}
    (live : st.symbol? source = some s) (declares : s.forward = true)
    (liveTarget : st.symbol? target = some t) (selfTarget : t.target = none)
    (defines : t.forward = false) (name : t.name = s.name) (scope : t.scope = s.scope)
    (unaimed : st.forwarders.get? target = none) (sited : s.file? ≠ none) :
    (st.forward source target).Sound := by
  have view := @symbol?_forward_eq_some _ source target _ live
  have same : (st.forward source target).layout = st.layout := layout_forward
  have apart : ∀ j u, st.symbol? j = some u → u.forward = false → j ≠ source := by
    rintro j u liveU real rfl
    rw [live] at liveU
    cases liveU
    rw [declares] at real
    cases real
  refine ⟨⟨sound.layered.of_layout same, freeSlots_forward sound.slots live, ?_, ?_, ?_,
    backLinked_forward live sound.linked (by simp [unaimed]), ?_⟩, ?_⟩
  · intro g x id found
    rw [lookup?_forward] at found
    obtain ⟨s₀, live₀, nameOf, scopeOf⟩ := sound.bound g x id found
    obtain ⟨s', live', alike⟩ := live_forward live live₀
    exact ⟨s', live', alike.name ▸ nameOf, alike.scope ▸ scopeOf⟩
  · intro id s' p live' file
    obtain ⟨s₀, live₀, alike⟩ := symbol?_of_forward live live'
    rw [byKey_of_layout same, ← alike.scope]
    exact sound.homed id s₀ p live₀ (alike.file?.trans file)
  · intro id s' live' file
    obtain ⟨-, rfl⟩ | ⟨-, live'⟩ := (view id s').1 live'
    · exact absurd file sited
    · exact sound.builtin id s' live' file
  · intro id s' u live' aims
    obtain ⟨-, rfl⟩ | ⟨-, live'⟩ := (view id s').1 live'
    · cases aims
      exact ⟨declares, t, (view target t).2 (.inr ⟨apart target t liveTarget defines, liveTarget⟩),
        selfTarget, defines, name, scope⟩
    · obtain ⟨forward, w, liveW, self, real, facts⟩ := sound.aimed id s' u live' aims
      exact ⟨forward, w, (view u w).2 (.inr ⟨apart u w liveW real, liveW⟩), self, real, facts⟩
  · intro p id
    rw [slotsOf_forward, sound.filed]
    constructor
    · rintro ⟨s₀, live₀, owned⟩
      obtain ⟨s', live', alike⟩ := live_forward live live₀
      exact ⟨s', live', alike.ownedBy.1 owned⟩
    · rintro ⟨s', live', owned⟩
      obtain ⟨s₀, live₀, alike⟩ := symbol?_of_forward live live'
      exact ⟨s₀, live₀, alike.ownedBy.2 owned⟩

/-! ### New scopes -/

theorem layered_withScope {st : ScopeStore} (layered : st.Layered) (key : Path) :
    (st.withScope key).Layered where
  nonempty := by simp
  top := by
    rw [parent?_withScope, if_neg (Nat.ne_of_lt layered.nonempty : globalScope ≠ _)]
    exact layered.top
  below g positive inside := by
    rw [size_withScope] at inside
    rw [parent?_withScope]
    split
    · rfl
    · exact layered.below g positive (by omega)
  keyed k g found := by
    have nonempty := layered.nonempty
    rw [byKey_withScope] at found
    rw [size_withScope]
    split at found
    · cases found
      exact ⟨nonempty, by omega⟩
    · have := layered.keyed k g found
      omega
  distinct k k' g found found' := by
    rw [byKey_withScope] at found found'
    split at found <;> split at found'
    · next same same' => rw [same, same']
    · cases found
      exact absurd (layered.keyed k' _ found').2 (Nat.lt_irrefl _)
    · cases found'
      exact absurd (layered.keyed k _ found).2 (Nat.lt_irrefl _)
    · exact layered.distinct k k' g found found'

section WithScope

variable {st : ScopeStore} {key : Path} (absent : st.byKey.get? key = none)

include absent

/-- The other directories keep their scopes. -/
theorem byKey_withScope_of_found {k : Path} {g : Nat} (found : st.byKey.get? k = some g) :
    (st.withScope key).byKey.get? k = some g := by
  rw [byKey_withScope, if_neg, found]
  intro same
  rw [PathTable.get?_congr _ same, absent] at found
  cases found

theorem sound_withScope (sound : st.Sound) : (st.withScope key).Sound := by
  refine ⟨⟨layered_withScope sound.layered key, ⟨sound.slots.nodup, sound.slots.inside,
    sound.slots.dead⟩, ?_, ?_, sound.builtin, sound.linked, sound.aimed⟩, sound.filed⟩
  · intro g x id found
    rw [lookup?_withScope] at found
    exact sound.bound g x id found
  · intro id s p live file
    exact byKey_withScope_of_found absent (sound.homed id s p live file)

end WithScope

/-- The scope of a directory, in a store that has one for it. -/
theorem scopeFor_spec {st : ScopeStore} (sound : st.Sound) (key : Path) :
    (st.scopeFor key).1.Sound ∧ (st.scopeFor key).1.byKey.get? key = some (st.scopeFor key).2 ∧
      (∀ k g, st.byKey.get? k = some g → (st.scopeFor key).1.byKey.get? k = some g) ∧
      (∀ id, (st.scopeFor key).1.symbol? id = st.symbol? id) ∧
      (∀ g x, (st.scopeFor key).1.lookup? g x = st.lookup? g x) := by
  cases found : st.scopeFor? key with
  | some id =>
    rw [scopeFor_of_found found]
    exact ⟨sound, found, fun _ _ h => h, fun _ => rfl, fun _ _ => rfl⟩
  | none =>
    rw [scopeFor_of_absent found]
    refine ⟨sound_withScope found sound, ?_, fun k g => byKey_withScope_of_found found,
      symbol?_withScope st key, lookup?_withScope st key⟩
    rw [byKey_withScope, if_pos rfl]

/-! ### The first store -/

theorem sound_empty : empty.Sound where
  layered := {
    nonempty := by decide
    top := rfl
    below := by
      intro g positive inside
      have one : empty.scopes.size = 1 := rfl
      omega
    keyed := by
      intro k g found
      cases found
    distinct := by
      intro k k' g found
      cases found }
  slots := ⟨List.nodup_nil, by simp [empty], by simp [empty]⟩
  bound g x id found := by
    cases g with
    | zero => cases found
    | succ g => simp [lookup?, empty] at found
  homed id s p live := by simp [symbol?, empty] at live
  builtin id s live := by simp [symbol?, empty] at live
  linked t source := by
    constructor
    · intro found
      cases found
    · rintro ⟨s, live, _⟩
      simp [symbol?, empty] at live
  aimed id s t live := by simp [symbol?, empty] at live
  filed p id := by
    constructor
    · intro listed
      cases listed
    · rintro ⟨s, live, _⟩
      simp [symbol?, empty] at live

/-- Binding a built-in name. -/
theorem sound_define_builtin {st : ScopeStore} (sound : st.Sound) (name : String)
    (c : Classification) (files : ∀ id s, st.symbol? id = some s → s.file? = none) :
    (st.define { name, classification := c, scope := globalScope }).1.Sound ∧
      ∀ id s, (st.define { name, classification := c, scope := globalScope }).1.symbol? id = some s →
        s.file? = none := by
  unfold define
  split
  · exact ⟨sound, files⟩
  · have admitted : st.Admitted { name, classification := c, scope := globalScope } :=
      ⟨rfl, fun p file => (by cases file), fun _ => rfl⟩
    have live := symbol?_allocate_self sound.slots { name, classification := c, scope := globalScope }
    refine ⟨sound_bind (sound_allocate sound admitted) live sound.layered.nonempty, ?_⟩
    intro id s live'
    rw [symbol?_modifyNames, symbol?_allocate_eq_some sound.slots] at live'
    obtain ⟨-, rfl⟩ | live' := live'
    · rfl
    · exact files id s live'

end GrammarIndex.ScopeStore
