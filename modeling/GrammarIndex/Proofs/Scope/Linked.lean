import GrammarIndex.Proofs.Scope.Represented

/-!
Where links lead, whatever is put into a store.

A store keeps one back link for each symbol that is stood for. As long as no symbol is stood for by
two, the back links are the links read backwards, and a removal finds every symbol that loses what
it stands for: it stands for itself again, and nothing that takes the emptied slot later is reached
through it. With two symbols that stand for one, the second back link replaces the first.
-/
namespace GrammarIndex

/-- The symbol, standing for itself unless what it stands for is live in the store. -/
def Symbol.keeping (st : ScopeStore) (s : Symbol) : Symbol :=
  { s with target := s.target.filter fun t => (st.symbol? t).isSome }

theorem Symbol.keeping_of_live {st : ScopeStore} {s : Symbol}
    (live : ∀ t, s.target = some t → (st.symbol? t).isSome = true) : s.keeping st = s := by
  obtain ⟨_, _, _, _, target, _⟩ := s
  cases target with
  | none => rfl
  | some t => simp [Symbol.keeping, live t rfl]

/-- With `id` removed and all others left, a symbol is released as it is kept. -/
theorem Symbol.release_eq_keeping {st : ScopeStore} {id : Nat} {s : Symbol}
    (gone : st.symbol? id = none)
    (live : ∀ t, t ≠ id → s.target = some t → (st.symbol? t).isSome = true) :
    s.release id = s.keeping st := by
  obtain ⟨_, _, _, _, target, _⟩ := s
  cases target with
  | none => simp [Symbol.release, Symbol.keeping]
  | some t =>
    by_cases here : t = id
    · simp [Symbol.release, Symbol.keeping, here, gone, Option.filter_some]
    · simp [Symbol.release, Symbol.keeping, here, live t here rfl, Option.filter_some]

namespace ScopeStore

/-! ### What may be asked -/

/-- The store after operations. -/
def performed (operations : List Operation) : ScopeStore := operations.foldl perform empty

/-- A new symbol stands for itself, and both ends of a new link are live. -/
def Allowed (st : ScopeStore) : Operation → Prop
  | .define s | .allocate s => s.target = none
  | .forward source target => (st.symbol? source).isSome = true ∧ (st.symbol? target).isSome = true
  | .scopeFor _ | .removeFile .. => True

/-- No other symbol stands for the end of a new link. -/
def Unshared (st : ScopeStore) : Operation → Prop
  | .forward source target =>
    ∀ id ∈ st.liveSlots, (st.symbol? id).bind (·.target) = some target → id = source
  | _ => True

/-- A condition on each operation and the store that it is asked of. -/
def Throughout (P : ScopeStore → Operation → Prop) : ScopeStore → List Operation → Prop
  | _, [] => True
  | st, operation :: operations => P st operation ∧ Throughout P (st.perform operation) operations

instance (st : ScopeStore) (operation : Operation) : Decidable (st.Allowed operation) := by
  cases operation <;> unfold Allowed <;> infer_instance

instance (st : ScopeStore) (operation : Operation) : Decidable (st.Unshared operation) := by
  cases operation <;> unfold Unshared <;> infer_instance

instance decidableThroughout {P : ScopeStore → Operation → Prop}
    [∀ st operation, Decidable (P st operation)] :
    (st : ScopeStore) → (operations : List Operation) → Decidable (Throughout P st operations)
  | _, [] => isTrue trivial
  | st, operation :: operations =>
    haveI := decidableThroughout (P := P) (st.perform operation) operations
    inferInstanceAs (Decidable (P st operation ∧ Throughout P (st.perform operation) operations))

theorem mem_liveSlots {st : ScopeStore} {id : Nat} {s : Symbol} (live : st.symbol? id = some s) :
    id ∈ st.liveSlots := by
  refine List.mem_filter.2 ⟨List.mem_range.2 (lt_slots_of_symbol? live), ?_⟩
  rw [live]
  rfl

/-! ### Links -/

/-- Every link leads to a live symbol and has its back link. -/
structure Linked (st : ScopeStore) : Prop where
  back : st.BackLinked
  live : ∀ id s t, st.symbol? id = some s → s.target = some t → (st.symbol? t).isSome = true

theorem linked_empty : empty.Linked := by
  have dead : ∀ id, empty.symbol? id = none := by simp [empty, symbol?]
  refine ⟨fun t source => iff_of_false (fun found => by cases found) ?_, fun id s t live => ?_⟩
  · rintro ⟨s, live, _⟩
    rw [dead] at live
    cases live
  · rw [dead] at live
    cases live

/-- Only symbols and back links matter. -/
theorem Linked.congr {st st' : ScopeStore} (linked : st.Linked)
    (symbols : ∀ id, st'.symbol? id = st.symbol? id)
    (links : ∀ t, st'.forwarders.get? t = st.forwarders.get? t) : st'.Linked where
  back t source := by
    rw [links, linked.back]
    simp only [symbols]
  live id s t live aimed := by
    rw [symbols] at live ⊢
    exact linked.live id s t live aimed

theorem linked_scopeFor {st : ScopeStore} (linked : st.Linked) (key : Path) :
    (st.scopeFor key).1.Linked := by
  unfold scopeFor
  split
  · exact linked
  · exact linked.congr (fun _ => rfl) fun _ => rfl

/-- A new symbol stands for itself, so it brings no link. -/
theorem linked_allocate {st : ScopeStore} (linked : st.Linked) (slots : st.FreeSlots) {s : Symbol}
    (self : s.target = none) : (st.allocate s).1.Linked := by
  have old : ∀ {id s'}, st.symbol? id = some s' → (st.allocate s).1.symbol? id = some s' :=
    symbol?_allocate_of_live slots s
  have before : ∀ {id s' t}, (st.allocate s).1.symbol? id = some s' → s'.target = some t →
      st.symbol? id = some s' := by
    intro id s' t live aimed
    obtain ⟨-, rfl⟩ | live := (symbol?_allocate_eq_some slots s id s').1 live
    · rw [self] at aimed
      cases aimed
    · exact live
  refine ⟨fun t source => ?_, fun id s' t live aimed => ?_⟩
  · rw [forwarders_allocate, linked.back]
    exact ⟨fun ⟨s', live, aimed⟩ => ⟨s', old live, aimed⟩,
      fun ⟨s', live, aimed⟩ => ⟨s', before live aimed, aimed⟩⟩
  · obtain ⟨u, liveU⟩ := Option.isSome_iff_exists.1 (linked.live id s' t (before live aimed) aimed)
    rw [old liveU]
    rfl

theorem linked_define {st : ScopeStore} (linked : st.Linked) (slots : st.FreeSlots) {s : Symbol}
    (self : s.target = none) : (st.define s).1.Linked := by
  unfold define
  split
  · exact linked
  · exact (linked_allocate linked slots self).congr (fun _ => rfl) fun _ => rfl

/-- A link to a symbol that no other stands for. -/
theorem linked_link {st : ScopeStore} (linked : st.Linked) {source target : Nat}
    (allowed : st.Allowed (.forward source target))
    (unshared : st.Unshared (.forward source target)) : (st.forward source target).Linked := by
  obtain ⟨from_, to_⟩ := allowed
  obtain ⟨s, live⟩ := Option.isSome_iff_exists.1 from_
  have alive : ∀ t, (st.symbol? t).isSome = true →
      ((st.forward source target).symbol? t).isSome = true := by
    intro t some_
    rw [symbol?_forward live]
    split
    · rfl
    · exact some_
  refine ⟨backLinked_forward live linked.back fun j found => ?_, fun id s' t live' aimed => ?_⟩
  · obtain ⟨s', live', aimed⟩ := (linked.back target j).1 found
    exact unshared j (mem_liveSlots live') (by rw [live']; exact aimed)
  · obtain ⟨-, rfl⟩ | ⟨-, live'⟩ := (symbol?_forward_eq_some live id s').1 live'
    · cases aimed
      exact alive target to_
    · exact alive t (linked.live id s' t live' aimed)

/-! ### Removals -/

/-- Of the symbols of one store some are left in another, and what stood for one that is gone
stands for itself. -/
def Shed (st st' : ScopeStore) : Prop :=
  ∀ id s', st'.symbol? id = some s' → ∃ s, st.symbol? id = some s ∧ s' = s.keeping st'

theorem shed_refl {st : ScopeStore} (linked : st.Linked) : st.Shed st :=
  fun id s live => ⟨s, live, (Symbol.keeping_of_live fun t => linked.live id s t live).symm⟩

theorem Shed.trans {st st' st'' : ScopeStore} (first : st.Shed st') (second : st'.Shed st'') :
    st.Shed st'' := by
  intro id s'' live''
  obtain ⟨s', live', rfl⟩ := second id s'' live''
  obtain ⟨s, live, rfl⟩ := first id s' live'
  refine ⟨s, live, ?_⟩
  cases aimed : s.target with
  | none => simp [Symbol.keeping, aimed]
  | some t =>
    cases last : st''.symbol? t with
    | none => simp [Symbol.keeping, aimed, last, Option.filter_some]
    | some u =>
      -- What is live in the end was live in between.
      obtain ⟨u', between, _⟩ := second t u last
      simp [Symbol.keeping, aimed, last, between, Option.filter_some]

theorem linked_without {st : ScopeStore} (linked : st.Linked) {id : Nat} {s : Symbol}
    (live : st.symbol? id = some s) :
    (st.without id s).Linked ∧ st.Shed (st.without id s) := by
  have view := symbol?_without_of_linked linked.back live
  have alive : ∀ t, t ≠ id → (st.symbol? t).isSome = true →
      ((st.without id s).symbol? t).isSome = true := by
    intro t apart some_
    rw [view, if_neg apart, Option.isSome_map]
    exact some_
  refine ⟨⟨backLinked_without linked.back live, fun j s' t live' aimed => ?_⟩, fun j s' live' => ?_⟩
  · rw [view] at live'
    split at live'
    · cases live'
    · obtain ⟨s₀, live₀, rfl⟩ := Option.map_eq_some_iff.1 live'
      obtain ⟨aimed₀, apart⟩ := (Symbol.target_release id s₀ t).1 aimed
      exact alive t apart (linked.live j s₀ t live₀ aimed₀)
  · rw [view] at live'
    split at live'
    · cases live'
    · obtain ⟨s₀, live₀, rfl⟩ := Option.map_eq_some_iff.1 live'
      have gone : (st.without id s).symbol? id = none := by rw [view, if_pos rfl]
      exact ⟨s₀, live₀, Symbol.release_eq_keeping gone fun t apart aimed =>
        alive t apart (linked.live j s₀ t live₀ aimed)⟩

theorem linked_step {p : Purge} (linked : p.store.Linked) (scope id : Nat) :
    (Purge.step scope p id).store.Linked ∧ p.store.Shed (Purge.step scope p id).store := by
  cases live : p.store.symbol? id with
  | none =>
    rw [Purge.step_dead live]
    exact ⟨linked, shed_refl linked⟩
  | some s =>
    by_cases here : s.scope = scope
    · rw [Purge.step_live live here]
      exact linked_without linked live
    · have kept : (Purge.step scope p id).store = p.store := by
        simp only [Purge.step, live, ne_eq, here, not_false_eq_true, if_true]
      rw [kept]
      exact ⟨linked, shed_refl linked⟩

theorem linked_foldl (scope : Nat) (ids : List Nat) {p : Purge} (linked : p.store.Linked) :
    (ids.foldl (Purge.step scope) p).store.Linked ∧
      p.store.Shed (ids.foldl (Purge.step scope) p).store := by
  induction ids generalizing p with
  | nil => exact ⟨linked, shed_refl linked⟩
  | cons id ids ih =>
    obtain ⟨one, first⟩ := linked_step linked scope id
    obtain ⟨all, rest⟩ := ih one
    exact ⟨all, first.trans rest⟩

/-- What a removal leaves is linked, and whatever lost what it stood for stands for itself. -/
theorem linked_removeFile {st : ScopeStore} (linked : st.Linked) (scope : Nat) (file : Path) :
    (st.removeFile scope file).1.Linked ∧ st.Shed (st.removeFile scope file).1 := by
  unfold removeFile
  cases found : st.byFile.get? file with
  | none => exact ⟨linked, shed_refl linked⟩
  | some owned =>
    obtain ⟨purged, shed⟩ := linked_foldl scope owned
      (p := ⟨{ st with byFile := st.byFile.erase file }, [], []⟩)
      (linked.congr (fun _ => rfl) fun _ => rfl)
    simp only
    split
    · exact ⟨purged, shed⟩
    · exact ⟨purged.congr (fun _ => rfl) fun _ => rfl, shed⟩

/-! ### Runs -/

theorem linked_perform {st : ScopeStore} (linked : st.Linked) (slots : st.FreeSlots)
    {operation : Operation} (allowed : st.Allowed operation) (unshared : st.Unshared operation) :
    (st.perform operation).Linked := by
  cases operation with
  | scopeFor key => exact linked_scopeFor linked key
  | define s => exact linked_define linked slots allowed
  | allocate s => exact linked_allocate linked slots allowed
  | forward source target => exact linked_link linked allowed unshared
  | removeFile scope file => exact (linked_removeFile linked scope file).1

theorem linked_foldl_perform (operations : List Operation) {st : ScopeStore}
    (books : st.Represented) (linked : st.Linked) (allowed : Throughout Allowed st operations)
    (unshared : Throughout Unshared st operations) :
    (operations.foldl perform st).Represented ∧ (operations.foldl perform st).Linked := by
  induction operations generalizing st with
  | nil => exact ⟨books, linked⟩
  | cons operation operations ih =>
    exact ih (represented_perform books operation)
      (linked_perform linked books.slots allowed.1 unshared.1) allowed.2 unshared.2

/-- After any operations that make no two symbols stand for one, every symbol stands for itself or
for a live one, whose slot no new symbol takes. And when a file is removed, what is left stands for
what it stood for if that is left, too, and for itself if it is not. -/
theorem targets_live (operations : List Operation) (allowed : Throughout Allowed empty operations)
    (unshared : Throughout Unshared empty operations) :
    let st := performed operations
    (∀ id s t, st.symbol? id = some s → s.target = some t →
        (st.symbol? t).isSome = true ∧ ∀ new, (st.allocate new).2 ≠ t) ∧
      ∀ scope file id s', (st.removeFile scope file).1.symbol? id = some s' →
        ∃ s, st.symbol? id = some s ∧ s' = { s with
          target := s.target.filter fun t =>
            ((st.removeFile scope file).1.symbol? t).isSome } := by
  intro st
  obtain ⟨books, linked⟩ : st.Represented ∧ st.Linked :=
    linked_foldl_perform operations represented_empty linked_empty allowed unshared
  refine ⟨fun id s t live aimed => ?_, fun scope file => (linked_removeFile linked scope file).2⟩
  have some_ := linked.live id s t live aimed
  refine ⟨some_, ?_⟩
  rintro new rfl
  rw [show st.symbol? _ = none from allocate_fresh books.slots new] at some_
  cases some_

/-- Two announcements, each of which is made to stand for a definition of its own; the second one is
led back to itself and then to its definition again. -/
def linkedTwice : List Operation :=
  let symbol (name : String) (file : Path) : Symbol :=
    { name, classification := .terminal, scope := 1, site := some ⟨file, 0, ⟨0, 1⟩⟩ }
  [.scopeFor (.of "g"), .define (symbol "A" (.of "g/a.g4")), .define (symbol "B" (.of "g/b.g4")),
    .allocate (symbol "A" (.of "g/c.g4")), .forward 0 2, .allocate (symbol "B" (.of "g/d.g4")),
    .forward 1 3, .forward 1 1, .forward 1 3]

/-- The first announcement stands for a live definition, and for itself once that is removed. -/
theorem targets_live_linkedTwice :
    let st := performed linkedTwice
    let st' := (st.removeFile 1 (.of "g/c.g4")).1
    Throughout Allowed empty linkedTwice ∧ Throughout Unshared empty linkedTwice ∧
      (∃ s, st.symbol? 0 = some s ∧ s.target = some 2 ∧ (st.symbol? 2).isSome = true ∧
        ∀ new, (st.allocate new).2 ≠ 2) ∧
      ∃ s', st'.symbol? 0 = some s' ∧ s'.target = none := by
  have allowed : Throughout Allowed empty linkedTwice := by decide +kernel
  have unshared : Throughout Unshared empty linkedTwice := by decide +kernel
  obtain ⟨live, left⟩ := targets_live linkedTwice allowed unshared
  obtain ⟨s, here, aimed⟩ : ∃ s, (performed linkedTwice).symbol? 0 = some s ∧ s.target = some 2 :=
    Option.bind_eq_some_iff.1 (by decide +kernel)
  obtain ⟨s', kept⟩ := Option.isSome_iff_exists.1
    (show (((performed linkedTwice).removeFile 1 (.of "g/c.g4")).1.symbol? 0).isSome = true by
      decide +kernel)
  have gone : ((performed linkedTwice).removeFile 1 (.of "g/c.g4")).1.symbol? 2 = none := by
    decide +kernel
  obtain ⟨s₀, here₀, rfl⟩ := left 1 (.of "g/c.g4") 0 s' kept
  obtain rfl : s = s₀ := Option.some.inj (here.symm.trans here₀)
  refine ⟨allowed, unshared, ⟨s, here, aimed, live 0 s 2 here aimed⟩, _, kept, ?_⟩
  simp only [aimed, Option.filter_some, gone, Option.isSome_none, Bool.false_eq_true, if_false]

/-- Two announcements that stand for one definition, whose file is removed. -/
def sharedTarget : List Operation :=
  let symbol (name : String) (file : Path) : Symbol :=
    { name, classification := .terminal, scope := 1, site := some ⟨file, 0, ⟨0, 1⟩⟩ }
  [.scopeFor (.of "g"), .define (symbol "A" (.of "g/a.g4")), .define (symbol "B" (.of "g/b.g4")),
    .allocate (symbol "C" (.of "g/c.g4")), .forward 0 2, .forward 1 2,
    .removeFile 1 (.of "g/c.g4")]

/-- Only the later one falls back. The first one is left with an emptied slot, and whatever is
defined next takes the slot and is what the announcement resolves to. -/
theorem dangling_sharedTarget :
    let st := performed sharedTarget
    let new : Symbol :=
      { name := "X", classification := .terminal, scope := 1, site := some ⟨.of "g/x.g4", 0, ⟨0, 1⟩⟩ }
    Throughout Allowed empty sharedTarget ∧
      (st.symbol? 0).bind (·.target) = some 2 ∧ st.symbol? 2 = none ∧
      (st.symbol? 1).map (·.target) = some none ∧
      (st.define new).2 = .bound 2 ∧ (st.define new).1.resolveTarget? 1 "A" = some 2 := by
  decide +kernel

end ScopeStore

end GrammarIndex
