import GrammarIndex.Proofs.Scope.Purge
import Mathlib.Data.List.Basic

/-!
How a scope store keeps its books, whatever is put into it.

Slots, free list, bound names, the slots listed for files and the scopes of directories fit together
after any operations, also with symbols that no file binds and with links that lead anywhere; and
the store has as many slots as there were ever live symbols at one time.
-/
namespace GrammarIndex.ScopeStore

/-! ### Operations -/

/-- What can be asked of a store. -/
inductive Operation where
  | scopeFor (key : Path)
  | define (s : Symbol)
  | allocate (s : Symbol)
  | forward (source target : Nat)
  | removeFile (scope : Nat) (file : Path)

/-- The store after an operation. -/
def perform (st : ScopeStore) : Operation → ScopeStore
  | .scopeFor key => (st.scopeFor key).1
  | .define s => (st.define s).1
  | .allocate s => (st.allocate s).1
  | .forward source target => st.forward source target
  | .removeFile scope file => (st.removeFile scope file).1

/-- One operation more, with the largest number of live symbols so far. -/
def watch (seen : ScopeStore × Nat) (operation : Operation) : ScopeStore × Nat :=
  let st := seen.1.perform operation
  (st, max seen.2 st.liveCount)

/-- The store after operations, and the largest number of live symbols on the way there. -/
def watched (operations : List Operation) : ScopeStore × Nat :=
  operations.foldl watch (empty, empty.liveCount)

/-! ### The books -/

/-- Directory and parent of a scope. -/
def place? (st : ScopeStore) (g : Nat) : Option (Option Path × Option Nat) :=
  st.scopes[g]?.map fun s => (s.key, s.parent)

/-- The slots that hold a symbol. -/
def liveSlots (st : ScopeStore) : List Nat :=
  (List.range st.slots.size).filter fun id => (st.symbol? id).isSome

/-- Scopes, slots and bound names fit together. -/
structure Housed (st : ScopeStore) : Prop where
  top : st.place? globalScope = some (none, none)
  below : ∀ g, 0 < g → g < st.scopes.size → ∃ k, st.place? g = some (some k, some globalScope)
  directories : ∀ k g, st.byKey.get? k = some g ↔
    ∃ k' parent, st.place? g = some (some k', parent) ∧ k'.components = k.components
  slots : st.FreeSlots
  spare : ∀ id < st.slots.size, st.symbol? id = none → id ∈ st.free
  bound : ∀ g x id, st.lookup? g x = some id →
    ∃ s, st.symbol? id = some s ∧ s.name = x ∧ s.scope = g

/-- The slots listed for files are those of their live symbols, each listed once; the pending ones
belong to the given file and are listed nowhere. -/
structure Filed (st : ScopeStore) (file : Path) (pending : List Nat) : Prop where
  listed : ∀ p id, (id ∈ st.slotsOf p ∨ p.components = file.components ∧ id ∈ pending) ↔
    ∃ s, st.symbol? id = some s ∧ s.OwnedBy p
  once : ∀ p, (st.slotsOf p).Nodup
  pendingOnce : pending.Nodup
  emptied : pending ≠ [] → st.slotsOf file = []

/-- All books are in order. -/
structure Represented (st : ScopeStore) : Prop extends Housed st where
  filed : ∀ file, st.Filed file []

theorem place?_of_layout {st st' : ScopeStore} (same : st'.layout = st.layout) (g : Nat) :
    st'.place? g = st.place? g := by
  have cell := congrArg (fun a => a[g]?) (congrArg Prod.fst same)
  simpa [layout, place?, Array.getElem?_map] using cell

theorem lookup?_empty (g : Nat) (x : String) : empty.lookup? g x = none := by
  cases g <;> rfl

theorem represented_empty : empty.Represented := by
  have dead : ∀ id, empty.symbol? id = none := by simp [empty, symbol?]
  refine ⟨⟨rfl, ?_, ?_, ⟨List.nodup_nil, by simp [empty], by simp [empty]⟩, by simp [empty], ?_⟩, ?_⟩
  · intro g positive inside
    simp [empty] at inside
    omega
  · intro k g
    refine iff_of_false (fun found => by cases found) ?_
    rintro ⟨k', parent, found, _⟩
    cases g <;> cases found
  · intro g x id found
    rw [lookup?_empty] at found
    cases found
  · intro file
    refine ⟨fun p id => iff_of_false ?_ ?_, fun p => List.nodup_nil, List.nodup_nil, by simp⟩
    · simp [slotsOf, empty]
    · rintro ⟨s, live, _⟩
      rw [dead] at live
      cases live

/-! ### Scopes -/

theorem place?_withScope (st : ScopeStore) (key : Path) (g : Nat) :
    (st.withScope key).place? g =
      if g = st.scopes.size then some (some key, some globalScope) else st.place? g := by
  simp only [place?, withScope, Array.getElem?_push]
  split <;> rfl

theorem place?_eq_none {st : ScopeStore} : st.place? st.scopes.size = none := by
  rw [place?, Array.getElem?_eq_none (Nat.le_refl _)]
  rfl

/-- A scope that is made gets the next number and the directory it was made for. -/
theorem represented_scopeFor {st : ScopeStore} (books : st.Represented) (key : Path) :
    (st.scopeFor key).1.Represented := by
  cases found : st.scopeFor? key with
  | some id =>
    rw [scopeFor_of_found found]
    exact books
  | none =>
    have some_ : 0 < st.scopes.size := Nat.pos_of_ne_zero fun none_ => by
      have top := books.top
      rw [globalScope, ← none_, place?_eq_none] at top
      cases top
    rw [scopeFor_of_absent found]
    refine ⟨⟨?_, fun g positive inside => ?_, fun k g => ?_, ⟨books.slots.nodup, books.slots.inside,
      books.slots.dead⟩, books.spare, fun g x id bound => ?_⟩, fun file => ?_⟩
    · rw [place?_withScope, if_neg (Nat.ne_of_lt some_ : globalScope ≠ _)]
      exact books.top
    · rw [place?_withScope]
      rw [size_withScope] at inside
      split
      · exact ⟨key, rfl⟩
      · exact books.below g positive (by omega)
    · rw [place?_withScope, byKey_withScope]
      by_cases here : g = st.scopes.size
      · subst here
        have unknown : st.byKey.get? k ≠ some st.scopes.size := fun listed => by
          obtain ⟨k', parent, place, _⟩ := (books.directories k _).1 listed
          rw [place?_eq_none] at place
          cases place
        by_cases same : k.components = key.components
        · simp [same]
        · simp [same, unknown, Ne.symm same]
      · rw [if_neg here, ← books.directories]
        by_cases same : k.components = key.components
        · have absent : st.byKey.get? k = none := (PathTable.get?_congr _ same).trans found
          simp [same, absent, Ne.symm here]
        · rw [if_neg same]
    · rw [lookup?_withScope] at bound
      exact books.bound g x id bound
    · exact ⟨(books.filed file).listed, (books.filed file).once, List.nodup_nil, by simp⟩

/-! ### Symbols -/

/-- Nothing but targets has changed. -/
structure Retargeted (st st' : ScopeStore) : Prop where
  layout : st'.layout = st.layout
  names : ∀ g x, st'.lookup? g x = st.lookup? g x
  files : ∀ p, st'.slotsOf p = st.slotsOf p
  free : st'.free = st.free
  size : st'.slots.size = st.slots.size
  symbols : ∀ id, ∃ f : Symbol → Symbol, (∀ s : Symbol, s.Alike (f s)) ∧
    st'.symbol? id = (st.symbol? id).map f

theorem retargeted_forward (st : ScopeStore) (source target : Nat) :
    st.Retargeted (st.forward source target) := by
  refine ⟨layout_forward, lookup?_forward, slotsOf_forward, ?_, ?_, fun id => ?_⟩
  · unfold forward
    split <;> rfl
  · unfold forward
    split
    · rfl
    · simp [modifySymbol]
  · cases live : st.symbol? source with
    | none => exact ⟨fun s => s, Symbol.Alike.refl, by simp [forward, live]⟩
    | some s =>
      rw [symbol?_forward live]
      split
      · next here => exact ⟨_, fun s => .retarget s target, by rw [here, live]; rfl⟩
      · exact ⟨fun s => s, Symbol.Alike.refl, by simp⟩

theorem Housed.retargeted {st st' : ScopeStore} (housed : st.Housed) (same : st.Retargeted st') :
    st'.Housed := by
  have dead : ∀ id, st'.symbol? id = none ↔ st.symbol? id = none := by
    intro id
    obtain ⟨f, _, view⟩ := same.symbols id
    rw [view, Option.map_eq_none_iff]
  refine ⟨?_, fun g positive inside => ?_, fun k g => ?_, ⟨?_, fun id free => ?_, fun id free => ?_⟩,
    fun id inside empty_ => ?_, fun g x id bound => ?_⟩
  · rw [place?_of_layout same.layout]
    exact housed.top
  · rw [place?_of_layout same.layout]
    rw [size_of_layout same.layout] at inside
    exact housed.below g positive inside
  · rw [place?_of_layout same.layout, byKey_of_layout same.layout]
    exact housed.directories k g
  · rw [same.free]
    exact housed.slots.nodup
  · rw [same.free] at free
    rw [same.size]
    exact housed.slots.inside id free
  · rw [same.free] at free
    exact (dead id).2 (housed.slots.dead id free)
  · rw [same.size] at inside
    rw [same.free]
    exact housed.spare id inside ((dead id).1 empty_)
  · rw [same.names] at bound
    obtain ⟨s, live, name, scope⟩ := housed.bound g x id bound
    obtain ⟨f, alike, view⟩ := same.symbols id
    refine ⟨f s, by rw [view, live]; rfl, ?_, ?_⟩
    · rw [← (alike s).name]
      exact name
    · rw [← (alike s).scope]
      exact scope

theorem Represented.retargeted {st st' : ScopeStore} (books : st.Represented)
    (same : st.Retargeted st') : st'.Represented := by
  refine ⟨books.toHoused.retargeted same, fun file => ⟨fun p id => ?_, fun p => ?_, List.nodup_nil,
    by simp⟩⟩
  · obtain ⟨f, alike, view⟩ := same.symbols id
    rw [same.files, (books.filed file).listed, view]
    simp only [Option.map_eq_some_iff]
    constructor
    · rintro ⟨s, live, owned⟩
      exact ⟨f s, ⟨s, live, rfl⟩, (alike s).ownedBy.1 owned⟩
    · rintro ⟨_, ⟨s, live, rfl⟩, owned⟩
      exact ⟨s, live, (alike s).ownedBy.2 owned⟩
  · rw [same.files]
    exact (books.filed file).once p

theorem slotsOf_allocate (st : ScopeStore) (s : Symbol) (p : Path) :
    (st.allocate s).1.slotsOf p =
      if s.OwnedBy p then st.slotsOf p ++ [(st.allocate s).2] else st.slotsOf p := by
  have files : (st.allocate s).1.byFile = s.file?.elim st.byFile fun file =>
      st.byFile.insert file (st.slotsOf file ++ [(st.allocate s).2]) := by
    unfold allocate
    cases s.file? <;> rfl
  cases file : s.file? with
  | none =>
    rw [file, Option.elim_none] at files
    simp [slotsOf, files, Symbol.OwnedBy, file]
  | some f =>
    rw [file, Option.elim_some] at files
    simp only [slotsOf, files, PathTable.get?_insert, Symbol.OwnedBy, file, Option.map_some,
      Option.some.injEq]
    by_cases same : p.components = f.components
    · rw [if_pos same, if_pos same.symm, PathTable.get?_congr st.byFile same]
      rfl
    · rw [if_neg same, if_neg (Ne.symm same)]

/-- A slot is free after an allocation if it was free and is not the one that was taken; every other
slot is as it was. -/
theorem spare_allocate {st : ScopeStore} (housed : st.Housed) (s : Symbol) :
    ∀ id < (st.allocate s).1.slots.size, (st.allocate s).1.symbol? id = none →
      id ∈ (st.allocate s).1.free := by
  intro id inside empty_
  rw [symbol?_allocate housed.slots s] at empty_
  split at empty_
  · cases empty_
  · next other =>
    unfold allocate at inside other ⊢
    cases free : st.free with
    | nil =>
      simp only [free, Array.size_push] at inside other
      have spare := housed.spare id (by omega) empty_
      rw [free] at spare
      cases spare
    | cons first rest =>
      simp only [free, Array.size_setIfInBounds] at inside other ⊢
      have spare := housed.spare id inside empty_
      rw [free] at spare
      exact (List.mem_cons.1 spare).resolve_left other

theorem represented_allocate {st : ScopeStore} (books : st.Represented) (s : Symbol) :
    (st.allocate s).1.Represented := by
  have unlisted : ∀ p, (st.allocate s).2 ∉ st.slotsOf p := by
    intro p listed
    obtain ⟨s', live, _⟩ := ((books.filed p).listed p _).1 (.inl listed)
    exact absurd rfl (ne_allocated books.slots s live)
  refine ⟨⟨books.top, books.below, books.directories, freeSlots_allocate books.slots s,
    spare_allocate books.toHoused s, fun g x id bound => ?_⟩, fun file => ⟨fun p id => ?_,
      fun p => ?_, List.nodup_nil, by simp⟩⟩
  · obtain ⟨s', live, facts⟩ := books.bound g x id bound
    exact ⟨s', symbol?_allocate_of_live books.slots s live, facts⟩
  · rw [mem_slotsOf_allocate, symbol?_allocate books.slots]
    have old := (books.filed file).listed p id
    simp only [List.not_mem_nil, and_false, or_false] at old ⊢
    rw [old]
    by_cases here : id = (st.allocate s).2
    · subst here
      simp [allocate_fresh books.slots]
    · simp [here]
  · rw [slotsOf_allocate]
    split
    · exact List.nodup_append.2 ⟨(books.filed file).once p, by simp, by
        intro a listed b last same
        rw [List.mem_singleton.1 last] at same
        exact unlisted p (same ▸ listed)⟩
    · exact (books.filed file).once p

/-- Binding a live symbol under its name in its scope. -/
theorem Housed.bind {st : ScopeStore} (housed : st.Housed) {id : Nat} {s : Symbol}
    (live : st.symbol? id = some s) :
    (st.modifyNames s.scope (·.insert s.name id)).Housed := by
  refine ⟨?_, ?_, ?_, ⟨housed.slots.nodup, housed.slots.inside, housed.slots.dead⟩, housed.spare,
    fun g x j found => ?_⟩
  · rw [place?_of_layout (layout_modifyNames _ _ _)]
    exact housed.top
  · intro g positive inside
    rw [place?_of_layout (layout_modifyNames _ _ _)]
    rw [size_of_layout (layout_modifyNames _ _ _)] at inside
    exact housed.below g positive inside
  · intro k g
    rw [place?_of_layout (layout_modifyNames _ _ _)]
    exact housed.directories k g
  · rw [symbol?_modifyNames]
    rw [lookup?_modifyNames] at found
    split at found
    · next here =>
      obtain ⟨scope, exists_, named⟩ := Option.bind_eq_some_iff.1 found
      rw [Table.get?_insert_lawful] at named
      split at named
      · next same =>
        cases named
        exact ⟨s, live, same.symm, here.symm⟩
      · refine housed.bound g x j ?_
        rw [lookup?, exists_]
        exact named
    · exact housed.bound g x j found

theorem represented_define {st : ScopeStore} (books : st.Represented) (s : Symbol) :
    (st.define s).1.Represented := by
  cases found : st.lookup? s.scope s.name with
  | some existing =>
    have same : (st.define s).1 = st := by simp only [define, found]
    rw [same]
    exact books
  | none =>
    have made : (st.define s).1 =
        (st.allocate s).1.modifyNames s.scope (·.insert s.name (st.allocate s).2) := by
      simp only [define, found]
    have allocated := represented_allocate books s
    have live := symbol?_allocate_self books.slots s
    rw [made]
    refine ⟨allocated.toHoused.bind live, fun file => ?_⟩
    obtain ⟨listed, once, pendingOnce, emptied⟩ := allocated.filed file
    exact ⟨listed, once, pendingOnce, emptied⟩

/-! ### Purging -/

section Without

variable {st : ScopeStore} {id : Nat} {s : Symbol}

/-- Every other symbol keeps all but its target. -/
theorem exists_symbol?_without (st : ScopeStore) (id : Nat) (s : Symbol) (j : Nat) :
    ∃ f : Symbol → Symbol, (∀ s : Symbol, s.Alike (f s)) ∧
      (st.without id s).symbol? j = if j = id then none else (st.symbol? j).map f := by
  have vacated : (st.without id s).symbol? j = (st.vacate id s).symbol? j := by
    unfold without
    split <;> rfl
  have emptied : (st.cut id s).symbol? j = if j = id then none else st.symbol? j :=
    symbol?_clear st id j (id :: st.free)
  rw [vacated, vacate, symbol?_detach, emptied]
  by_cases here : j = id
  · exact ⟨fun s => s, .refl, by simp [here]⟩
  · simp only [here, if_false]
    split
    · exact ⟨Symbol.release id, Symbol.alike_release id, rfl⟩
    · exact ⟨fun s => s, .refl, by simp⟩

/-- The live symbols of a file are the same but for the one that was taken out. -/
theorem exists_owned_without {p : Path} (j : Nat) :
    (∃ s', (st.without id s).symbol? j = some s' ∧ s'.OwnedBy p) ↔
      j ≠ id ∧ ∃ s', st.symbol? j = some s' ∧ s'.OwnedBy p := by
  obtain ⟨f, alike, view⟩ := exists_symbol?_without st id s j
  rw [view]
  by_cases here : j = id
  · simp [here]
  · simp only [here, if_false, not_false_eq_true, true_and, ne_eq, Option.map_eq_some_iff]
    constructor
    · rintro ⟨_, ⟨s', live, rfl⟩, owned⟩
      exact ⟨s', live, (alike s').ownedBy.2 owned⟩
    · rintro ⟨s', live, owned⟩
      exact ⟨f s', ⟨s', live, rfl⟩, (alike s').ownedBy.1 owned⟩

theorem Housed.without (housed : st.Housed) (live : st.symbol? id = some s) :
    (st.without id s).Housed := by
  have same : (st.without id s).layout = st.layout := layout_without
  have dead : ∀ j, (st.without id s).symbol? j = none ↔ j = id ∨ st.symbol? j = none := by
    intro j
    obtain ⟨f, _, view⟩ := exists_symbol?_without st id s j
    rw [view]
    by_cases here : j = id <;> simp [here]
  refine ⟨?_, fun g positive inside => ?_, fun k g => ?_, ⟨?_, fun j free => ?_, fun j free => ?_⟩,
    fun j inside empty_ => ?_, fun g x j bound => ?_⟩
  · rw [place?_of_layout same]
    exact housed.top
  · rw [place?_of_layout same]
    rw [size_of_layout same] at inside
    exact housed.below g positive inside
  · rw [place?_of_layout same, byKey_of_layout same]
    exact housed.directories k g
  · rw [free_without]
    refine List.nodup_cons.2 ⟨fun listed => ?_, housed.slots.nodup⟩
    rw [housed.slots.dead id listed] at live
    cases live
  · rw [free_without] at free
    rw [size_without]
    rcases List.mem_cons.1 free with rfl | free
    · exact lt_slots_of_symbol? live
    · exact housed.slots.inside j free
  · rw [free_without] at free
    exact (dead j).2 ((List.mem_cons.1 free).imp_right (housed.slots.dead j))
  · rw [size_without] at inside
    rw [free_without, List.mem_cons]
    exact ((dead j).1 empty_).imp_right (housed.spare j inside)
  · rw [lookup?_without_of_bound housed.bound live] at bound
    split at bound
    · cases bound
    · next other =>
      obtain ⟨s', live', name, scope⟩ := housed.bound g x j bound
      obtain ⟨f, alike, view⟩ := exists_symbol?_without st id s j
      have apart : j ≠ id := by
        rintro rfl
        exact other bound
      refine ⟨f s', by rw [view, if_neg apart, live']; rfl, ?_, ?_⟩
      · rw [← (alike s').name]
        exact name
      · rw [← (alike s').scope]
        exact scope

end Without

/-- One slot of the purge: it is emptied, or kept for a scope that is not purged. -/
theorem books_step {scope id : Nat} {file : Path} {p : Purge} {rest : List Nat}
    (housed : p.store.Housed) (filed : p.store.Filed file (p.kept ++ id :: rest)) :
    (Purge.step scope p id).store.Housed ∧
      (Purge.step scope p id).store.Filed file ((Purge.step scope p id).kept ++ rest) := by
  obtain ⟨s, live, mine⟩ := (filed.listed file id).1 (.inr ⟨rfl, by simp⟩)
  by_cases here : s.scope = scope
  · obtain ⟨others, pendingOnce⟩ := List.nodup_cons.1 (List.perm_middle.nodup_iff.1 filed.pendingOnce)
    have emptied := filed.emptied (by simp)
    have unlisted : ∀ q, id ∉ p.store.slotsOf q := by
      intro q listed
      obtain ⟨s', live', owned⟩ := (filed.listed q id).1 (.inl listed)
      rw [live] at live'
      cases live'
      rw [slotsOf, PathTable.get?_congr _ (owned.unique mine), ← slotsOf, emptied] at listed
      cases listed
    have files : ∀ q, (p.store.without id s).slotsOf q = p.store.slotsOf q := fun q => by
      rw [slotsOf, byFile_without, slotsOf]
    rw [Purge.step_live live here]
    refine ⟨housed.without live, ⟨fun q j => ?_, fun q => ?_, pendingOnce, fun _ => ?_⟩⟩
    · rw [exists_owned_without, ← filed.listed, files]
      by_cases same : j = id
      · subst same
        simp only [unlisted, others, and_false, or_self, ne_eq, not_true_eq_false, false_and]
      · simp [same]
    · rw [files]
      exact filed.once q
    · rw [files]
      exact emptied
  · have kept : Purge.step scope p id = { p with kept := p.kept ++ [id] } := by
      simp only [Purge.step, live, ne_eq, here, not_false_eq_true, if_true]
    rw [kept, List.append_assoc]
    exact ⟨housed, filed⟩

theorem books_foldl (scope : Nat) (file : Path) (ids : List Nat) (p : Purge)
    (housed : p.store.Housed) (filed : p.store.Filed file (p.kept ++ ids)) :
    (ids.foldl (Purge.step scope) p).store.Housed ∧
      (ids.foldl (Purge.step scope) p).store.Filed file (ids.foldl (Purge.step scope) p).kept := by
  induction ids generalizing p with
  | nil => exact ⟨housed, by simpa using filed⟩
  | cons id ids ih =>
    obtain ⟨housed', filed'⟩ := books_step housed filed
    exact ih _ housed' filed'

theorem represented_of_filed {st : ScopeStore} (file : Path) (housed : st.Housed)
    (filed : st.Filed file []) : st.Represented := by
  refine ⟨housed, fun other => ⟨fun p id => ?_, filed.once, List.nodup_nil, by simp⟩⟩
  simpa using filed.listed p id

theorem represented_removeFile {st : ScopeStore} (books : st.Represented) (scope : Nat)
    (file : Path) : (st.removeFile scope file).1.Represented := by
  unfold removeFile
  cases found : st.byFile.get? file with
  | none => exact books
  | some owned =>
    have listed : st.slotsOf file = owned := by rw [slotsOf, found, Option.getD_some]
    have erased : ∀ p, ({ st with byFile := st.byFile.erase file } : ScopeStore).slotsOf p =
        if p.components = file.components then [] else st.slotsOf p := by
      intro p
      simp only [slotsOf, PathTable.get?_erase]
      split <;> rfl
    have before := books.filed file
    have housed : ({ st with byFile := st.byFile.erase file } : ScopeStore).Housed :=
      ⟨books.top, books.below, books.directories, ⟨books.slots.nodup, books.slots.inside,
        books.slots.dead⟩, books.spare, books.bound⟩
    have filed : ({ st with byFile := st.byFile.erase file } : ScopeStore).Filed file owned := by
      refine ⟨fun p id => ?_, fun p => ?_, listed ▸ before.once file, fun _ => ?_⟩
      · refine Iff.trans ?_ (before.listed p id)
        rw [erased]
        split
        · next same =>
          rw [slotsOf, PathTable.get?_congr _ same, ← slotsOf, listed]
          simp [same]
        · next other => simp [other]
      · rw [erased]
        split
        · exact List.nodup_nil
        · exact before.once p
      · rw [erased, if_pos rfl]
    obtain ⟨purged, rest⟩ := books_foldl scope file owned ⟨_, [], []⟩ housed
      (by simpa using filed)
    simp only
    generalize owned.foldl (Purge.step scope) ⟨{ st with byFile := st.byFile.erase file }, [], []⟩ = p
      at purged rest
    split
    · next none_ =>
      rw [List.isEmpty_iff.1 none_] at rest
      exact represented_of_filed file purged rest
    · next some_ =>
      have emptied := rest.emptied (by simpa using some_)
      have inserted : ∀ q, ({ p.store with byFile := p.store.byFile.insert file p.kept } :
          ScopeStore).slotsOf q =
            if q.components = file.components then p.kept else p.store.slotsOf q := by
        intro q
        simp only [slotsOf, PathTable.get?_insert]
        split <;> rfl
      refine represented_of_filed file ⟨purged.top, purged.below, purged.directories,
        ⟨purged.slots.nodup, purged.slots.inside, purged.slots.dead⟩, purged.spare, purged.bound⟩
        ⟨fun q id => Iff.trans ?_ (rest.listed q id), fun q => ?_, List.nodup_nil, by simp⟩
      · rw [inserted]
        split
        · next same =>
          rw [slotsOf, PathTable.get?_congr _ same, ← slotsOf, emptied]
          simp [same]
        · next other => simp [other]
      · rw [inserted]
        split
        · exact rest.pendingOnce
        · exact rest.once q

/-! ### Runs -/

/-- Every operation keeps the books. -/
theorem represented_perform {st : ScopeStore} (books : st.Represented) (operation : Operation) :
    (st.perform operation).Represented := by
  cases operation with
  | scopeFor key => exact represented_scopeFor books key
  | define s => exact represented_define books s
  | allocate s => exact represented_allocate books s
  | forward source target => exact books.retargeted (retargeted_forward st source target)
  | removeFile scope file => exact represented_removeFile books scope file

/-- The free slots are those that hold nothing. -/
theorem Housed.mem_free_iff {st : ScopeStore} (housed : st.Housed) (id : Nat) :
    id ∈ st.free ↔ st.slots[id]? = some none := by
  have hollow : st.slots[id]? = some none ↔ id < st.slots.size ∧ st.symbol? id = none := by
    unfold symbol?
    cases read : st.slots[id]? with
    | none => simp [Array.getElem?_eq_none_iff.1 read]
    | some slot => simp [(Array.getElem?_eq_some_iff.1 read).1]
  rw [hollow]
  exact ⟨fun free => ⟨housed.slots.inside id free, housed.slots.dead id free⟩,
    fun ⟨inside, dead⟩ => housed.spare id inside dead⟩

/-- Slots are live or free. -/
theorem Housed.length_liveSlots {st : ScopeStore} (housed : st.Housed) :
    st.liveSlots.length + st.free.length = st.slots.size := by
  have spare : st.free.Perm ((List.range st.slots.size).filter fun id =>
      !(st.symbol? id).isSome) := by
    refine (List.perm_ext_iff_of_nodup housed.slots.nodup (List.nodup_range.filter _)).2 fun id => ?_
    simp only [List.mem_filter, List.mem_range, Bool.not_eq_true', Option.isSome_eq_false_iff,
      Option.isNone_iff_eq_none]
    exact ⟨fun free => ⟨housed.slots.inside id free, housed.slots.dead id free⟩,
      fun ⟨inside, dead⟩ => housed.spare id inside dead⟩
  have parts := List.length_eq_length_filter_add (l := List.range st.slots.size)
    fun id => (st.symbol? id).isSome
  rw [List.length_range] at parts
  rw [spare.length_eq, liveSlots]
  exact parts.symm

/-! ### Size -/

/-- As many slots as before are enough for the live symbols. -/
theorem size_eq_max {st st' : ScopeStore} (same : st'.slots.size = st.slots.size) :
    st'.slots.size = max st.slots.size st'.liveCount := by
  have bound : st'.liveCount ≤ st'.slots.size := Nat.sub_le _ _
  omega

theorem size_allocate (st : ScopeStore) (s : Symbol) :
    (st.allocate s).1.slots.size = max st.slots.size (st.allocate s).1.liveCount := by
  cases free : st.free with
  | nil =>
    have size : (st.allocate s).1.slots.size = st.slots.size + 1 := by
      simp [allocate, free]
    have full : (st.allocate s).1.free = [] := by simp [allocate, free]
    rw [liveCount, full, size, List.length_nil]
    omega
  | cons id rest =>
    refine size_eq_max ?_
    simp [allocate, free]

theorem size_foldl_step (scope : Nat) (ids : List Nat) (p : Purge) :
    (ids.foldl (Purge.step scope) p).store.slots.size = p.store.slots.size := by
  induction ids generalizing p with
  | nil => rfl
  | cons id ids ih =>
    rw [List.foldl_cons, ih]
    cases live : p.store.symbol? id with
    | none => rw [Purge.step_dead live]
    | some s =>
      by_cases here : s.scope = scope
      · rw [Purge.step_live live here]
        exact size_without
      · simp only [Purge.step, live, ne_eq, here, not_false_eq_true, if_true]

theorem size_removeFile (st : ScopeStore) (scope : Nat) (file : Path) :
    (st.removeFile scope file).1.slots.size = st.slots.size := by
  unfold removeFile
  cases found : st.byFile.get? file with
  | none => rfl
  | some owned =>
    have purged := size_foldl_step scope owned ⟨{ st with byFile := st.byFile.erase file }, [], []⟩
    simp only
    split <;> exact purged

/-- A store grows only if it has to. -/
theorem size_perform (st : ScopeStore) (operation : Operation) :
    (st.perform operation).slots.size = max st.slots.size (st.perform operation).liveCount := by
  cases operation with
  | scopeFor key =>
    refine size_eq_max ?_
    simp only [perform, scopeFor]
    split <;> rfl
  | define s =>
    simp only [perform, define]
    split
    · exact size_eq_max rfl
    · exact size_allocate st s
  | allocate s => exact size_allocate st s
  | forward source target => exact size_eq_max (retargeted_forward st source target).size
  | removeFile scope file => exact size_eq_max (size_removeFile st scope file)

/-! ### Runs -/

theorem represented_foldl_perform (operations : List Operation) {st : ScopeStore}
    (books : st.Represented) : (operations.foldl perform st).Represented := by
  induction operations generalizing st with
  | nil => exact books
  | cons operation operations ih => exact ih (represented_perform books operation)

theorem represented_foldl_watch (operations : List Operation) (seen : ScopeStore × Nat)
    (books : seen.1.Represented) (peak : seen.1.slots.size = seen.2) :
    (operations.foldl watch seen).1.Represented ∧
      (operations.foldl watch seen).1.slots.size = (operations.foldl watch seen).2 := by
  induction operations generalizing seen with
  | nil => exact ⟨books, peak⟩
  | cons operation operations ih =>
    refine ih (watch seen operation) (represented_perform books operation) ?_
    rw [watch, ← peak]
    exact size_perform seen.1 operation

/-- After any operations: the free list names each empty slot once; every bound name leads to a live
symbol of that name and scope; every live symbol with a place is listed once, for the file of that
place, and nothing else is listed; directories and scopes below the global one correspond; and there
are as many slots as there were ever live symbols at one time. -/
theorem represented_watched (operations : List Operation) :
    let st := (watched operations).1
    (st.free.Nodup ∧ (∀ id, id ∈ st.free ↔ st.slots[id]? = some none) ∧
        st.liveCount = st.liveSlots.length) ∧
      (∀ g x id, st.lookup? g x = some id →
        ∃ s, st.symbol? id = some s ∧ s.name = x ∧ s.scope = g) ∧
      (∀ p, (st.slotsOf p).Nodup ∧ ∀ id, id ∈ st.slotsOf p ↔
        ∃ s, st.symbol? id = some s ∧ s.OwnedBy p) ∧
      (st.place? globalScope = some (none, none) ∧
        (∀ g, 0 < g → g < st.scopes.size →
          ∃ k, st.place? g = some (some k, some globalScope) ∧ st.scopeFor? k = some g) ∧
        ∀ k g, st.scopeFor? k = some g → 0 < g ∧ g < st.scopes.size ∧
          ∀ k', st.scopeFor? k' = some g ↔ k'.components = k.components) ∧
      st.slotCount = (watched operations).2 := by
  intro st
  obtain ⟨books, peak⟩ : st.Represented ∧ st.slots.size = (watched operations).2 :=
    represented_foldl_watch operations _ represented_empty rfl
  refine ⟨⟨books.slots.nodup, books.mem_free_iff, ?_⟩, books.bound, fun p => ?_,
    ⟨books.top, fun g positive inside => ?_, fun k g known => ?_⟩, peak⟩
  · have size := books.length_liveSlots
    rw [liveCount]
    omega
  · obtain ⟨listed, once, _⟩ := books.filed p
    exact ⟨once p, fun id => by simpa using listed p id⟩
  · obtain ⟨k, place⟩ := books.below g positive inside
    exact ⟨k, place, (books.directories k g).2 ⟨k, _, place, rfl⟩⟩
  · obtain ⟨k₀, parent, place, same⟩ := (books.directories k g).1 known
    refine ⟨Nat.pos_of_ne_zero fun zero => ?_, ?_, fun k' => ?_⟩
    · have top := books.top
      rw [globalScope, ← zero, place] at top
      cases top
    · obtain ⟨scope, read, _⟩ := Option.map_eq_some_iff.1 place
      exact (Array.getElem?_eq_some_iff.1 read).1
    · rw [scopeFor?, books.directories, place]
      constructor
      · rintro ⟨k₁, _, made, same'⟩
        cases made
        exact same'.symm.trans same
      · intro same'
        exact ⟨k₀, parent, rfl, same.trans same'.symm⟩

end GrammarIndex.ScopeStore
