import GrammarIndex.Proofs.Path
import GrammarIndex.Proofs.Table
import GrammarIndex.Scope

/-!
What the operations of a scope store do to its views.

A store is seen through its live symbols (`symbol?`), the names bound in its scopes (`lookup?`), the
slots of each file (`slotsOf`), its back links and the layout of its scopes. Each operation has one
equation for each view.
-/
namespace GrammarIndex

namespace Symbol

/-- The symbol is defined in a file, however its path is spelled. -/
def OwnedBy (s : Symbol) (p : Path) : Prop := s.file?.map Path.components = some p.components

instance (s : Symbol) (p : Path) : Decidable (s.OwnedBy p) := inferInstanceAs (Decidable (_ = _))

theorem ownedBy_iff {s : Symbol} {p : Path} :
    s.OwnedBy p ↔ ∃ f, s.file? = some f ∧ f.components = p.components := by
  simp [OwnedBy, Option.map_eq_some_iff]

theorem OwnedBy.congr {s : Symbol} {p q : Path} (owned : s.OwnedBy p)
    (same : p.components = q.components) : s.OwnedBy q := by
  rw [OwnedBy, ← same]
  exact owned

/-- A file owns a symbol under every spelling or none. -/
theorem OwnedBy.unique {s : Symbol} {p q : Path} (owned : s.OwnedBy p) (owned' : s.OwnedBy q) :
    p.components = q.components := by
  rw [OwnedBy] at owned owned'
  exact Option.some.inj (owned.symm.trans owned')

/-- Two symbols that differ at most in what they stand for. -/
structure Alike (s s' : Symbol) : Prop where
  name : s.name = s'.name
  classification : s.classification = s'.classification
  scope : s.scope = s'.scope
  site : s.site = s'.site
  forward : s.forward = s'.forward

namespace Alike

theorem refl (s : Symbol) : s.Alike s := ⟨rfl, rfl, rfl, rfl, rfl⟩

theorem trans {s s' s'' : Symbol} (first : s.Alike s') (second : s'.Alike s'') : s.Alike s'' :=
  ⟨first.name.trans second.name, first.classification.trans second.classification,
    first.scope.trans second.scope, first.site.trans second.site,
    first.forward.trans second.forward⟩

theorem retarget (s : Symbol) (target : Option Nat) : s.Alike { s with target } :=
  ⟨rfl, rfl, rfl, rfl, rfl⟩

variable {s s' : Symbol} (alike : s.Alike s')

include alike

theorem eq (same : s'.target = s.target) : s' = s := by
  obtain ⟨name, classification, scope, site, forward⟩ := alike
  cases s
  cases s'
  simp_all

theorem file? : s.file? = s'.file? := by rw [Symbol.file?, Symbol.file?, alike.site]

theorem ownedBy {p : Path} : s.OwnedBy p ↔ s'.OwnedBy p := by rw [OwnedBy, OwnedBy, alike.file?]

end Alike

end Symbol

namespace ScopeStore

/-- The directories and parents of all scopes. -/
def layout (st : ScopeStore) : Array (Option Path × Option Nat) × PathTable Nat :=
  (st.scopes.map fun s => (s.key, s.parent), st.byKey)

/-- The slots that belong to a file. -/
def slotsOf (st : ScopeStore) (p : Path) : List Nat := (st.byFile.get? p).getD []

section Layout

variable {st st' : ScopeStore} (same : st'.layout = st.layout)

include same

theorem byKey_of_layout : st'.byKey = st.byKey := congrArg Prod.snd same

theorem size_of_layout : st'.scopes.size = st.scopes.size := by
  have sizes := congrArg Array.size (congrArg Prod.fst same)
  simpa [layout] using sizes

theorem parent?_of_layout (g : Nat) : st'.parent? g = st.parent? g := by
  have scopes : st'.scopes.map (fun s => (s.key, s.parent)) =
      st.scopes.map fun s => (s.key, s.parent) := congrArg Prod.fst same
  have cell := congrArg (fun a => (a[g]?).bind Prod.snd) scopes
  simpa [parent?, Array.getElem?_map, Option.bind_map, Function.comp_def] using cell

end Layout

/-! ### Names -/

theorem lookup?_modifyNames (st : ScopeStore) (scope g : Nat)
    (f : Table String Nat → Table String Nat) (x : String) :
    (st.modifyNames scope f).lookup? g x =
      if g = scope then (st.scopes[g]?).bind fun s => (f s.names).get? x else st.lookup? g x := by
  unfold lookup? modifyNames
  simp only [Array.getElem?_modify]
  by_cases same : scope = g
  · subst same
    simp only [if_true, Option.bind_map, Function.comp_def]
  · simp [same, Ne.symm same]

@[simp] theorem symbol?_modifyNames (st : ScopeStore) (scope : Nat)
    (f : Table String Nat → Table String Nat) (id : Nat) :
    (st.modifyNames scope f).symbol? id = st.symbol? id := rfl

@[simp] theorem layout_modifyNames (st : ScopeStore) (scope : Nat)
    (f : Table String Nat → Table String Nat) : (st.modifyNames scope f).layout = st.layout := by
  unfold layout modifyNames
  simp only [Prod.mk.injEq, and_true]
  apply Array.ext_getElem?
  intro i
  simp only [Array.getElem?_map, Array.getElem?_modify]
  split
  · simp [Function.comp_def]
  · rfl

/-- A name bound in a scope that exists. -/
theorem lookup?_bind (st : ScopeStore) {scope : Nat} (exists_ : scope < st.scopes.size) (g : Nat)
    (name x : String) (id : Nat) :
    (st.modifyNames scope (·.insert name id)).lookup? g x =
      if g = scope ∧ x = name then some id else st.lookup? g x := by
  rw [lookup?_modifyNames]
  by_cases here : g = scope
  · subst here
    simp only [if_true, true_and, lookup?, Array.getElem?_eq_getElem exists_, Option.bind_some,
      Table.get?_insert_lawful]
  · simp [here]

theorem lookup?_unbind (st : ScopeStore) (scope g : Nat) (name x : String) :
    (st.modifyNames scope (·.erase name)).lookup? g x =
      if g = scope ∧ x = name then none else st.lookup? g x := by
  rw [lookup?_modifyNames]
  by_cases here : g = scope
  · subst here
    cases found : st.scopes[g]? with
    | none => simp [lookup?, found]
    | some s => simp [lookup?, found, Table.get?_erase_lawful]
  · simp [here]

/-! ### New scopes -/

/-- A store with one more scope, that of a directory. -/
def withScope (st : ScopeStore) (key : Path) : ScopeStore :=
  { st with
    scopes := st.scopes.push { key := some key, parent := some globalScope }
    byKey := st.byKey.insert key st.scopes.size }

theorem scopeFor_of_found {st : ScopeStore} {key : Path} {id : Nat}
    (found : st.scopeFor? key = some id) : st.scopeFor key = (st, id) := by
  simp only [scopeFor, found]

theorem scopeFor_of_absent {st : ScopeStore} {key : Path} (absent : st.scopeFor? key = none) :
    st.scopeFor key = (st.withScope key, st.scopes.size) := by
  simp only [scopeFor, absent, withScope]

@[simp] theorem symbol?_withScope (st : ScopeStore) (key : Path) (id : Nat) :
    (st.withScope key).symbol? id = st.symbol? id := rfl

@[simp] theorem size_withScope (st : ScopeStore) (key : Path) :
    (st.withScope key).scopes.size = st.scopes.size + 1 :=
  Array.size_push _

theorem byKey_withScope (st : ScopeStore) (key k : Path) :
    (st.withScope key).byKey.get? k =
      if k.components = key.components then some st.scopes.size else st.byKey.get? k :=
  PathTable.get?_insert _ _ _ _

@[simp] theorem lookup?_withScope (st : ScopeStore) (key : Path) (g : Nat) (x : String) :
    (st.withScope key).lookup? g x = st.lookup? g x := by
  simp only [lookup?, withScope, Array.getElem?_push]
  split
  · next here =>
    rw [here, Array.getElem?_eq_none (Nat.le_refl _)]
    rfl
  · rfl

theorem parent?_withScope (st : ScopeStore) (key : Path) (g : Nat) :
    (st.withScope key).parent? g =
      if g = st.scopes.size then some globalScope else st.parent? g := by
  simp only [parent?, withScope, Array.getElem?_push]
  split <;> rfl

/-! ### Slots -/

theorem symbol?_modifySymbol (st : ScopeStore) (id j : Nat) (f : Symbol → Symbol) :
    (st.modifySymbol id f).symbol? j = if j = id then (st.symbol? j).map f else st.symbol? j := by
  unfold symbol? modifySymbol
  simp only [Array.getElem?_modify]
  by_cases same : id = j
  · subst same
    cases st.slots[id]? with
    | none => simp
    | some slot => cases slot <;> simp
  · simp [same, Ne.symm same]

theorem symbol?_clear (st : ScopeStore) (id j : Nat) (free : List Nat) :
    ({ st with slots := st.slots.setIfInBounds id none, free } : ScopeStore).symbol? j =
      if j = id then none else st.symbol? j := by
  unfold symbol?
  simp only [Array.getElem?_setIfInBounds]
  by_cases same : id = j
  · subst same
    by_cases inside : id < st.slots.size <;> simp [inside]
  · simp [same, Ne.symm same]

theorem lt_slots_of_symbol? {st : ScopeStore} {id : Nat} {s : Symbol}
    (live : st.symbol? id = some s) : id < st.slots.size := by
  unfold symbol? at live
  cases found : st.slots[id]? with
  | none => simp [found] at live
  | some slot => exact (Array.getElem?_eq_some_iff.1 found).1

/-- The free slots hold no symbol, and none is listed twice. -/
structure FreeSlots (st : ScopeStore) : Prop where
  nodup : st.free.Nodup
  inside : ∀ id ∈ st.free, id < st.slots.size
  dead : ∀ id ∈ st.free, st.symbol? id = none

section Allocate

variable {st : ScopeStore} (slots : st.FreeSlots) (s : Symbol)

include slots

/-- A new symbol takes a slot that holds none. -/
theorem allocate_fresh : st.symbol? (st.allocate s).2 = none := by
  unfold allocate
  cases free : st.free with
  | nil => simp [symbol?]
  | cons id rest => exact slots.dead id (by simp [free])

theorem symbol?_allocate (j : Nat) :
    (st.allocate s).1.symbol? j = if j = (st.allocate s).2 then some s else st.symbol? j := by
  unfold allocate
  cases free : st.free with
  | nil =>
    simp only [symbol?, Array.getElem?_push]
    split <;> simp
  | cons id rest =>
    have inside := slots.inside id (by simp [free])
    simp only [symbol?, Array.getElem?_setIfInBounds]
    by_cases same : id = j
    · subst same
      simp [inside]
    · simp [same, Ne.symm same]

theorem symbol?_allocate_self : (st.allocate s).1.symbol? (st.allocate s).2 = some s := by
  rw [symbol?_allocate slots, if_pos rfl]

theorem ne_allocated {j : Nat} {t : Symbol} (live : st.symbol? j = some t) :
    j ≠ (st.allocate s).2 := by
  rintro rfl
  rw [allocate_fresh slots] at live
  cases live

/-- The symbols that were there stay. -/
theorem symbol?_allocate_of_live {j : Nat} {t : Symbol} (live : st.symbol? j = some t) :
    (st.allocate s).1.symbol? j = some t := by
  rw [symbol?_allocate slots, if_neg (ne_allocated slots s live), live]

/-- One symbol comes in. -/
theorem symbol?_allocate_eq_some (j : Nat) (t : Symbol) :
    (st.allocate s).1.symbol? j = some t ↔
      (j = (st.allocate s).2 ∧ t = s) ∨ st.symbol? j = some t := by
  constructor
  · intro live
    rw [symbol?_allocate slots] at live
    split at live
    · next here => exact .inl ⟨here, (Option.some.inj live).symm⟩
    · exact .inr live
  · rintro (⟨rfl, rfl⟩ | live)
    · exact symbol?_allocate_self slots t
    · exact symbol?_allocate_of_live slots s live

/-- Only the new slot comes alive. -/
theorem eq_allocated {j : Nat} {t : Symbol} (live : (st.allocate s).1.symbol? j = some t)
    (dead : st.symbol? j = none) : j = (st.allocate s).2 ∧ t = s := by
  rw [symbol?_allocate_eq_some slots, dead] at live
  simpa using live

theorem freeSlots_allocate : (st.allocate s).1.FreeSlots := by
  have view := symbol?_allocate slots s
  unfold allocate at view ⊢
  cases free : st.free with
  | nil => exact ⟨by simp, by simp, by simp⟩
  | cons id rest =>
    have nodup := slots.nodup
    have inside := slots.inside
    have dead := slots.dead
    rw [free] at nodup inside dead
    simp only [free] at view
    refine ⟨(List.nodup_cons.1 nodup).2, fun j member => ?_, fun j member => ?_⟩
    · simpa using inside j (by simp [member])
    · have apart : j ≠ id := by
        rintro rfl
        exact (List.nodup_cons.1 nodup).1 member
      rw [view j, if_neg apart]
      exact dead j (by simp [member])

end Allocate

@[simp] theorem lookup?_allocate (st : ScopeStore) (s : Symbol) (g : Nat) (x : String) :
    (st.allocate s).1.lookup? g x = st.lookup? g x := rfl

@[simp] theorem forwarders_allocate (st : ScopeStore) (s : Symbol) :
    (st.allocate s).1.forwarders = st.forwarders := rfl

theorem mem_slotsOf_allocate (st : ScopeStore) (s : Symbol) (p : Path) (j : Nat) :
    j ∈ (st.allocate s).1.slotsOf p ↔ j ∈ st.slotsOf p ∨ (s.OwnedBy p ∧ j = (st.allocate s).2) := by
  unfold slotsOf allocate
  cases file : s.file? with
  | none => simp [Symbol.OwnedBy, file]
  | some f =>
    simp only [PathTable.get?_insert, Symbol.OwnedBy, file, Option.map_some, Option.some.injEq]
    by_cases same : p.components = f.components
    · rw [PathTable.get?_congr st.byFile same]
      simp [same]
    · simp [same, Ne.symm same]

end ScopeStore

end GrammarIndex
