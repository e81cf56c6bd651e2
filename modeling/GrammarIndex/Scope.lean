import GrammarIndex.Sort
import GrammarIndex.Symbol

/-!
Scopes and the symbols bound in them.

There is one global scope, numbered 0, and one scope below it for each directory that was asked
for. Symbols live in numbered slots. Slots that a purge empties are used again, the last emptied
first, so the store stays as large as the largest set of live symbols.
-/
namespace GrammarIndex

/-- Names bound in one scope; the global scope has neither key nor parent. -/
structure Scope where
  key : Option Path := none
  parent : Option Nat := none
  names : Table String Nat := ∅

/-- What came of a definition: the new symbol, or the one that already has the name. -/
inductive DefineOutcome where
  | bound (id : Nat)
  | duplicate (existing : Nat)
  deriving DecidableEq, Repr

/-- Scopes, symbol slots and the indices into them: scopes by directory, slots by defining file,
and for each forwarding target the symbol that forwards to it. -/
structure ScopeStore where
  scopes : Array Scope
  byKey : PathTable Nat
  slots : Array (Option Symbol)
  free : List Nat
  byFile : PathTable (List Nat)
  forwarders : Table Nat Nat

namespace ScopeStore

/-- The number of the scope that every other scope hangs off. -/
def globalScope : Nat := 0

/-- The store with only the global scope. -/
def empty : ScopeStore := ⟨#[{}], ∅, #[], [], ∅, ∅⟩

instance : Inhabited ScopeStore := ⟨empty⟩

/-! ### Looking up -/

def scopeFor? (st : ScopeStore) (key : Path) : Option Nat := st.byKey.get? key

def parent? (st : ScopeStore) (scope : Nat) : Option Nat := st.scopes[scope]?.bind (·.parent)

/-- The live symbol in a slot. -/
def symbol? (st : ScopeStore) (id : Nat) : Option Symbol := st.slots[id]?.join

def slotCount (st : ScopeStore) : Nat := st.slots.size

def liveCount (st : ScopeStore) : Nat := st.slots.size - st.free.length

/-- What a name is bound to in a scope itself. -/
def lookup? (st : ScopeStore) (scope : Nat) (name : String) : Option Nat :=
  st.scopes[scope]?.bind (·.names.get? name)

/-- A scope and its next `steps` ancestors. -/
def chainWithin (st : ScopeStore) : (steps : Nat) → Nat → List Nat
  | 0, scope => [scope]
  | steps + 1, scope =>
    match st.parent? scope with
    | none => [scope]
    | some p => scope :: st.chainWithin steps p

/-- A scope and all its ancestors, innermost first. -/
def chain (st : ScopeStore) (scope : Nat) : List Nat := st.chainWithin st.scopes.size scope

/-- What a name is bound to, seen from a scope; the innermost scope wins. -/
def resolve? (st : ScopeStore) (scope : Nat) (name : String) : Option Nat :=
  (st.chain scope).findSome? fun s => st.lookup? s name

def namesOf (st : ScopeStore) (scope : Nat) : Table String Nat :=
  (st.scopes[scope]?.map (·.names)).getD ∅

/-- Every name seen from a scope with what it is bound to, in name order. -/
def visible (st : ScopeStore) (scope : Nat) : Table String Nat :=
  (st.chain scope).foldl (fun seen s =>
    (st.namesOf s).entries.foldl (fun seen e =>
      if seen.contains e.1 then seen else seen.insert e.1 e.2) seen) ∅

/-- Follow targets from `current` for at most `steps` steps, to live symbols not yet `seen`. -/
def followWithin (st : ScopeStore) : (steps : Nat) → (seen : List Nat) → (current : Nat) → Nat
  | 0, _, current => current
  | steps + 1, seen, current =>
    match (st.symbol? current).bind (·.target) with
    | none => current
    | some next =>
      if seen.contains next || (st.symbol? next).isNone then current
      else st.followWithin steps (next :: seen) next

/-- The symbol that an id stands for in the end. A cycle stops at its last symbol before it
repeats, a dead target at the symbol before it. -/
def follow (st : ScopeStore) (id : Nat) : Nat := st.followWithin st.slots.size [id] id

/-- What a name stands for in the end, seen from a scope. -/
def resolveTarget? (st : ScopeStore) (scope : Nat) (name : String) : Option Nat :=
  (st.resolve? scope name).map st.follow

/-! ### Changing the store -/

/-- The scope of a directory, made when it is first asked for. -/
def scopeFor (st : ScopeStore) (key : Path) : ScopeStore × Nat :=
  match st.scopeFor? key with
  | some id => (st, id)
  | none =>
    let id := st.scopes.size
    ({ st with
        scopes := st.scopes.push { key := some key, parent := some globalScope },
        byKey := st.byKey.insert key id },
      id)

/-- Put a symbol into a slot without binding its name. -/
def allocate (st : ScopeStore) (s : Symbol) : ScopeStore × Nat :=
  let (slots, free, id) := match st.free with
    | id :: rest => (st.slots.setIfInBounds id (some s), rest, id)
    | [] => (st.slots.push (some s), [], st.slots.size)
  let byFile := match s.file? with
    | some file => st.byFile.insert file ((st.byFile.get? file).getD [] ++ [id])
    | none => st.byFile
  ({ st with slots, free, byFile }, id)

/-- Change the names of a scope. -/
def modifyNames (st : ScopeStore) (scope : Nat) (f : Table String Nat → Table String Nat) :
    ScopeStore :=
  { st with scopes := st.scopes.modify scope fun s => { s with names := f s.names } }

/-- Bind a symbol in its scope; the first definition of a name wins. -/
def define (st : ScopeStore) (s : Symbol) : ScopeStore × DefineOutcome :=
  match st.lookup? s.scope s.name with
  | some existing => (st, .duplicate existing)
  | none =>
    let (st, id) := st.allocate s
    (st.modifyNames s.scope (·.insert s.name id), .bound id)

/-- Change the symbol in a slot, if it is live. -/
def modifySymbol (st : ScopeStore) (id : Nat) (f : Symbol → Symbol) : ScopeStore :=
  { st with slots := st.slots.modify id (·.map f) }

/-- Let a live symbol stand for another. -/
def forward (st : ScopeStore) (source target : Nat) : ScopeStore :=
  match st.symbol? source with
  | none => st
  | some s =>
    let others := match s.target with
      | some previous => st.forwarders.erase previous
      | none => st.forwarders
    let st := st.modifySymbol source fun s => { s with target := some target }
    { st with forwarders := others.insert target source }

/-- What a purge has done so far: the store, the slots it left alone, the names it freed. -/
structure Purge where
  store : ScopeStore
  kept : List Nat := []
  freed : List String := []

/-- Let the symbol that forwarded to a removed slot stand for itself again. -/
def detach (st : ScopeStore) (id : Nat) : ScopeStore :=
  match st.forwarders.get? id with
  | none => st
  | some source =>
    let st := { st with forwarders := st.forwarders.erase id }
    st.modifySymbol source fun s => if s.target = some id then { s with target := none } else s

/-- Purge one slot, unless its symbol belongs to another scope. -/
def Purge.step (scope : Nat) (p : Purge) (id : Nat) : Purge :=
  match p.store.symbol? id with
  | none => p
  | some s =>
    if s.scope ≠ scope then { p with kept := p.kept ++ [id] }
    else
      let st := { p.store with slots := p.store.slots.setIfInBounds id none, free := id :: p.store.free }
      let st := match s.target with
        | some target => { st with forwarders := st.forwarders.erase target }
        | none => st
      let st := st.detach id
      if st.lookup? scope s.name = some id then
        { p with store := st.modifyNames scope (·.erase s.name), freed := p.freed ++ [s.name] }
      else { p with store := st }

/-- Purge what a file defines in a scope; the names that are no longer bound there come sorted. -/
def removeFile (st : ScopeStore) (scope : Nat) (file : Path) : ScopeStore × List String :=
  match st.byFile.get? file with
  | none => (st, [])
  | some owned =>
    let p := owned.foldl (Purge.step scope) { store := { st with byFile := st.byFile.erase file } }
    let st := if p.kept.isEmpty then p.store
      else { p.store with byFile := p.store.byFile.insert file p.kept }
    (st, sortOn id p.freed)

end ScopeStore

end GrammarIndex
