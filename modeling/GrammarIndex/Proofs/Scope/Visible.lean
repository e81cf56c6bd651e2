import GrammarIndex.Proofs.Scope.Linked

/-!
What is seen from a scope.

All names that are seen from a scope are gathered along its chain, and the first scope that brings a
name keeps it; a single name is resolved by walking outward to the first scope that binds it. In
every store that operations lead to, the two agree on every name, and the walk ends at the global
scope.
-/
namespace GrammarIndex.ScopeStore

/-- The scopes of a store with its books in order are laid out in two layers. -/
theorem Housed.layered {st : ScopeStore} (housed : st.Housed) : st.Layered := by
  have parent : ∀ g, st.parent? g = (st.place? g).bind (·.2) := by
    intro g
    unfold parent? place?
    cases st.scopes[g]? <;> rfl
  refine ⟨?_, ?_, fun g positive inside => ?_, fun k g known => ?_, fun k k' g known known' => ?_⟩
  · obtain ⟨s, read, _⟩ := Option.map_eq_some_iff.1 housed.top
    exact (Array.getElem?_eq_some_iff.1 read).1
  · rw [parent, housed.top]
    rfl
  · obtain ⟨k, place⟩ := housed.below g positive inside
    rw [parent, place]
    rfl
  · obtain ⟨k', up, place, _⟩ := (housed.directories k g).1 known
    obtain ⟨s, read, _⟩ := Option.map_eq_some_iff.1 place
    refine ⟨Nat.pos_of_ne_zero fun zero => ?_, (Array.getElem?_eq_some_iff.1 read).1⟩
    have top := housed.top
    rw [globalScope, ← zero, place] at top
    cases top
  · obtain ⟨q, up, place, same⟩ := (housed.directories k g).1 known
    obtain ⟨q', up', place', same'⟩ := (housed.directories k' g).1 known'
    rw [place] at place'
    cases place'
    exact same.symm.trans same'

/-! ### Walking outward -/

section Walk

variable {st : ScopeStore} (layered : st.Layered)

include layered

/-- The chain of a scope is the scope, followed by the chain of its parent. -/
theorem chain_eq_cons (g : Nat) : st.chain g = g :: ((st.parent? g).map st.chain).getD [] := by
  have alone : ∀ g, st.parent? g = none → st.chain g = [g] := by
    intro g top
    unfold chain
    cases st.scopes.size with
    | zero => rfl
    | succ steps => simp [chainWithin, top]
  cases up : st.parent? g with
  | none => exact alone g up
  | some p =>
    have inside : g < st.scopes.size := by
      obtain ⟨s, read, _⟩ := Option.bind_eq_some_iff.1 up
      exact (Array.getElem?_eq_some_iff.1 read).1
    have positive : 0 < g := Nat.pos_of_ne_zero fun zero => by
      rw [zero, ← globalScope, layered.top] at up
      cases up
    rw [layered.below g positive inside] at up
    cases up
    rw [chain_eq layered positive inside, Option.map_some, Option.getD_some,
      alone globalScope layered.top]

/-- Resolving a name asks the scope itself, then its parent. -/
theorem resolve?_eq_or (g : Nat) (x : String) :
    st.resolve? g x = (st.lookup? g x).or ((st.parent? g).bind fun p => st.resolve? p x) := by
  rw [resolve?, chain_eq_cons layered g, List.findSome?_cons]
  cases st.lookup? g x with
  | some id => rfl
  | none => cases st.parent? g <;> rfl

theorem getLast?_chain {g : Nat} (inside : g < st.scopes.size) :
    (st.chain g).getLast? = some globalScope := by
  rcases Nat.eq_zero_or_pos g with rfl | positive
  · rw [chain_eq_cons layered, ← globalScope, layered.top]
    rfl
  · rw [chain_eq layered positive inside]
    rfl

end Walk

/-! ### Every store -/

/-- What a scope shows of the names around it. -/
structure Shows (st : ScopeStore) (g : Nat) : Prop where
  /-- The visible names come in strictly increasing order. -/
  sorted : (st.visible g).entries.Pairwise fun e e' => e.1 < e'.1
  /-- They are the names that resolve, each with what it resolves to. -/
  mem_visible : ∀ x id, (x, id) ∈ (st.visible g).entries ↔ st.resolve? g x = some id
  /-- Resolving takes the first scope on the way outward that binds the name. -/
  outward : ∀ x,
    st.resolve? g x = (st.lookup? g x).or ((st.parent? g).bind fun p => st.resolve? p x)
  /-- The way outward goes from parent to parent. -/
  way : st.chain g = g :: ((st.parent? g).map st.chain).getD []
  /-- It ends at the global scope, which has no parent. -/
  ends : (st.chain g).getLast? = some globalScope ∧ st.parent? globalScope = none
  /-- A name that is bound in the scope itself is resolved there. -/
  own : ∀ x id, st.lookup? g x = some id → st.resolve? g x = some id
  /-- A definition that comes too late changes nothing, and learns what its name resolves to. -/
  duplicate : ∀ s : Symbol, s.scope = g → ∀ existing, (st.define s).2 = .duplicate existing →
    (st.define s).1 = st ∧ st.resolve? g s.name = some existing

/-- After any operations every scope shows the names that resolve from it, each once and in order,
whatever was defined, shadowed, forwarded and purged on the way. -/
theorem shows_performed (operations : List Operation) {g : Nat}
    (inside : g < (performed operations).scopes.size) : (performed operations).Shows g := by
  have layered : (performed operations).Layered :=
    (represented_foldl_perform operations represented_empty).layered
  generalize performed operations = st at inside layered
  have own : ∀ x id, st.lookup? g x = some id → st.resolve? g x = some id := by
    intro x id bound
    rw [resolve?_eq_or layered, bound]
    rfl
  refine ⟨?_, fun x id => ?_, resolve?_eq_or layered g, chain_eq_cons layered g,
    ⟨getLast?_chain layered inside, layered.top⟩, own, fun s scope existing late => ?_⟩
  · exact (st.visible g).sorted.imp fun lower => compareOfLessAndEq_eq_lt.1 lower
  · rw [← Table.get?_eq_some_iff, get?_visible]
  · subst scope
    unfold define at late ⊢
    cases bound : st.lookup? s.scope s.name with
    | none =>
      rw [bound] at late
      cases late
    | some id =>
      rw [bound] at late
      cases late
      exact ⟨rfl, own _ _ bound⟩

/-- A built-in name that a directory defines anew, beside a name whose slot is used again. -/
def redefined : List Operation :=
  let symbol (name : String) (file : Path) : Symbol :=
    { name, classification := .terminal, scope := 1, site := some ⟨file, 0, ⟨0, 1⟩⟩ }
  [.define { name := "EOF", classification := .terminal, scope := 0 }, .scopeFor (.of "g"),
    .define (symbol "X" (.of "g/a.g4")), .define (symbol "EOF" (.of "g/b.g4")),
    .removeFile 1 (.of "g/a.g4"), .define (symbol "A" (.of "g/a.g4"))]

theorem shows_performed_redefined :
    1 < (performed redefined).scopes.size ∧ (performed redefined).Shows 1 ∧
      ((performed redefined).visible 1).entries = [("A", 1), ("EOF", 2)] ∧
      (performed redefined).lookup? globalScope "EOF" = some 0 := by
  have inside : 1 < (performed redefined).scopes.size := by decide +kernel
  exact ⟨inside, shows_performed redefined inside, by decide +kernel, by decide +kernel⟩

end GrammarIndex.ScopeStore
