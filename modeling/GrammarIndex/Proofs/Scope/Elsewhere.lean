import GrammarIndex.Proofs.Binding.Standing

/-!
What binding a file leaves alone in other scopes.

A scope is untouched between two stores if every name is bound there as before and every symbol of
the scope is in its slot as it was. Purging a file and binding its definitions touch the scope of its
directory only: slots that are reused hold no symbol, and a symbol that stands for another lives in
the same scope.
-/
namespace GrammarIndex

namespace ScopeStore

/-- Between two stores nothing changed in a scope. -/
structure Untouched (g : Nat) (st st' : ScopeStore) : Prop where
  names : ∀ x, st'.lookup? g x = st.lookup? g x
  symbols : ∀ id s, s.scope = g → (st'.symbol? id = some s ↔ st.symbol? id = some s)

namespace Untouched

theorem refl (g : Nat) (st : ScopeStore) : Untouched g st st where
  names _ := rfl
  symbols _ _ _ := Iff.rfl

theorem trans {g : Nat} {st mid st' : ScopeStore} (first : Untouched g st mid)
    (second : Untouched g mid st') : Untouched g st st' where
  names x := (second.names x).trans (first.names x)
  symbols id s place := (second.symbols id s place).trans (first.symbols id s place)

end Untouched

section

variable {g : Nat} {st : ScopeStore}

theorem untouched_scopeFor (sound : st.Sound) (key : Path) :
    Untouched g st (st.scopeFor key).1 := by
  obtain ⟨_, _, _, symbols, names⟩ := scopeFor_spec sound key
  exact ⟨names g, fun id s _ => by rw [symbols]⟩

/-- Directories that differ have scopes that differ. -/
theorem Layered.scope_ne (layered : st.Layered) {dir key : Path} {scope : Nat}
    (away : key.components ≠ dir.components) (home : st.byKey.get? key = some scope)
    (here : st.byKey.get? dir = some g) : scope ≠ g := by
  rintro rfl
  exact away (layered.distinct _ _ _ home here)

/-- Purging a file leaves the scopes of other directories alone. -/
theorem untouched_of_fileGone {st' : ScopeStore} {p : Path} {freed : List String} {scope : Nat}
    (sound : st.Sound) (home : st.byKey.get? p.directory = some scope) (other : scope ≠ g)
    (gone : FileGone p st st' freed) : Untouched g st st' := by
  have outside : ∀ {id s}, st.symbol? id = some s → s.scope = g → s.Outside [p] := by
    intro id s live place
    rw [Symbol.outside_singleton]
    intro own
    exact other ((sound.scope_of_ownedBy home live own).symm.trans place)
  -- A symbol that stays is the same, since what it stands for stays, too.
  have kept : ∀ {id s s'}, st.symbol? id = some s → st'.symbol? id = some s' → s.scope = g →
      s.Alike s' → s' = s := by
    intro id s s' live live' place alike
    refine alike.eq (Option.ext fun t => ⟨gone.aimsBack id s s' t live live', fun aimed => ?_⟩)
    obtain ⟨_, u, liveU, _, _, _, placeU⟩ := sound.aimed id s t live aimed
    exact gone.frame.aims id s s' t u live live' (outside live place) aimed liveU
      (outside liveU (placeU.trans place))
  refine ⟨fun x => ?_, fun id s place => ⟨fun live' => ?_, fun live => ?_⟩⟩
  · cases found : st.lookup? g x with
    | none =>
      cases found' : st'.lookup? g x with
      | none => rfl
      | some id =>
        rw [gone.names g x id found'] at found
        cases found
    | some id =>
      obtain ⟨s, live, _, place⟩ := sound.bound g x id found
      exact gone.frame.names g x id s found live (outside live place)
  · obtain ⟨s₀, live, alike⟩ := gone.frame.back id s live'
      (Symbol.outside_singleton.2 (gone.gone id s live'))
    rw [kept live live' (alike.scope.trans place) alike]
    exact live
  · obtain ⟨s', live', alike⟩ := gone.frame.stay id s live (outside live place)
    rw [kept live live' place alike] at live'
    exact live'

theorem untouched_allocate (sound : st.Sound) {s : Symbol} (other : s.scope ≠ g) :
    Untouched g st (st.allocate s).1 := by
  refine ⟨fun _ => rfl, fun id t place => ?_⟩
  rw [symbol?_allocate sound.slots]
  split
  · next fresh =>
    rw [fresh, allocate_fresh sound.slots]
    constructor
    · rintro ⟨⟩
      exact absurd place other
    · rintro ⟨⟩
  · exact Iff.rfl

theorem untouched_modifyNames (st : ScopeStore) {scope : Nat} (other : scope ≠ g)
    (f : Table String Nat → Table String Nat) : Untouched g st (st.modifyNames scope f) :=
  ⟨fun x => by rw [lookup?_modifyNames, if_neg other.symm], fun _ _ _ => Iff.rfl⟩

theorem untouched_forward {source target : Nat} {s : Symbol} (live : st.symbol? source = some s)
    (other : s.scope ≠ g) : Untouched g st (st.forward source target) := by
  refine ⟨lookup?_forward g, fun id t place => ?_⟩
  rw [symbol?_forward live]
  split
  · next here =>
    rw [here, live, Option.some.injEq, Option.some.injEq]
    constructor
    · rintro rfl
      exact absurd place other
    · rintro rfl
      exact absurd place other
  · exact Iff.rfl

end

end ScopeStore

namespace Binding

open ScopeStore (Untouched)

variable {d : Dialect} {tree : SyntaxTree} {p : Path} {scope g : Nat} {st : ScopeStore}
  {r : BindingRecord}

/-- The scope of a file, purged of the file; other directories do not notice. -/
theorem untouched_initScope {dir : Path} (sound : st.Sound) (here : st.byKey.get? dir = some g)
    (away : p.directory.components ≠ dir.components) :
    Untouched g st (initScope st p).1 ∧ (initScope st p).2.1 ≠ g := by
  obtain ⟨soundS, home, keys, _⟩ := ScopeStore.scopeFor_spec sound p.directory
  have other := soundS.layered.scope_ne away home (keys dir g here)
  exact ⟨(ScopeStore.untouched_scopeFor sound p.directory).trans
    (ScopeStore.untouched_of_fileGone soundS home other (ScopeStore.removeFile_spec soundS home)),
    other⟩

theorem untouched_bindDefinition (sound : st.Sound) {s : Symbol} (other : s.scope ≠ g) (n : Nat) :
    Untouched g st (bindDefinition st r s n).1 := by
  have made := ScopeStore.untouched_allocate sound other
  have step := definitionStep sound r s n
  generalize bindDefinition st r s n = out at step ⊢
  cases step with
  | bound free =>
    exact made.trans (ScopeStore.untouched_modifyNames (st.allocate s).1 other
      (·.insert s.name (st.allocate s).2))
  | @followed source t taken live declares open_ real =>
    obtain ⟨t', live', _, place⟩ := sound.bound _ _ _ taken
    rw [live] at live'
    cases live'
    exact made.trans (ScopeStore.untouched_forward
      (ScopeStore.symbol?_allocate_of_live sound.slots s live) (place ▸ other))
  | dropped taken live closed => exact .refl g st

/-- Binding the definitions of a file leaves the scopes of other directories alone. -/
theorem untouched_bindDefinitions (steady : d.Steady) {parsed : Parsed} (sound : st.Sound)
    (home : st.byKey.get? p.directory = some scope)
    (gone : ∀ id s, st.symbol? id = some s → ¬ s.OwnedBy p)
    (distinct : parsed.tree.terminals.Nodup) (other : scope ≠ g) :
    Untouched g st (bindDefinitions st d parsed p scope {}).1 := by
  refine foldl_bindTerminal_induction (Q := fun _ st' => Untouched g st st') steady ?_
    parsed.tree.terminals sound home (recorded_nil gone) (by simpa using distinct) (.refl g st)
  intro seen st' r n sound' _ _ before
  rw [bindTerminal_store steady]
  cases brings : symbolAt d parsed.tree p scope n with
  | none => exact before
  | some s =>
    obtain ⟨c, _, rfl⟩ := eq_symbolFor_of_symbolAt brings
    exact before.trans (untouched_bindDefinition sound' other n)

end Binding

end GrammarIndex
