import GrammarIndex.Proofs.Grammar.Layout

/-!
What is read, without places.

A token without its place is its kind and its text, a derivation without places is what it is made
of. Whether there are errors in it does not hang on the places.
-/
namespace GrammarIndex

/-- A token without its place. -/
def Token.bare (t : Token) : TokenKind × String := (t.kind, t.text)

namespace Derivation

mutual

/-- A derivation without places. -/
def bare : Derivation → Derivation
  | node kind _ children => node kind ⟨0, 0⟩ (bareAll children)

def bareAll : List Derivation → List Derivation
  | [] => []
  | d :: rest => d.bare :: bareAll rest

end

@[simp] theorem bareAll_eq_map (ds : List Derivation) : bareAll ds = ds.map bare := by
  induction ds with
  | nil => rfl
  | cons d ds ih => rw [bareAll, ih, List.map_cons]

@[simp] theorem kind_bare (d : Derivation) : d.bare.kind = d.kind := by
  cases d
  rfl

@[simp] theorem children_bare (d : Derivation) : d.bare.children = d.children.map bare := by
  cases d
  exact bareAll_eq_map _

mutual

@[simp] theorem kinds_bare (d : Derivation) : d.bare.kinds = d.kinds := by
  cases d with
  | node kind span children => rw [bare, kinds, kinds, kindsAll_bareAll children]

theorem kindsAll_bareAll (ds : List Derivation) : kindsAll (bareAll ds) = kindsAll ds := by
  cases ds with
  | nil => rfl
  | cons d rest => rw [bareAll, kindsAll, kindsAll, kinds_bare d, kindsAll_bareAll rest]

end

@[simp] theorem kindsAll_map_bare (ds : List Derivation) :
    kindsAll (ds.map bare) = kindsAll ds := by
  rw [← bareAll_eq_map, kindsAll_bareAll]

end Derivation

namespace Grammar

open GrammarIndex.Derivation (kindsAll)

/-! ### Without errors -/

/-- Neither an error nor a group of handlers is among the nodes. -/
def Clean (ds : List Derivation) : Prop :=
  ∀ k ∈ kindsAll ds, k.isError = false ∧ k ≠ .rule .exceptionGroup

@[simp] theorem clean_nil : Clean [] := fun _ member => by cases member

theorem clean_append {ds ds' : List Derivation} : Clean (ds ++ ds') ↔ Clean ds ∧ Clean ds' := by
  unfold Clean
  rw [Derivation.kindsAll_append, List.forall_mem_append]

theorem clean_cons {d : Derivation} {ds : List Derivation} :
    Clean (d :: ds) ↔ Clean [d] ∧ Clean ds := @clean_append [d] ds

@[simp] theorem clean_map_bare {ds : List Derivation} :
    Clean (ds.map Derivation.bare) ↔ Clean ds := by
  rw [Clean, Derivation.kindsAll_map_bare, Clean]

@[simp] theorem not_clean_missing (what : String) (offset : Nat) : ¬ Clean [missing what offset] :=
  fun clean => by cases (clean _ (List.mem_append_left _ (List.mem_cons_self ..))).1

@[simp] theorem not_clean_stray (t : Token) : ¬ Clean [stray t] :=
  fun clean => by cases (clean _ (List.mem_append_left _ (List.mem_cons_self ..))).1

theorem clean_construct {name : RuleName} {offset : Nat} {ds : List Derivation} :
    Clean [construct name offset ds] ↔ name ≠ .exceptionGroup ∧ Clean ds := by
  simp [Clean, construct, kindsAll, Derivation.kinds, NodeKind.isError]

theorem clean_iff_forall {ds : List Derivation} : Clean ds ↔ ∀ d ∈ ds, Clean [d] := by
  induction ds with
  | nil => exact ⟨fun _ => nofun, fun _ => clean_nil⟩
  | cons d ds ih => rw [clean_cons, ih, List.forall_mem_cons]

end Grammar

end GrammarIndex
