import GrammarIndex.Binding
import GrammarIndex.Proofs.Scope.Frame

/-!
Binding the definitions of a file.

Each terminal that defines a name either brings in a symbol of its own, which the record then lists
under the terminal, or finds the name taken and leaves it among the dropped ones. In both cases the
name is bound afterwards. What the record lists are exactly the live symbols of the file.
-/
namespace GrammarIndex

/-- What a terminal defines does not depend on the definitions bound before it. -/
def Dialect.Steady (d : Dialect) : Prop :=
  ∀ tree defs node, d.definition? tree defs node = d.definition? tree ∅ node

namespace Binding

/-- The symbol that a terminal brings in. -/
def symbolFor (d : Dialect) (tree : SyntaxTree) (p : Path) (scope node : Nat)
    (c : Classification) : Symbol :=
  { name := tree.textOf node, classification := c, scope,
    site := some ⟨p, node, tree.spanOf node⟩, forward := d.isForward tree node }

/-- The record of a file fits the store, as far as the terminals in `seen` are bound. -/
structure Recorded (d : Dialect) (tree : SyntaxTree) (p : Path) (scope : Nat) (seen : List Nat)
    (st : ScopeStore) (r : BindingRecord) : Prop where
  described : ∀ n id, r.symbols.get? n = some id → n ∈ seen ∧
    ∃ c q s, d.definition? tree ∅ n = some c ∧ r.defs.get? n = some c ∧
      q.components = p.components ∧ st.symbol? id = some s ∧ (symbolFor d tree q scope n c).Alike s
  owned : ∀ id s, st.symbol? id = some s → s.OwnedBy p → ∃ n, r.symbols.get? n = some id
  defs : ∀ n c, r.defs.get? n = some c → ∃ id, r.symbols.get? n = some id
  covered : ∀ n ∈ seen, (d.definition? tree ∅ n).isSome = true →
    r.dropped.contains (tree.textOf n) = true ∨
      ∃ id s, st.lookup? scope (tree.textOf n) = some id ∧ st.symbol? id = some s ∧ s.OwnedBy p

section Recorded

variable {d : Dialect} {tree : SyntaxTree} {p : Path} {scope : Nat} {seen : List Nat}
  {st st' : ScopeStore} {r r' : BindingRecord}

/-- A file without symbols, nothing of which is bound yet. -/
theorem recorded_nil (gone : ∀ id s, st.symbol? id = some s → ¬ s.OwnedBy p) :
    Recorded d tree p scope [] st {} where
  described n id found := by cases found
  owned id s live own := absurd own (gone id s live)
  defs n c found := by cases found
  covered n member := by cases member

/-- Other files do not matter. -/
theorem Recorded.of_frame (recorded : Recorded d tree p scope seen st r) {files : List Path}
    (frame : st.Frame files st') (apart : ∀ q ∈ files, p.components ≠ q.components) :
    Recorded d tree p scope seen st' r := by
  have outside : ∀ {s : Symbol}, s.OwnedBy p → s.Outside files := by
    intro s own q member own'
    exact apart q member (own.unique own')
  refine ⟨?_, ?_, recorded.defs, ?_⟩
  · intro n id found
    obtain ⟨member, c, q, s, defines, noted, spelled, live, alike⟩ := recorded.described n id found
    have own : s.OwnedBy p := by
      refine alike.ownedBy.1 ?_
      exact Symbol.ownedBy_iff.2 ⟨q, rfl, spelled⟩
    obtain ⟨s', live', alike'⟩ := frame.stay id s live (outside own)
    exact ⟨member, c, q, s', defines, noted, spelled, live', alike.trans alike'⟩
  · intro id s' live' own
    obtain ⟨s, live, alike⟩ := frame.back id s' live' (outside own)
    exact recorded.owned id s live (alike.ownedBy.2 own)
  · intro n member defines
    rcases recorded.covered n member defines with late | ⟨id, s, found, live, own⟩
    · exact .inl late
    · obtain ⟨s', live', alike⟩ := frame.stay id s live (outside own)
      exact .inr ⟨id, s', frame.names _ _ id s found live (outside own), live',
        alike.ownedBy.1 own⟩

/-- The symbols of a file that a record describes come from its own terminals. -/
theorem Recorded.site (recorded : Recorded d tree p scope seen st r) {id : Nat} {s : Symbol}
    (live : st.symbol? id = some s) (own : s.OwnedBy p) :
    ∃ n c q, n ∈ seen ∧ r.symbols.get? n = some id ∧ r.defs.get? n = some c ∧
      d.definition? tree ∅ n = some c ∧ q.components = p.components ∧
      (symbolFor d tree q scope n c).Alike s := by
  obtain ⟨n, found⟩ := recorded.owned id s live own
  obtain ⟨member, c, q, s', defines, noted, spelled, live', alike⟩ := recorded.described n id found
  rw [live] at live'
  cases live'
  exact ⟨n, c, q, member, found, noted, defines, spelled, alike⟩

/-- A terminal whose name is left among the dropped ones. -/
theorem Recorded.skip (recorded : Recorded d tree p scope seen st r) {n : Nat}
    (symbols : r'.symbols = r.symbols) (defs : r'.defs = r.defs)
    (dropped : ∀ x, r.dropped.contains x = true → r'.dropped.contains x = true)
    (late : (d.definition? tree ∅ n).isSome = true → r'.dropped.contains (tree.textOf n) = true) :
    Recorded d tree p scope (seen ++ [n]) st r' := by
  refine ⟨?_, ?_, ?_, ?_⟩
  · intro m id found
    rw [symbols] at found
    obtain ⟨member, facts⟩ := recorded.described m id found
    rw [defs]
    exact ⟨by simp [member], facts⟩
  · rw [symbols]
    exact recorded.owned
  · rw [symbols, defs]
    exact recorded.defs
  · intro m member defines
    rcases List.mem_append.1 member with member | last
    · exact (recorded.covered m member defines).imp_left (dropped _)
    · rw [List.mem_singleton.1 last] at defines ⊢
      exact .inl (late defines)

/-- A terminal that brings in a symbol. -/
theorem Recorded.note (recorded : Recorded d tree p scope seen st r) (r' : BindingRecord)
    (grown : st.Grown p st') {n id : Nat} {c : Classification} {s : Symbol} (fresh : n ∉ seen)
    (defines : d.definition? tree ∅ n = some c) (live : st'.symbol? id = some s)
    (alike : (symbolFor d tree p scope n c).Alike s)
    (only : ∀ j s', st'.symbol? j = some s' → st.symbol? j = none → j = id)
    (dropped : ∀ x, r.dropped.contains x = true → r'.dropped.contains x = true)
    (covered : r'.dropped.contains (tree.textOf n) = true ∨
      st'.lookup? scope (tree.textOf n) = some id) :
    Recorded d tree p scope (seen ++ [n]) st'
      { r' with defs := r.defs.insert n c, symbols := r.symbols.insert n id } := by
  have own : s.OwnedBy p := alike.ownedBy.1 (Symbol.ownedBy_iff.2 ⟨p, rfl, rfl⟩)
  have stay : ∀ {j s₀}, st.symbol? j = some s₀ → ∃ s', st'.symbol? j = some s' ∧ s₀.Alike s' := by
    intro j s₀ live₀
    obtain ⟨s', live', alike', _⟩ := grown.stay j s₀ live₀
    exact ⟨s', live', alike'⟩
  refine ⟨?_, ?_, ?_, ?_⟩
  · intro m j found
    simp only [Table.get?_insert_lawful] at found ⊢
    by_cases same : m = n
    · subst same
      rw [if_pos rfl] at found
      cases found
      exact ⟨by simp, c, p, s, defines, if_pos rfl, rfl, live, alike⟩
    · rw [if_neg same] at found
      obtain ⟨member, c', q, s₀, defines', noted, spelled, live₀, alike₀⟩ :=
        recorded.described m j found
      obtain ⟨s', live', alike'⟩ := stay live₀
      exact ⟨by simp [member], c', q, s', defines', by rw [if_neg same, noted], spelled, live',
        alike₀.trans alike'⟩
  · intro j s' live' own'
    simp only [Table.get?_insert_lawful]
    cases live₀ : st.symbol? j with
    | none => exact ⟨n, by rw [if_pos rfl, only j s' live' live₀]⟩
    | some s₀ =>
      obtain ⟨s'', live'', alike''⟩ := stay live₀
      rw [live'] at live''
      cases live''
      obtain ⟨m, found⟩ := recorded.owned j s₀ live₀ (alike''.ownedBy.2 own')
      refine ⟨m, ?_⟩
      rw [if_neg, found]
      rintro rfl
      exact fresh (recorded.described m j found).1
  · intro m c' noted
    simp only [Table.get?_insert_lawful] at noted ⊢
    by_cases same : m = n
    · exact ⟨id, by rw [if_pos same]⟩
    · rw [if_neg same] at noted ⊢
      exact recorded.defs m c' noted
  · intro m member defines'
    rcases List.mem_append.1 member with member | last
    · rcases recorded.covered m member defines' with late | ⟨j, s₀, found, live₀, own₀⟩
      · exact .inl (dropped _ late)
      · obtain ⟨s', live', alike'⟩ := stay live₀
        exact .inr ⟨j, s', grown.names _ _ j found, live', alike'.ownedBy.1 own₀⟩
    · rw [List.mem_singleton.1 last]
      exact covered.imp_right fun found => ⟨id, s, found, live, own⟩

end Recorded

/-! ### One terminal -/

/-- What binding terminals of a file comes to: the file only gained symbols, its record fits, and
the names its terminals define are bound. -/
structure Bound (d : Dialect) (tree : SyntaxTree) (p : Path) (scope : Nat) (seen new : List Nat)
    (st st' : ScopeStore) (r' : BindingRecord) : Prop where
  grown : st.Grown p st'
  recorded : Recorded d tree p scope (seen ++ new) st' r'
  named : ∀ n ∈ new, (d.definition? tree ∅ n).isSome = true →
    (st'.lookup? scope (tree.textOf n)).isSome = true

section Terminal

variable {d : Dialect} {tree : SyntaxTree} {p : Path} {scope : Nat} {seen : List Nat}
  {st : ScopeStore} {r : BindingRecord}

theorem contains_dropped_add (r : BindingRecord) (x y : String) :
    (OrderedSet.add r.dropped x).contains y = true ↔ y = x ∨ r.dropped.contains y = true := by
  rw [OrderedSet.contains_add]
  simp

theorem symbolFor_admitted (d : Dialect) (tree : SyntaxTree)
    (home : st.byKey.get? p.directory = some scope) (n : Nat) (c : Classification) :
    st.Admitted (symbolFor d tree p scope n c) where
  self := rfl
  home q file := by
    cases file
    exact home
  free none_ := by cases none_

theorem symbolFor_owned (d : Dialect) (tree : SyntaxTree) (p : Path) (scope n : Nat)
    (c : Classification) : (symbolFor d tree p scope n c).OwnedBy p :=
  Symbol.ownedBy_iff.2 ⟨p, rfl, rfl⟩

/-- What binding one definition does, by what its name is bound to before. -/
inductive DefinitionStep (st : ScopeStore) (r : BindingRecord) (s : Symbol) (n : Nat) :
    ScopeStore × BindingRecord → Prop
  /-- The name is free: the symbol is bound to it. -/
  | bound (free : st.lookup? s.scope s.name = none) :
      DefinitionStep st r s n
        ((st.allocate s).1.modifyNames s.scope (·.insert s.name (st.allocate s).2),
          noteDefinition { r with tags := r.tags.insert n s.classification } n (st.allocate s).2
            s.classification)
  /-- The name is only announced: the symbol becomes what the announcement stands for. -/
  | followed {source : Nat} {t : Symbol} (taken : st.lookup? s.scope s.name = some source)
      (live : st.symbol? source = some t) (declares : t.forward = true) (self : t.target = none)
      (real : s.forward = false) :
      DefinitionStep st r s n
        ((st.allocate s).1.forward source (st.allocate s).2,
          noteDefinition
            { r with
              tags := r.tags.insert n s.classification
              dropped := OrderedSet.add r.dropped s.name }
            n (st.allocate s).2 s.classification)
  /-- The name is taken. -/
  | dropped {source : Nat} {t : Symbol} (taken : st.lookup? s.scope s.name = some source)
      (live : st.symbol? source = some t)
      (closed : t.forward = true → t.target = none → s.forward = true) :
      DefinitionStep st r s n
        (st, { r with
          tags := r.tags.insert n s.classification
          dropped := OrderedSet.add r.dropped s.name })

theorem definitionStep (sound : st.Sound) (r : BindingRecord) (s : Symbol) (n : Nat) :
    DefinitionStep st r s n (bindDefinition st r s n) := by
  cases taken : st.lookup? s.scope s.name with
  | none =>
    simp only [bindDefinition, ScopeStore.define, taken]
    exact .bound taken
  | some source =>
    obtain ⟨t, live, -⟩ := sound.bound _ _ _ taken
    have open_ : (isOpenDeclaration st source && !s.forward) = true ↔
        (t.forward = true ∧ t.target = none) ∧ s.forward = false := by
      simp [isOpenDeclaration, live]
    simp only [bindDefinition, ScopeStore.define, taken]
    split
    · next announced =>
      obtain ⟨⟨declares, self⟩, real⟩ := open_.1 announced
      exact .followed taken live declares self real
    · next closed =>
      refine .dropped taken live fun declares self => ?_
      cases real : s.forward with
      | true => rfl
      | false => exact absurd (open_.2 ⟨⟨declares, self⟩, real⟩) closed

/-- A name that is bound is bound for every terminal in the list of the one that defines it. -/
theorem named_of_lookup {st' : ScopeStore} {n id : Nat}
    (found : st'.lookup? scope (tree.textOf n) = some id) :
    ∀ m ∈ [n], (d.definition? tree ∅ m).isSome = true →
      (st'.lookup? scope (tree.textOf m)).isSome = true := by
  intro m member _
  rw [List.mem_singleton.1 member, found]
  rfl

/-- Binding one definition. -/
theorem bound_definition (sound : st.Sound) (home : st.byKey.get? p.directory = some scope)
    (recorded : Recorded d tree p scope seen st r) {n : Nat} {c : Classification}
    (fresh : n ∉ seen) (defines : d.definition? tree ∅ n = some c) :
    Bound d tree p scope seen [n] st (bindDefinition st r (symbolFor d tree p scope n c) n).1
      (bindDefinition st r (symbolFor d tree p scope n c) n).2 := by
  have admitted := symbolFor_admitted d tree home n c
  have own := symbolFor_owned d tree p scope n c
  obtain ⟨positive, inside⟩ := sound.layered.keyed _ _ home
  have alive := ScopeStore.symbol?_allocate_self sound.slots (symbolFor d tree p scope n c)
  have late : ∀ x, (OrderedSet.add r.dropped (tree.textOf n)).contains x = true ↔
      x = tree.textOf n ∨ r.dropped.contains x = true := contains_dropped_add r (tree.textOf n)
  have step := definitionStep sound r (symbolFor d tree p scope n c) n
  generalize bindDefinition st r (symbolFor d tree p scope n c) n = out at step ⊢
  cases step with
  | bound free =>
    have grown := ScopeStore.grown_bind sound admitted own free inside
    have bound := (ScopeStore.lookup?_bind (st.allocate (symbolFor d tree p scope n c)).1 inside
      scope (tree.textOf n) (tree.textOf n) (st.allocate (symbolFor d tree p scope n c)).2).trans
        (if_pos ⟨rfl, rfl⟩)
    refine ⟨grown, recorded.note (c := c) { r with tags := r.tags.insert n c } grown fresh defines ?_
      (.refl _) ?_ (fun _ h => h) (.inr bound), named_of_lookup bound⟩
    · rw [ScopeStore.symbol?_modifyNames, alive]
    · intro j s' live dead
      rw [ScopeStore.symbol?_modifyNames] at live
      exact (ScopeStore.eq_allocated sound.slots _ live dead).1
  | @followed source t taken live declares self real =>
    obtain ⟨t', live', nameT, scopeT⟩ := sound.bound _ _ _ taken
    rw [live] at live'
    cases live'
    have sited : t.file? ≠ none := by
      intro builtin
      have top := (sound.builtin source t live builtin).1
      rw [scopeT] at top
      exact absurd (top ▸ positive : 0 < ScopeStore.globalScope) (by decide)
    have grown := ScopeStore.grown_forward sound admitted own real live self declares nameT scopeT
      sited
    have liveT := ScopeStore.symbol?_allocate_of_live sound.slots (symbolFor d tree p scope n c) live
    refine ⟨grown, recorded.note (c := c)
      { r with tags := r.tags.insert n c, dropped := OrderedSet.add r.dropped (tree.textOf n) }
      grown fresh defines ?_ (.refl _) ?_ (fun x h => (late x).2 (.inr h))
      (.inl ((late _).2 (.inl rfl))),
      named_of_lookup ((ScopeStore.lookup?_forward scope (tree.textOf n)).trans taken)⟩
    · rw [ScopeStore.symbol?_forward liveT, if_neg (ScopeStore.ne_allocated sound.slots _ live).symm,
        alive]
    · intro j s' live' dead
      obtain ⟨rfl, -⟩ | ⟨-, live'⟩ := (ScopeStore.symbol?_forward_eq_some liveT j s').1 live'
      · rw [live] at dead
        cases dead
      · exact (ScopeStore.eq_allocated sound.slots _ live' dead).1
  | dropped taken live closed =>
    exact ⟨.refl sound p, recorded.skip rfl rfl (fun x h => (late x).2 (.inr h))
      (fun _ => (late _).2 (.inl rfl)), named_of_lookup taken⟩

/-- Binding one terminal. -/
theorem bound_terminal (steady : d.Steady) (sound : st.Sound)
    (home : st.byKey.get? p.directory = some scope)
    (recorded : Recorded d tree p scope seen st r) {n : Nat} (fresh : n ∉ seen) :
    Bound d tree p scope seen [n] st (bindTerminal d tree p scope (st, r) n).1
      (bindTerminal d tree p scope (st, r) n).2 := by
  unfold bindTerminal
  simp only [steady tree r.defs n]
  cases defines : d.definition? tree ∅ n with
  | some c => exact bound_definition sound home recorded fresh defines
  | none =>
    have nothing : ∀ m ∈ [n], (d.definition? tree ∅ m).isSome = true →
        (st.lookup? scope (tree.textOf m)).isSome = true := by
      intro m member some_
      rw [List.mem_singleton.1 member, defines] at some_
      cases some_
    cases d.tag tree n with
    | none =>
      exact ⟨.refl sound p, recorded.skip rfl rfl (fun _ h => h) (by simp [defines]), nothing⟩
    | some tag =>
      exact ⟨.refl sound p, recorded.skip rfl rfl (fun _ h => h) (by simp [defines]), nothing⟩

/-! ### All terminals -/

theorem bound_terminals (steady : d.Steady) (new : List Nat) (sound : st.Sound)
    (home : st.byKey.get? p.directory = some scope)
    (recorded : Recorded d tree p scope seen st r) (distinct : (seen ++ new).Nodup) :
    Bound d tree p scope seen new st (new.foldl (bindTerminal d tree p scope) (st, r)).1
      (new.foldl (bindTerminal d tree p scope) (st, r)).2 := by
  induction new generalizing seen st r with
  | nil => exact ⟨.refl sound p, by simpa using recorded, by simp⟩
  | cons n new ih =>
    have fresh : n ∉ seen := by
      intro member
      exact (List.nodup_append.1 distinct).2.2 n member n (by simp) rfl
    have first := bound_terminal steady sound home recorded fresh
    rw [List.foldl_cons]
    generalize bindTerminal d tree p scope (st, r) n = out at first ⊢
    obtain ⟨st', r'⟩ := out
    have rest := ih first.grown.sound (first.grown.keys ▸ home) first.recorded
      (by simpa using distinct)
    refine ⟨first.grown.trans rest.grown, by simpa using rest.recorded, ?_⟩
    intro m member defines
    rcases List.mem_cons.1 member with rfl | member
    · have named := first.named m (by simp) defines
      obtain ⟨id, found⟩ := Option.isSome_iff_exists.1 named
      rw [rest.grown.names _ _ id found]
      rfl
    · exact rest.named m member defines

/-- Binding the definitions of a file that has no symbols yet. -/
theorem bound_definitions (steady : d.Steady) {parsed : Parsed} (sound : st.Sound)
    (home : st.byKey.get? p.directory = some scope)
    (gone : ∀ id s, st.symbol? id = some s → ¬ s.OwnedBy p)
    (distinct : parsed.tree.terminals.Nodup) :
    Bound d parsed.tree p scope [] parsed.tree.terminals st
      (bindDefinitions st d parsed p scope {}).1 (bindDefinitions st d parsed p scope {}).2 := by
  have none_ : Recorded d parsed.tree p scope [] st {} := recorded_nil gone
  have bound := bound_terminals steady parsed.tree.terminals sound home none_
    (by simpa using distinct)
  exact ⟨bound.grown, ⟨bound.recorded.described, bound.recorded.owned, bound.recorded.defs,
    bound.recorded.covered⟩, bound.named⟩

/-! ### Highlighting -/

/-- How a terminal is highlighted before references are known. -/
def tagFor (d : Dialect) (tree : SyntaxTree) (node : Nat) : Option Classification :=
  (d.definition? tree ∅ node).or (d.tag tree node)

theorem tags_bindDefinition (s : Symbol) (n : Nat) :
    (bindDefinition st r s n).2.tags = r.tags.insert n s.classification := by
  unfold bindDefinition
  split
  · rfl
  · split <;> rfl

theorem get?_tags_bindTerminal (steady : d.Steady) (n m : Nat) :
    (bindTerminal d tree p scope (st, r) n).2.tags.get? m =
      if m = n then (tagFor d tree m).or (r.tags.get? m) else r.tags.get? m := by
  unfold bindTerminal tagFor
  simp only [steady tree r.defs n]
  by_cases same : m = n
  · subst same
    cases d.definition? tree ∅ m with
    | some c => simp [tags_bindDefinition, Table.get?_insert_lawful]
    | none => cases d.tag tree m <;> simp [Table.get?_insert_lawful]
  · cases d.definition? tree ∅ n with
    | some c => simp [tags_bindDefinition, Table.get?_insert_lawful, same]
    | none => cases d.tag tree n <;> simp [Table.get?_insert_lawful, same]

theorem get?_tags_bindTerminals (steady : d.Steady) (new : List Nat) (m : Nat) :
    (new.foldl (bindTerminal d tree p scope) (st, r)).2.tags.get? m =
      if m ∈ new then (tagFor d tree m).or (r.tags.get? m) else r.tags.get? m := by
  induction new generalizing st r with
  | nil => simp
  | cons n new ih =>
    have first : (bindTerminal d tree p scope (st, r) n).2.tags.get? m =
        if m = n then (tagFor d tree m).or (r.tags.get? m) else r.tags.get? m :=
      get?_tags_bindTerminal steady n m
    rw [List.foldl_cons]
    generalize bindTerminal d tree p scope (st, r) n = out at first ⊢
    obtain ⟨st', r'⟩ := out
    rw [ih, first]
    by_cases same : m = n
    · subst same
      by_cases later : m ∈ new
      · cases tagFor d tree m <;> simp [later]
      · simp [later]
    · simp [same]

/-- Definitions are highlighted as what they define, other terminals as the dialect says. -/
theorem get?_tags_bindDefinitions (steady : d.Steady) (parsed : Parsed) (m : Nat) :
    (bindDefinitions st d parsed p scope {}).2.tags.get? m =
      if m ∈ parsed.tree.terminals then tagFor d parsed.tree m else none := by
  refine (get?_tags_bindTerminals steady parsed.tree.terminals m).trans ?_
  simp only [Table.get?_empty, Option.or_none]

end Terminal

/-! ### Built-in names -/

/-- Binding built-in names keeps a store that has no symbols of files. -/
theorem sound_defineBuiltins {st : ScopeStore} (sound : st.Sound)
    (files : ∀ id s, st.symbol? id = some s → s.file? = none) (d : Dialect) :
    (defineBuiltins st d).Sound ∧
      ∀ id s, (defineBuiltins st d).symbol? id = some s → s.file? = none := by
  unfold defineBuiltins
  generalize d.builtins = names
  induction names generalizing st with
  | nil => exact ⟨sound, files⟩
  | cons b names ih =>
    obtain ⟨sound', files'⟩ := ScopeStore.sound_define_builtin sound b.1 b.2 files
    exact ih sound' files'

end Binding

end GrammarIndex
