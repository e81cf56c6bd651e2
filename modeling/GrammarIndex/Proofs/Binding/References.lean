import GrammarIndex.Binding
import GrammarIndex.Proofs.Dependency
import GrammarIndex.Proofs.Scope.Sound

/-!
Resolving the references of a file.

The record lists every reference with its class; it lists what each stands for, or the name if it
stands for nothing. The file comes to depend on the files of the symbols it meets, and no edge of
another file changes.
-/
namespace GrammarIndex.Binding

/-- The class of a reference; a bound definition is none. -/
def referenceAt (d : Dialect) (tree : SyntaxTree) (defs : Table Nat Classification) (node : Nat) :
    Option Classification :=
  if defs.contains node then none else d.reference? tree defs node

/-- The record lists the references among the terminals in `seen`, beside what it held before. -/
structure Traced (d : Dialect) (tree : SyntaxTree) (scope : Nat) (seen : List Nat)
    (st : ScopeStore) (r₀ r : BindingRecord) : Prop where
  defs : r.defs = r₀.defs
  symbols : r.symbols = r₀.symbols
  dropped : r.dropped = r₀.dropped
  comments : r.comments = r₀.comments
  refs : ∀ n, r.refs.get? n = if n ∈ seen then referenceAt d tree r₀.defs n else none
  tags : ∀ n, r.tags.get? n =
    if n ∈ seen then (referenceAt d tree r₀.defs n).or (r₀.tags.get? n) else r₀.tags.get? n
  resolved : ∀ n, r.resolved.get? n =
    if n ∈ seen ∧ (referenceAt d tree r₀.defs n).isSome = true
    then st.resolveTarget? scope (tree.textOf n) else none
  unresolved : ∀ x, r.unresolved.contains x = true ↔
    ∃ n ∈ seen, (referenceAt d tree r₀.defs n).isSome = true ∧ tree.textOf n = x ∧
      st.resolve? scope x = none

/-- The graph knows the files that the references among the terminals in `seen` lead to. -/
structure Linked (d : Dialect) (tree : SyntaxTree) (p : Path) (scope : Nat) (seen : List Nat)
    (st : ScopeStore) (defs : Table Nat Classification) (g₀ g : DependencyGraph) : Prop where
  others : ∀ q on, q.components ≠ p.components → (g.Refers q on ↔ g₀.Refers q on)
  own : ∀ n ∈ seen, (referenceAt d tree defs n).isSome = true →
    ∀ id, st.resolve? scope (tree.textOf n) = some id →
      ∀ j, j = id ∨ j = st.follow id → ∀ f, (st.symbol? j).bind Symbol.file? = some f →
        p.components = f.components ∨ g.Refers p f

section

variable {d : Dialect} {tree : SyntaxTree} {p : Path} {scope : Nat} {seen : List Nat}
  {st : ScopeStore} {r₀ r : BindingRecord} {g₀ g : DependencyGraph}

/-! ### Edges -/

theorem refers_dependOn (id : Nat) (q on : Path) :
    (dependOn st p g id).Refers q on ↔
      (∃ f, (st.symbol? id).bind Symbol.file? = some f ∧ p.components ≠ f.components ∧
        on.components = f.components ∧ q.components = p.components) ∨ g.Refers q on := by
  unfold dependOn
  split
  · next f file =>
    rw [DependencyGraph.refers_record]
    simp [file]
  · next none_ => simp [none_]

theorem dependOn_own (id : Nat) {f : Path} (file : (st.symbol? id).bind Symbol.file? = some f) :
    p.components = f.components ∨ (dependOn st p g id).Refers p f := by
  by_cases same : p.components = f.components
  · exact .inl same
  · exact .inr ((refers_dependOn id p f).2 (.inl ⟨f, file, same, rfl, rfl⟩))

theorem dependOn_grows (id : Nat) {q on : Path} (refers : g.Refers q on) :
    (dependOn st p g id).Refers q on :=
  (refers_dependOn id q on).2 (.inr refers)

theorem dependOn_others (id : Nat) {q : Path} (other : q.components ≠ p.components) (on : Path) :
    (dependOn st p g id).Refers q on ↔ g.Refers q on := by
  rw [refers_dependOn]
  constructor
  · rintro (⟨_, _, _, _, same⟩ | refers)
    · exact absurd same other
    · exact refers
  · exact .inr

/-! ### One terminal -/

/-- What happens at a terminal, by what it is. -/
theorem bindReference_eq (n : Nat) :
    bindReference st d tree p scope (r, g) n =
      match referenceAt d tree r.defs n with
      | none => (r, g)
      | some c =>
        let r := { r with refs := r.refs.insert n c, tags := r.tags.insert n c }
        match st.resolve? scope (tree.textOf n) with
        | none => ({ r with unresolved := OrderedSet.add r.unresolved (tree.textOf n) }, g)
        | some direct =>
          ({ r with resolved := r.resolved.insert n (st.follow direct) },
            dependOn st p (dependOn st p g direct) (st.follow direct)) := by
  unfold bindReference referenceAt
  simp only
  cases r.defs.contains n with
  | true => rfl
  | false =>
    cases d.reference? tree r.defs n with
    | none => rfl
    | some c => cases st.resolve? scope (tree.textOf n) <;> rfl

/-- A terminal that is no reference leaves the record as it is. -/
theorem Traced.silent (traced : Traced d tree scope seen st r₀ r) {n : Nat}
    (silent : referenceAt d tree r₀.defs n = none) :
    Traced d tree scope (seen ++ [n]) st r₀ r := by
  refine ⟨traced.defs, traced.symbols, traced.dropped, traced.comments, ?_, ?_, ?_, ?_⟩
  · intro m
    rw [traced.refs]
    by_cases same : m = n
    · subst same; simp [silent]
    · simp [same]
  · intro m
    rw [traced.tags]
    by_cases same : m = n
    · subst same; simp [silent]
    · simp [same]
  · intro m
    rw [traced.resolved]
    by_cases same : m = n
    · subst same; simp [silent]
    · simp [same]
  · intro x
    rw [traced.unresolved]
    constructor
    · rintro ⟨m, member, facts⟩
      exact ⟨m, by simp [member], facts⟩
    · rintro ⟨m, member, some_, facts⟩
      rcases List.mem_append.1 member with member | last
      · exact ⟨m, member, some_, facts⟩
      · rw [List.mem_singleton.1 last, silent] at some_
        cases some_

theorem traced_reference (traced : Traced d tree scope seen st r₀ r) (n : Nat) :
    Traced d tree scope (seen ++ [n]) st r₀ (bindReference st d tree p scope (r, g) n).1 := by
  have mem : ∀ m, m ∈ seen ++ [n] ↔ m ∈ seen ∨ m = n := by simp
  rw [bindReference_eq,
    show referenceAt d tree r.defs n = referenceAt d tree r₀.defs n by rw [traced.defs]]
  cases class_ : referenceAt d tree r₀.defs n with
  | none => exact traced.silent class_
  | some c =>
    have refs : ∀ m, (r.refs.insert n c).get? m =
        if m ∈ seen ++ [n] then referenceAt d tree r₀.defs m else none := by
      intro m
      rw [Table.get?_insert_lawful, traced.refs]
      by_cases same : m = n
      · subst same; simp [class_]
      · simp [same]
    have tags : ∀ m, (r.tags.insert n c).get? m = if m ∈ seen ++ [n] then
        (referenceAt d tree r₀.defs m).or (r₀.tags.get? m) else r₀.tags.get? m := by
      intro m
      rw [Table.get?_insert_lawful, traced.tags]
      by_cases same : m = n
      · subst same; simp [class_]
      · simp [same]
    cases found : st.resolve? scope (tree.textOf n) with
    | none =>
      refine ⟨traced.defs, traced.symbols, traced.dropped, traced.comments, refs, tags, ?_, ?_⟩
      · intro m
        simp only [traced.resolved]
        by_cases same : m = n
        · subst same; simp [ScopeStore.resolveTarget?, found]
        · simp [same]
      · intro x
        simp only [OrderedSet.contains_add, Bool.or_eq_true, decide_eq_true_eq,
          Std.LawfulEqCmp.compare_eq_iff_eq, traced.unresolved]
        constructor
        · rintro (rfl | ⟨m, member, facts⟩)
          · exact ⟨n, (mem n).2 (.inr rfl), by simp [class_], rfl, found⟩
          · exact ⟨m, (mem m).2 (.inl member), facts⟩
        · rintro ⟨m, member, some_, name, facts⟩
          rcases (mem m).1 member with member | rfl
          · exact .inr ⟨m, member, some_, name, facts⟩
          · exact .inl name.symm
    | some direct =>
      refine ⟨traced.defs, traced.symbols, traced.dropped, traced.comments, refs, tags, ?_, ?_⟩
      · intro m
        simp only [Table.get?_insert_lawful, traced.resolved]
        by_cases same : m = n
        · subst same; simp [class_, ScopeStore.resolveTarget?, found]
        · simp [same]
      · intro x
        simp only [traced.unresolved]
        constructor
        · rintro ⟨m, member, facts⟩
          exact ⟨m, (mem m).2 (.inl member), facts⟩
        · rintro ⟨m, member, some_, name, facts⟩
          rcases (mem m).1 member with member | rfl
          · exact ⟨m, member, some_, name, facts⟩
          · rw [← name, found] at facts
            cases facts

theorem linked_reference (linked : Linked d tree p scope seen st r.defs g₀ g) (n : Nat) :
    Linked d tree p scope (seen ++ [n]) st r.defs g₀
      (bindReference st d tree p scope (r, g) n).2 := by
  rw [bindReference_eq]
  -- What the graph must know about the terminals before this one stays known when it grows.
  have keep : ∀ {g' : DependencyGraph}, (∀ on, g.Refers p on → g'.Refers p on) →
      (∀ q on, q.components ≠ p.components → (g'.Refers q on ↔ g.Refers q on)) →
      ((referenceAt d tree r.defs n).isSome = true →
        ∀ id, st.resolve? scope (tree.textOf n) = some id →
        ∀ j, j = id ∨ j = st.follow id → ∀ f, (st.symbol? j).bind Symbol.file? = some f →
          p.components = f.components ∨ g'.Refers p f) →
      Linked d tree p scope (seen ++ [n]) st r.defs g₀ g' := by
    intro g' grows same last
    refine ⟨fun q on other => (same q on other).trans (linked.others q on other), ?_⟩
    intro m member some_
    rcases List.mem_append.1 member with member | here
    · intro id found j which f file
      exact (linked.own m member some_ id found j which f file).imp_right (grows f)
    · rw [List.mem_singleton.1 here] at some_ ⊢
      exact last some_
  cases class_ : referenceAt d tree r.defs n with
  | none =>
    refine keep (fun _ h => h) (fun _ _ _ => Iff.rfl) fun some_ => ?_
    rw [class_] at some_
    cases some_
  | some c =>
    cases found : st.resolve? scope (tree.textOf n) with
    | none =>
      refine keep (fun _ h => h) (fun _ _ _ => Iff.rfl) fun _ id found' => ?_
      rw [found] at found'
      cases found'
    | some direct =>
      refine keep (fun on h => dependOn_grows _ (dependOn_grows _ h))
        (fun q on other => (dependOn_others _ other on).trans (dependOn_others _ other on)) ?_
      intro _ id found' j which f file
      rw [found] at found'
      cases found'
      rcases which with rfl | rfl
      · exact (dependOn_own j file).imp_right (dependOn_grows _)
      · exact dependOn_own _ file

/-! ### All terminals -/

theorem traced_references (new : List Nat) (traced : Traced d tree scope seen st r₀ r)
    (linked : Linked d tree p scope seen st r₀.defs g₀ g) :
    Traced d tree scope (seen ++ new) st r₀
        (new.foldl (bindReference st d tree p scope) (r, g)).1 ∧
      Linked d tree p scope (seen ++ new) st r₀.defs g₀
        (new.foldl (bindReference st d tree p scope) (r, g)).2 := by
  induction new generalizing seen r g with
  | nil => simpa using ⟨traced, linked⟩
  | cons n new ih =>
    have trace := traced_reference (p := p) (g := g) traced n
    have link := linked_reference (r := r) (traced.defs ▸ linked) n
    rw [List.foldl_cons]
    generalize bindReference st d tree p scope (r, g) n = out at trace link ⊢
    obtain ⟨r', g'⟩ := out
    have later := ih trace (traced.defs ▸ link)
    rwa [List.append_assoc] at later

/-- Resolving all references of a file. -/
theorem traced_bindReferences (st : ScopeStore) (d : Dialect) (parsed : Parsed) (p : Path)
    (scope : Nat) (r : BindingRecord) (g : DependencyGraph) :
    Traced d parsed.tree scope parsed.tree.terminals st r
        (bindReferences st d parsed p scope r g).1 ∧
      Linked d parsed.tree p scope parsed.tree.terminals st r.defs g
        (bindReferences st d parsed p scope r g).2 := by
  have start : Traced d parsed.tree scope [] st r
      { r with refs := ∅, resolved := ∅, unresolved := ∅ } :=
    ⟨rfl, rfl, rfl, rfl, by simp, by simp, by simp, by simp [Table.contains]⟩
  have edges : Linked d parsed.tree p scope [] st r.defs g (g.clear p) :=
    ⟨fun q on other => DependencyGraph.refers_clear g other on, by simp⟩
  exact traced_references parsed.tree.terminals start edges

end

end GrammarIndex.Binding
