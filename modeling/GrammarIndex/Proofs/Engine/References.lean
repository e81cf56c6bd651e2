import GrammarIndex.Engine.Query
import GrammarIndex.Proofs.Engine.Elected
import GrammarIndex.Proofs.Grammar.Layout

/-!
What is found at a reference.

The start of a terminal belongs to no other, so a question there is about that terminal. With the
index up to date, the definition found at a reference is the one that its name stands for in the
file's directory, and a reference is reported as undefined exactly if its name has no standing there
and is not built in.
-/
namespace GrammarIndex

/-- The place of the definition that a name stands for in the end; built-in names have none. -/
theorem ScopeStore.Sound.site_of_resolveTarget? {st : ScopeStore} (sound : st.Sound) {dir : Path}
    {g : Nat} (home : st.byKey.get? dir = some g) (x : String) :
    ((st.resolveTarget? g x).bind st.symbol?).bind (·.site) =
      ((st.standing g x).map Standing.meant).bind (·.site) := by
  rw [resolveTarget?, resolve?_eq sound.layered home]
  cases here : st.lookup? g x with
  | some id =>
    rw [Option.some_or, Option.map_some, Option.bind_some, symbol?_follow_bound sound.toCore here]
  | none =>
    have free := (standing_eq_none_iff sound.toCore g x).2 here
    rw [free, Option.none_or]
    cases above : st.lookup? globalScope x with
    | none => rfl
    | some id =>
      obtain ⟨s, live, _, top⟩ := sound.bound _ _ _ above
      have builtin := sound.file?_of_global live top
      have self := (sound.builtin id s live builtin).2
      rw [Option.map_some, Option.bind_some, follow_of_self sound.toCore live self, live]
      exact Option.map_eq_none_iff.1 builtin

namespace Engine

/-- The built-in names are bound in the global scope, and no others. -/
theorem lookup?_baseStore_eq_none_iff (x : String) :
    baseStore.lookup? ScopeStore.globalScope x = none ↔ ∀ b ∈ Grammar.builtins, b.1 ≠ x := by
  have names : (baseStore.namesOf ScopeStore.globalScope).entries =
      [("DEFAULT_MODE", 3), ("DEFAULT_TOKEN_CHANNEL", 2), ("EOF", 0), ("HIDDEN", 1)] := by
    decide +kernel
  rw [← ScopeStore.get?_namesOf, Option.eq_none_iff_forall_ne_some]
  simp only [ne_eq, Table.get?_eq_some_iff, names, Grammar.builtins, List.mem_cons,
    List.not_mem_nil, or_false, Prod.mk.injEq]
  constructor
  · rintro absent b (rfl | rfl | rfl | rfl) rfl
    · exact absent 0 (by simp)
    · exact absent 1 (by simp)
    · exact absent 2 (by simp)
    · exact absent 3 (by simp)
  · rintro absent id (⟨rfl, _⟩ | ⟨rfl, _⟩ | ⟨rfl, _⟩ | ⟨rfl, _⟩)
    · exact absent ("DEFAULT_MODE", .mode) (by simp) rfl
    · exact absent ("DEFAULT_TOKEN_CHANNEL", .channel) (by simp) rfl
    · exact absent ("EOF", .terminal) (by simp) rfl
    · exact absent ("HIDDEN", .channel) (by simp) rfl

/-- The node at an offset is a definition or a reference. -/
theorem occurs_of_nodeAt? {s : FileState} {offset n : Nat} (found : s.nodeAt? offset = some n) :
    n ∈ s.record.occurrences := by
  rw [FileState.nodeAt?, Option.or_eq_some_iff] at found
  rcases found with hit | ⟨_, hit⟩
  · exact List.mem_of_find?_eq_some hit
  · exact List.mem_of_find?_eq_some hit

section Fresh

variable {before e : Engine} (fresh : Fresh before e) {f : Path} {s : FileState}
  (found : e.index.file? f = some s)

include fresh found

/-- The references that are recorded are those of the text. -/
theorem Fresh.refers_iff {n : Nat} : s.Refers n ↔ s.record.refs.contains n = true := by
  rw [Table.contains, (fresh.settled found).1.marked.refs, FileState.Refers]
  split
  · next terminal => exact and_iff_right terminal
  · next absent => exact iff_of_false (fun refers => absurd refers.1 absent) (by simp)

/-- What occurs is a definition that the file lists or a reference. -/
theorem Fresh.occurs_cases {n : Nat} (occurs : n ∈ s.record.occurrences) :
    (∃ id, s.record.symbols.get? n = some id) ∨ s.Refers n := by
  rcases List.mem_append.1 occurs with defined | used
  · obtain ⟨c, noted⟩ := Option.isSome_iff_exists.1 (Table.contains_of_mem_keys defined)
    exact .inl ((fresh.settled found).1.attached.recorded.defs n c noted)
  · exact .inr ((fresh.refers_iff found).2 (Table.contains_of_mem_keys used))

theorem Fresh.occurs_of_refers {n : Nat} (refers : s.Refers n) : n ∈ s.record.occurrences :=
  List.mem_append.2 (.inr (Table.mem_keys_iff.2 ((fresh.refers_iff found).1 refers)))

theorem Fresh.occurs_of_listed {n id : Nat} (listed : s.record.symbols.get? n = some id) :
    n ∈ s.record.occurrences := by
  obtain ⟨_, c, _, _, _, noted, _⟩ :=
    (fresh.settled found).1.attached.recorded.described n id listed
  refine List.mem_append.2 (.inl (Table.mem_keys_iff.2 ?_))
  rw [Table.contains, noted]
  rfl

/-- Definitions and references of a file are terminals of its text. -/
theorem Fresh.terminal_of_occurs {n : Nat} (occurs : n ∈ s.record.occurrences) :
    n ∈ s.parsed.tree.terminals := by
  rcases fresh.occurs_cases found occurs with ⟨id, listed⟩ | refers
  · exact ((fresh.settled found).1.attached.recorded.described n id listed).1
  · exact refers.1

/-- A question at the start of a definition or a reference is about it. -/
theorem Fresh.nodeAt?_start {n : Nat} (occurs : n ∈ s.record.occurrences) :
    s.nodeAt? (s.parsed.tree.spanOf n).start = some n := by
  obtain ⟨_, d, _, read⟩ := fresh.settled found
  have terminal : ∀ {m}, m ∈ s.record.occurrences → m ∈ (Grammar.parse d.text).tree.terminals := by
    intro m occurs
    rw [← read.parsed]
    exact fresh.terminal_of_occurs found occurs
  unfold FileState.nodeAt?
  simp only [read.parsed]
  cases hit : s.record.occurrences.find? fun m =>
      ((Grammar.parse d.text).tree.spanOf m).covers ((Grammar.parse d.text).tree.spanOf n).start with
  | none =>
    have covers := Grammar.covers_start d.text (terminal occurs)
    exact absurd covers (by simpa using List.find?_eq_none.1 hit n occurs)
  | some m =>
    have covers := List.find?_some hit
    rw [Grammar.eq_of_covers d.text (terminal occurs) (terminal (List.mem_of_find?_eq_some hit))
      covers]
    rfl

/-- What a reference was resolved to leads where its name leads. -/
theorem Fresh.follow_resolved {n : Nat} (refers : s.Refers n) :
    (s.record.resolved.get? n).map e.index.scopes.follow =
      e.index.scopes.resolveTarget? s.scope (s.parsed.tree.textOf n) := by
  obtain ⟨settled, _⟩ := fresh.settled found
  have sound := fresh.consistent.sound
  rw [ScopeStore.resolveTarget?]
  rcases settled.resolved n refers with ⟨absent, unnoted⟩ | ⟨id, r, bound, noted, reaches⟩
  · rw [absent, unnoted, Option.map_none]
  · obtain ⟨sym, live, _⟩ := sound.symbol_of_resolve? settled.attached.home bound
    rw [bound, noted, Option.map_some, Option.map_some, (reaches.follow_eq sound live).1]

/-- A reference defines nothing, so it stands for what it was resolved to. -/
theorem Fresh.symbolAt?_of_refers {n : Nat} (refers : s.Refers n) :
    s.record.symbolAt? n = s.record.resolved.get? n := by
  obtain ⟨settled, _⟩ := fresh.settled found
  cases listed : s.record.symbols.get? n with
  | none => rw [BindingRecord.symbolAt?, listed, Option.none_or]
  | some id =>
    obtain ⟨_, c, _, _, _, noted, _⟩ := settled.attached.recorded.described n id listed
    obtain ⟨c', refers'⟩ := Option.isSome_iff_exists.1 refers.2
    have absent := (FileState.reference?_eq_some.1 refers').1
    rw [Table.contains, noted] at absent
    cases absent

/-- A question at a reference leads where its name leads. -/
theorem Fresh.targetAt?_start {n : Nat} (refers : s.Refers n) :
    e.targetAt? s (s.parsed.tree.spanOf n).start =
      e.index.scopes.resolveTarget? s.scope (s.parsed.tree.textOf n) := by
  simp only [Engine.targetAt?, fresh.nodeAt?_start found (fresh.occurs_of_refers found refers),
    fresh.symbolAt?_of_refers found refers, bind, pure, Option.bind_some]
  rw [← fresh.follow_resolved found refers]
  cases s.record.resolved.get? n <;> rfl

/-- The definition found at a reference is the one that its name stands for. -/
theorem Fresh.definitions_start {n : Nat} (refers : s.Refers n) :
    e.definitions f (s.parsed.tree.spanOf n).start = .ok
      (((((e.index.scopes.standing s.scope (s.parsed.tree.textOf n)).map Standing.meant).bind
        (·.site)).map fun site => (⟨site.file, site.span⟩ : Location)).toList) := by
  obtain ⟨settled, _⟩ := fresh.settled found
  have site := fresh.consistent.sound.site_of_resolveTarget? settled.attached.home
    (s.parsed.tree.textOf n)
  rw [← site]
  simp only [Engine.definitions, boundFile, found, bind, Except.bind, pure, Except.pure,
    fresh.targetAt?_start found refers]
  rw [Option.bind_assoc]

/-- What the dialect takes for a reference in the text is one of the file's references. -/
theorem Fresh.refers_of_reference {d : Document} (held : e.document? f = some d) {n : Nat}
    {c : Classification} (terminal : n ∈ (Grammar.parse d.text).tree.terminals)
    (reference : Grammar.dialect.reference? (Grammar.parse d.text).tree ∅ n = some c) :
    s.parsed = Grammar.parse d.text ∧ s.Refers n ∧ s.reference? n = some c := by
  obtain ⟨settled, d', held', read⟩ := fresh.settled found
  rw [held] at held'
  cases held'
  have undefined : s.record.defs.contains n = false := by
    cases noted : s.record.defs.get? n with
    | none => rw [Table.contains, noted]; rfl
    | some c' =>
      obtain ⟨id, listed⟩ := settled.attached.recorded.defs n c' noted
      obtain ⟨_, c'', _, _, defines, _⟩ := settled.attached.recorded.described n id listed
      rw [read.dialect, read.parsed] at defines
      rw [Grammar.reference?_of_definition d.text (Option.isSome_iff_exists.2 ⟨c'', defines⟩)]
        at reference
      cases reference
  have class_ : s.reference? n = some c := by
    refine FileState.reference?_eq_some.2 ⟨undefined, ?_⟩
    rw [read.dialect, read.parsed, ← reference]
    exact Grammar.reference?_congr (by rw [undefined]; rfl)
  exact ⟨read.parsed, ⟨by rw [read.parsed]; exact terminal, by rw [class_]; rfl⟩, class_⟩

/-- A reference is reported as undefined exactly if its name leads nowhere; there is no other
warning at its place. -/
theorem Fresh.warning_iff {n : Nat} {c : Classification} (refers : s.Refers n)
    (class_ : s.reference? n = some c) (message : String) :
    ⟨.warning, s.parsed.tree.spanOf n, message⟩ ∈ s.diagnostics ↔
      message = "undefined " ++ c.label ++ " '" ++ s.parsed.tree.textOf n ++ "'" ∧
        e.index.scopes.resolve? s.scope (s.parsed.tree.textOf n) = none := by
  obtain ⟨settled, d, _, read⟩ := fresh.settled found
  have resolved : s.record.resolved.contains n = false ↔
      e.index.scopes.resolve? s.scope (s.parsed.tree.textOf n) = none := by
    rw [Table.contains, Option.isSome_eq_false_iff, Option.isNone_iff_eq_none]
    rcases settled.resolved n refers with ⟨absent, unnoted⟩ | ⟨id, r, bound, noted, _⟩
    · simp [absent, unnoted]
    · simp [bound, noted]
  have noErrors : ∀ span, (⟨.warning, span, message⟩ : Diagnostic) ∉ s.syntaxErrors := by
    intro span member
    obtain ⟨m, _, made⟩ := List.mem_filterMap.1 member
    split at made
    · cases made
    · cases made
  rw [FileState.diagnostics, List.mem_mergeSort, List.mem_append, or_iff_right (noErrors _),
    FileState.undefinedNames, List.mem_map, ← resolved]
  constructor
  · rintro ⟨⟨m, c'⟩, member, made⟩
    obtain ⟨entry, unresolved⟩ := List.mem_filter.1 member
    simp only [Diagnostic.mk.injEq, true_and] at made
    obtain ⟨place, text⟩ := made
    have noted : s.record.refs.get? m = some c' := Table.get?_eq_some_iff.2 entry
    rw [settled.marked.refs] at noted
    split at noted
    · next terminal =>
      -- Only one terminal stands there.
      rw [read.parsed] at place terminal
      have same : m = n := by
        refine Grammar.spanOf_inj d.text ?_ terminal place
        rw [← read.parsed]
        exact refers.1
      subst same
      rw [class_] at noted
      cases noted
      rw [← text]
      exact ⟨rfl, by simpa using unresolved⟩
    · cases noted
  · rintro ⟨rfl, unresolved⟩
    refine ⟨(n, c), List.mem_filter.2 ⟨Table.get?_eq_some_iff.1 ?_, by simp [unresolved]⟩, rfl⟩
    rw [settled.marked.refs, if_pos refers.1, class_]

end Fresh

end Engine

end GrammarIndex
