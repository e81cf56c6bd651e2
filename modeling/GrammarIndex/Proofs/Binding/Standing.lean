import GrammarIndex.Proofs.Binding.Definitions
import GrammarIndex.Proofs.Scope.Standing

/-!
What binding the definitions of a file does to the standing of names.

The terminals of a file are heard in their order, each by the standing of its own name. While the
file is bound, each of its symbols is bound to its name or followed an announcement of it, so a name
that ends up bound to a symbol of the file has the file's first definition of it and, if that one
only announces the name, the file's first real one behind it. No other file can undo that later.
-/
namespace GrammarIndex

/-- The symbol has the name in the scope. -/
def Symbol.goesBy (s : Symbol) (g : Nat) (x : String) : Bool := s.scope == g && s.name == x

theorem Symbol.goesBy_iff {s : Symbol} {g : Nat} {x : String} :
    s.goesBy g x = true ↔ g = s.scope ∧ x = s.name := by
  rw [goesBy, Bool.and_eq_true, beq_iff_eq, beq_iff_eq]
  exact and_congr eq_comm eq_comm

/-- Every symbol of the file is bound to its name or stands behind the symbol that is. -/
def ScopeStore.Reached (st : ScopeStore) (p : Path) : Prop :=
  ∀ j u, st.symbol? j = some u → u.OwnedBy p → ∃ id s, st.lookup? u.scope u.name = some id ∧
    st.symbol? id = some s ∧ (j = id ∨ s.target = some j)

/-- If the new symbols of the file are reached, all of them are. -/
theorem ScopeStore.Reached.of_grown {st st' : ScopeStore} {p q : Path} (reached : st.Reached p)
    (grown : st.Grown q st')
    (fresh : ∀ j u, st'.symbol? j = some u → st.symbol? j = none → u.OwnedBy p →
      ∃ id s, st'.lookup? u.scope u.name = some id ∧ st'.symbol? id = some s ∧
        (j = id ∨ s.target = some j)) : st'.Reached p := by
  intro j u' live' own
  cases live : st.symbol? j with
  | none => exact fresh j u' live' live own
  | some u =>
    obtain ⟨u'', live'', alike, _⟩ := grown.stay j u live
    rw [live'] at live''
    cases live''
    obtain ⟨id, s, found, liveS, leads⟩ := reached j u live (alike.ownedBy.2 own)
    obtain ⟨s', liveS', _, aims⟩ := grown.stay id s liveS
    rw [alike.scope, alike.name] at found
    exact ⟨id, s', grown.names _ _ id found, liveS', leads.imp_right (aims j)⟩

namespace Binding

/-- The symbol that a terminal brings in, if it defines a name. -/
def symbolAt (d : Dialect) (tree : SyntaxTree) (p : Path) (scope node : Nat) : Option Symbol :=
  (d.definition? tree ∅ node).map (symbolFor d tree p scope node)

/-- The symbols that the terminals of a file could bring in, in their order. -/
def candidates (d : Dialect) (tree : SyntaxTree) (p : Path) (scope : Nat) : List Symbol :=
  tree.terminals.filterMap (symbolAt d tree p scope)

/-- The terminals that define a name, in their order. -/
def definersOf (d : Dialect) (tree : SyntaxTree) (x : String) : List Nat :=
  tree.terminals.filter fun n => (d.definition? tree ∅ n).isSome && tree.textOf n == x

section Pass

variable {d : Dialect} {tree : SyntaxTree} {p : Path} {scope : Nat} {seen : List Nat}
  {st : ScopeStore} {r : BindingRecord}

/-! ### One definition -/

theorem standing_bindDefinition (sound : st.Sound) {s : Symbol} (self : s.target = none)
    (inside : s.scope < st.scopes.size) (n g : Nat) (x : String) :
    (bindDefinition st r s n).1.standing g x =
      if s.goesBy g x then Standing.hear (st.standing g x) s else st.standing g x := by
  simp only [Symbol.goesBy_iff]
  have step := definitionStep sound r s n
  generalize bindDefinition st r s n = out at step ⊢
  cases step with
  | bound free => exact ScopeStore.standing_bind sound self free inside g x
  | followed taken live declares open_ real =>
    exact ScopeStore.standing_forward sound self real taken live open_ declares g x
  | @dropped source t taken live closed =>
    split
    · next here =>
      -- A real definition, one that is followed already, or a second announcement: nothing new.
      obtain ⟨rfl, rfl⟩ := here
      rw [ScopeStore.standing_of_bound taken live]
      cases target : t.target with
      | some u =>
        obtain ⟨_, w, liveW, _⟩ := sound.aimed source t u live target
        simp [Standing.hear, liveW]
      | none =>
        have silent : (t.bare.forward && !s.forward) = false := by
          cases declares : t.forward with
          | true => simp [closed declares target]
          | false => simp [Symbol.bare, declares]
        simp [Standing.hear, silent]
    · rfl

theorem reached_bindDefinition (sound : st.Sound) {s : Symbol} (inside : s.scope < st.scopes.size)
    (n : Nat) (grown : st.Grown p (bindDefinition st r s n).1) (reached : st.Reached p) :
    (bindDefinition st r s n).1.Reached p := by
  have alive := ScopeStore.symbol?_allocate_self sound.slots s
  have step := definitionStep sound r s n
  generalize bindDefinition st r s n = out at step grown ⊢
  cases step with
  | bound free =>
    refine reached.of_grown grown fun j u live dead _ => ?_
    rw [ScopeStore.symbol?_modifyNames] at live
    obtain ⟨rfl, rfl⟩ := ScopeStore.eq_allocated sound.slots s live dead
    refine ⟨_, u, ?_, by rw [ScopeStore.symbol?_modifyNames, alive], .inl rfl⟩
    exact (ScopeStore.lookup?_bind (st.allocate u).1 inside u.scope u.name u.name _).trans
      (if_pos ⟨rfl, rfl⟩)
  | @followed source t taken liveT declares open_ real =>
    have view := @ScopeStore.symbol?_forward_eq_some _ source (st.allocate s).2 _
      (ScopeStore.symbol?_allocate_of_live sound.slots s liveT)
    refine reached.of_grown grown fun j u live dead _ => ?_
    obtain ⟨rfl, -⟩ | ⟨-, live⟩ := (view j u).1 live
    · rw [liveT] at dead
      cases dead
    · obtain ⟨rfl, rfl⟩ := ScopeStore.eq_allocated sound.slots s live dead
      refine ⟨source, _, ?_, (view source _).2 (.inl ⟨rfl, rfl⟩), .inr rfl⟩
      rw [ScopeStore.lookup?_forward, ScopeStore.lookup?_allocate, taken]
  | dropped taken live closed => exact reached

/-! ### All terminals -/

/-- What holds before the terminals and is kept by each of them holds behind them. -/
theorem foldl_bindTerminal_induction (steady : d.Steady) {Q : List Nat → ScopeStore → Prop}
    (step : ∀ seen st r n, st.Sound → st.byKey.get? p.directory = some scope →
      Bound d tree p scope seen [n] st (bindTerminal d tree p scope (st, r) n).1
        (bindTerminal d tree p scope (st, r) n).2 →
      Q seen st → Q (seen ++ [n]) (bindTerminal d tree p scope (st, r) n).1)
    (new : List Nat) (sound : st.Sound) (home : st.byKey.get? p.directory = some scope)
    (recorded : Recorded d tree p scope seen st r) (distinct : (seen ++ new).Nodup)
    (holds : Q seen st) : Q (seen ++ new) (new.foldl (bindTerminal d tree p scope) (st, r)).1 := by
  induction new generalizing seen st r with
  | nil => simpa using holds
  | cons n new ih =>
    have fresh : n ∉ seen := fun member =>
      (List.nodup_append.1 distinct).2.2 n member n (by simp) rfl
    have first := bound_terminal steady sound home recorded fresh
    have kept := step seen st r n sound home first holds
    rw [List.foldl_cons]
    generalize bindTerminal d tree p scope (st, r) n = out at first kept ⊢
    obtain ⟨st', r'⟩ := out
    have rest := ih first.grown.sound (first.grown.keys ▸ home) first.recorded
      (by simpa using distinct) kept
    simpa using rest

/-- What a terminal does: it brings in the symbol of the name it defines, or nothing. -/
theorem bindTerminal_store (steady : d.Steady) (n : Nat) :
    (bindTerminal d tree p scope (st, r) n).1 = match symbolAt d tree p scope n with
      | some s => (bindDefinition st r s n).1
      | none => st := by
  unfold bindTerminal symbolAt
  simp only [steady tree r.defs n]
  cases d.definition? tree ∅ n with
  | some c => rfl
  | none => cases d.tag tree n <;> rfl

theorem eq_symbolFor_of_symbolAt {n : Nat} {s : Symbol}
    (brings : symbolAt d tree p scope n = some s) :
    ∃ c, d.definition? tree ∅ n = some c ∧ s = symbolFor d tree p scope n c := by
  obtain ⟨c, defines, same⟩ := Option.map_eq_some_iff.1 brings
  exact ⟨c, defines, same.symm⟩

/-- The definitions of a file are heard in their order. -/
theorem standing_bindDefinitions (steady : d.Steady) {parsed : Parsed} (sound : st.Sound)
    (home : st.byKey.get? p.directory = some scope)
    (gone : ∀ id s, st.symbol? id = some s → ¬ s.OwnedBy p)
    (distinct : parsed.tree.terminals.Nodup) (g : Nat) (x : String) :
    (bindDefinitions st d parsed p scope {}).1.standing g x =
      ((candidates d parsed.tree p scope).filter (·.goesBy g x)).foldl Standing.hear
        (st.standing g x) := by
  refine foldl_bindTerminal_induction steady (Q := fun seen st' => st'.standing g x =
    ((seen.filterMap (symbolAt d parsed.tree p scope)).filter (·.goesBy g x)).foldl Standing.hear
      (st.standing g x)) ?_ parsed.tree.terminals sound home (recorded_nil gone)
    (by simpa using distinct) rfl
  intro seen st' r n sound' home' _ sofar
  rw [bindTerminal_store steady, List.filterMap_append, List.filter_append, List.foldl_append,
    ← sofar]
  cases brings : symbolAt d parsed.tree p scope n with
  | none => simp [brings]
  | some s =>
    obtain ⟨c, _, rfl⟩ := eq_symbolFor_of_symbolAt brings
    have inside := (sound'.layered.keyed _ _ home').2
    have heard := standing_bindDefinition (r := r) sound'
      (s := symbolFor d parsed.tree p scope n c) rfl inside n g x
    simp only [heard, List.filterMap_cons, brings, List.filterMap_nil, List.filter_cons,
      List.filter_nil]
    split <;> rfl

theorem reached_bindDefinitions (steady : d.Steady) {parsed : Parsed} (sound : st.Sound)
    (home : st.byKey.get? p.directory = some scope)
    (gone : ∀ id s, st.symbol? id = some s → ¬ s.OwnedBy p)
    (distinct : parsed.tree.terminals.Nodup) :
    (bindDefinitions st d parsed p scope {}).1.Reached p := by
  refine foldl_bindTerminal_induction steady (Q := fun _ st' => st'.Reached p) ?_
    parsed.tree.terminals sound home (recorded_nil gone) (by simpa using distinct)
    fun j u live own => absurd own (gone j u live)
  intro seen st' r n sound' home' bound reached
  have grown := bound.grown
  rw [bindTerminal_store steady] at grown ⊢
  cases brings : symbolAt d parsed.tree p scope n with
  | none => exact reached
  | some s =>
    obtain ⟨c, _, rfl⟩ := eq_symbolFor_of_symbolAt brings
    rw [brings] at grown
    exact reached_bindDefinition sound' (sound'.layered.keyed _ _ home').2 n grown reached

/-! ### The names of a file -/

theorem filter_candidates (d : Dialect) (tree : SyntaxTree) (p : Path) (scope : Nat) (x : String) :
    (candidates d tree p scope).filter (·.goesBy scope x) =
      (definersOf d tree x).filterMap (symbolAt d tree p scope) := by
  unfold candidates definersOf
  induction tree.terminals with
  | nil => rfl
  | cons n rest ih =>
    rw [List.filterMap_cons, List.filter_cons]
    cases defines : d.definition? tree ∅ n with
    | none => simpa [symbolAt, defines] using ih
    | some c =>
      have brings : symbolAt d tree p scope n = some (symbolFor d tree p scope n c) := by
        rw [symbolAt, defines, Option.map_some]
      have named : (symbolFor d tree p scope n c).goesBy scope x = (tree.textOf n == x) := by
        simp [Symbol.goesBy, symbolFor]
      simp only [brings, List.filter_cons, named, ih, Option.isSome_some, Bool.true_and]
      split <;> simp [brings]

/-- Where a name is bound to a symbol of the file, it is the file's first definition of the name;
if that only announces the name, the file's first real definition follows it; and the file has no
further symbols of that name. -/
def Seated (d : Dialect) (tree : SyntaxTree) (p : Path) (scope : Nat) (st : ScopeStore)
    (r : BindingRecord) : Prop :=
  ∀ x id s, st.lookup? scope x = some id → st.symbol? id = some s → s.OwnedBy p →
    (∃ n, (definersOf d tree x).head? = some n ∧ r.symbols.get? n = some id) ∧
    (∀ m j, r.symbols.get? m = some j → tree.textOf m = x → j = id ∨ s.target = some j) ∧
    (s.forward = true → ∀ m, (definersOf d tree x).find? (!d.isForward tree ·) = some m →
      ∃ j, r.symbols.get? m = some j ∧ s.target = some j)

theorem Seated.congr {q : Path} {r' : BindingRecord} (seated : Seated d tree p scope st r)
    (same : p.components = q.components) (symbols : r'.symbols = r.symbols) :
    Seated d tree q scope st r' := by
  intro x id s found live own
  rw [symbols]
  exact seated x id s found live (own.congr same.symm)

/-- Other files do not matter. -/
theorem Seated.of_frame {st' : ScopeStore} (seated : Seated d tree p scope st r)
    (recorded : Recorded d tree p scope seen st r) {files : List Path}
    (frame : st.Frame files st') (apart : ∀ q ∈ files, p.components ≠ q.components) :
    Seated d tree p scope st' r := by
  intro x id s' found' live' own'
  have outside : ∀ {s : Symbol}, s.OwnedBy p → s.Outside files := by
    intro s own q member own'
    exact apart q member (own.unique own')
  obtain ⟨s, live, alike⟩ := frame.back id s' live' (outside own')
  have own := alike.ownedBy.2 own'
  obtain ⟨first, only, second⟩ := seated x id s
    (frame.namesBack _ _ id s' found' live' (outside own')) live own
  -- What the symbol stands for is the file's own, so it goes on standing for it.
  have kept : ∀ {m j}, r.symbols.get? m = some j → s.target = some j → s'.target = some j := by
    intro m j listed aimed
    obtain ⟨_, _, q, u, _, _, spelled, liveU, alikeU⟩ := recorded.described m j listed
    have ownU : u.OwnedBy p := alikeU.ownedBy.1 (Symbol.ownedBy_iff.2 ⟨q, rfl, spelled⟩)
    exact frame.aims id s s' j u live live' (outside own) aimed liveU (outside ownU)
  refine ⟨first, fun m j listed text => (only m j listed text).imp_right (kept listed), ?_⟩
  intro declares m real
  obtain ⟨j, listed, aimed⟩ := second (alike.forward ▸ declares) m real
  exact ⟨j, listed, kept listed aimed⟩

theorem find?_filterMap_symbolAt {l : List Nat}
    (defines : ∀ n ∈ l, (d.definition? tree ∅ n).isSome = true) :
    (l.filterMap (symbolAt d tree p scope)).find? (!·.forward) =
      (l.find? (!d.isForward tree ·)).bind (symbolAt d tree p scope) := by
  induction l with
  | nil => rfl
  | cons n l ih =>
    obtain ⟨c, class_⟩ := Option.isSome_iff_exists.1 (defines n (by simp))
    have later := ih fun m member => defines m (by simp [member])
    have brings : symbolAt d tree p scope n = some (symbolFor d tree p scope n c) := by
      rw [symbolAt, class_, Option.map_some]
    have kind : (symbolFor d tree p scope n c).forward = d.isForward tree n := rfl
    rw [List.filterMap_cons, brings]
    simp only [List.find?_cons, kind, later]
    cases d.isForward tree n with
    | false => simp [brings]
    | true => simp

/-- Definitions heard in order: the first comes first, and the first real one follows if the first
only announces the name. -/
theorem heard_in_order {l : List Nat}
    (defines : ∀ n ∈ l, (d.definition? tree ∅ n).isSome = true) {v : Standing}
    (heard : (l.filterMap (symbolAt d tree p scope)).foldl Standing.hear none = some v) :
    (∃ n c, l.head? = some n ∧ v.first = symbolFor d tree p scope n c) ∧
      (v.first.forward = true → ∀ m, l.find? (!d.isForward tree ·) = some m →
        ∃ c, v.second = some (symbolFor d tree p scope m c)) := by
  cases l with
  | nil => cases heard
  | cons n l =>
    obtain ⟨c, class_⟩ := Option.isSome_iff_exists.1 (defines n (by simp))
    rw [List.filterMap_cons, symbolAt, class_, Option.map_some, Standing.foldl_hear_none,
      Option.some.injEq] at heard
    subst heard
    refine ⟨⟨n, c, rfl, rfl⟩, fun announces m real => ?_⟩
    have skipped : d.isForward tree n = true := announces
    rw [List.find?_cons, skipped] at real
    simp only [Bool.not_true] at real
    obtain ⟨c', class'⟩ := Option.isSome_iff_exists.1
      (defines m (by simp [List.mem_of_find?_eq_some real]))
    refine ⟨c', ?_⟩
    rw [if_pos announces, find?_filterMap_symbolAt fun k member => defines k (by simp [member]), real,
      Option.bind_some, symbolAt, class', Option.map_some]

/-- The file's own symbols are listed under the terminals they come from. -/
theorem Recorded.listed_of_bare (recorded : Recorded d tree p scope seen st r) {id n : Nat}
    {s : Symbol} {c : Classification} (live : st.symbol? id = some s)
    (same : s.bare = symbolFor d tree p scope n c) : r.symbols.get? n = some id := by
  have own : s.OwnedBy p := by
    have : s.bare.OwnedBy p := same ▸ symbolFor_owned d tree p scope n c
    exact this
  obtain ⟨m, _, q, _, listed, _, _, _, alike⟩ := recorded.site live own
  have site : s.site = some ⟨p, n, tree.spanOf n⟩ := congrArg Symbol.site same
  have here : (symbolFor d tree q scope m _).site = some ⟨p, n, tree.spanOf n⟩ :=
    alike.site.trans site
  have node : m = n := congrArg Site.node (Option.some.inj here)
  exact node ▸ listed

/-- Binding a file that has no symbols yet seats it. -/
theorem seated_bindDefinitions (steady : d.Steady) {parsed : Parsed} (sound : st.Sound)
    (home : st.byKey.get? p.directory = some scope)
    (gone : ∀ id s, st.symbol? id = some s → ¬ s.OwnedBy p)
    (distinct : parsed.tree.terminals.Nodup) :
    Seated d parsed.tree p scope (bindDefinitions st d parsed p scope {}).1
      (bindDefinitions st d parsed p scope {}).2 := by
  have bound := bound_definitions steady sound home gone distinct
  have reached := reached_bindDefinitions steady sound home gone distinct
  have heard := standing_bindDefinitions steady sound home gone distinct scope
  simp only [filter_candidates] at heard
  generalize bindDefinitions st d parsed p scope {} = out at bound reached heard
  obtain ⟨st', r⟩ := out
  have recorded : Recorded d parsed.tree p scope parsed.tree.terminals st' r := bound.recorded
  simp only at heard reached ⊢
  intro x id s found live own
  have stands := ScopeStore.standing_of_bound found live
  rw [heard] at stands
  -- The name was free before: its symbol is the file's.
  have free : st.standing scope x = none := by
    rw [ScopeStore.standing_eq_none_iff sound.toCore]
    cases before : st.lookup? scope x with
    | none => rfl
    | some id' =>
      have same := bound.grown.names scope x id' before
      rw [found] at same
      cases same
      obtain ⟨s₀, live₀, _⟩ := sound.bound scope x id before
      obtain ⟨s', live', alike, _⟩ := bound.grown.stay id s₀ live₀
      rw [live] at live'
      cases live'
      exact absurd (alike.ownedBy.2 own) (gone id s₀ live₀)
  rw [free] at stands
  have defines : ∀ n ∈ definersOf d parsed.tree x,
      (d.definition? parsed.tree ∅ n).isSome = true := by
    intro n member
    have kept := (List.mem_filter.1 member).2
    simp only [Bool.and_eq_true] at kept
    exact kept.1
  obtain ⟨⟨n, c, head, first⟩, second⟩ := heard_in_order defines stands
  refine ⟨⟨n, head, recorded.listed_of_bare live first⟩, ?_, ?_⟩
  · intro m j listed text
    obtain ⟨_, c, q, u, _, _, spelled, liveU, alike⟩ := recorded.described m j listed
    obtain ⟨id', s', found', live', leads⟩ := reached j u liveU
      (alike.ownedBy.1 (Symbol.ownedBy_iff.2 ⟨q, rfl, spelled⟩))
    have here : st'.lookup? u.scope u.name = st'.lookup? scope x := by
      rw [← alike.scope, ← alike.name, ← text]
      rfl
    rw [here, found] at found'
    cases found'
    rw [live] at live'
    cases live'
    exact leads
  · intro declares m real
    obtain ⟨c', follows⟩ := second declares m real
    obtain ⟨u, target, same⟩ := Option.map_eq_some_iff.1 follows
    obtain ⟨j, aimed, liveU⟩ := Option.bind_eq_some_iff.1 target
    exact ⟨j, recorded.listed_of_bare liveU same, aimed⟩

end Pass

end Binding

end GrammarIndex
