import GrammarIndex.Proofs.Engine.Agreement
import GrammarIndex.Proofs.Engine.References
import GrammarIndex.Proofs.Grammar.Lossless

/-!
The places of a name.

With the index up to date, definitions and references fall into classes by what they stand for.
Asking anywhere in a class gives the whole class, sorted; it holds the place of the definition, if
there is one, and with one reference every like-named reference of the directory.
-/
namespace GrammarIndex

/-! ### Sorting locations -/

/-- Sorting by a comparison leaves nothing out of order. -/
theorem pairwise_mergeSort_of_order {α : Type} (order : α → α → Ordering) [Std.TransCmp order]
    (l : List α) : (l.mergeSort fun a b => order a b != .gt).Pairwise fun a b =>
      order a b ≠ .gt := by
  refine (List.pairwise_mergeSort (fun a b c lower upper => ?_) (fun a b => ?_) _).imp
    fun ordered => by simpa using ordered
  · rw [bne_iff_ne] at lower upper ⊢
    exact Ordering.isLE_iff_ne_gt.1 (Std.TransCmp.isLE_trans
      (Ordering.isLE_iff_ne_gt.2 lower) (Ordering.isLE_iff_ne_gt.2 upper))
  · have swapped : order b a = (order a b).swap := Std.OrientedCmp.eq_swap
    rw [Bool.or_eq_true, bne_iff_ne, bne_iff_ne, swapped]
    cases order a b <;> simp

namespace Spot

instance : Std.TransCmp order :=
  inferInstanceAs (Std.TransCmp (compareLex (compareOn Prod.fst)
    (compareLex (compareOn fun a : Spot => a.2.start) (compareOn fun a : Spot => a.2.stop))))

theorem order_eq_iff {a b : Spot} : order a b = .eq ↔ a = b := by
  obtain ⟨file, start, stop⟩ := a
  obtain ⟨file', start', stop'⟩ := b
  simp [order, Ordering.then_eq_eq]

/-- Of several equal spots one is left, so the same spots are there. -/
theorem mem_foldr_front {l : List Spot} {a : Spot} : a ∈ l.foldr front [] ↔ a ∈ l := by
  induction l with
  | nil => rfl
  | cons b l ih =>
    have kept : a ∈ front b (l.foldr front []) ↔ a = b ∨ a ∈ l.foldr front [] := by
      cases l.foldr front [] with
      | nil => simp [front]
      | cons next rest =>
        simp only [front]
        split
        · next same =>
          have equal : b = next := order_eq_iff.1 (eq_of_beq same)
          simp [equal]
        · simp
    rw [List.foldr_cons, kept, ih, List.mem_cons]

/-- Sorted spots are strictly sorted when one of several equal ones is left. -/
theorem pairwise_foldr_front {l : List Spot} (sorted : l.Pairwise fun a b => order a b ≠ .gt) :
    (l.foldr front []).Pairwise fun a b => order a b = .lt := by
  induction l with
  | nil => exact .nil
  | cons a l ih =>
    obtain ⟨lower, sorted⟩ := List.pairwise_cons.1 sorted
    have strict := ih sorted
    have bound : ∀ b ∈ l.foldr front [], order a b ≠ .gt := fun b member =>
      lower b (mem_foldr_front.1 member)
    rw [List.foldr_cons]
    generalize l.foldr front [] = rest at strict bound
    cases rest with
    | nil => exact List.pairwise_singleton _ a
    | cons next rest =>
      obtain ⟨first, others⟩ := List.pairwise_cons.1 strict
      simp only [front]
      split
      · next same =>
        have equal : a = next := order_eq_iff.1 (eq_of_beq same)
        rw [equal]
        exact strict
      · next other =>
        have below : order a next = .lt := by
          have notAbove := bound next List.mem_cons_self
          cases place : order a next with
          | lt => rfl
          | eq => exact absurd place (by simpa using other)
          | gt => exact absurd place notAbove
        refine List.pairwise_cons.2 ⟨fun b member => ?_, strict⟩
        rcases List.mem_cons.1 member with rfl | member
        · exact below
        · exact Std.TransCmp.lt_trans below (first b member)

end Spot

namespace Location

theorem mem_spots_canonical {ls : List Location} {a : Spot} :
    a ∈ (canonical ls).map spot ↔ a ∈ ls.map spot := by
  rw [map_spot_canonical, Spot.canonical, Spot.mem_foldr_front, List.mem_mergeSort]

theorem pairwise_canonical (ls : List Location) :
    (canonical ls).Pairwise fun l l' => l.order l' = .lt := by
  have sorted := pairwise_mergeSort_of_order Spot.order (ls.map spot)
  have strict := Spot.pairwise_foldr_front sorted
  rw [← Spot.canonical, ← map_spot_canonical] at strict
  exact List.pairwise_map.1 strict

end Location

theorem Location.mem_of_canonical {ls : List Location} {l : Location} (member : l ∈ canonical ls) :
    l ∈ ls := by
  suffices listed : l ∈ ls.mergeSort fun a b => a.order b != .gt from List.mem_mergeSort.1 listed
  unfold canonical at member
  generalize (ls.mergeSort fun a b => a.order b != .gt) = sorted at member ⊢
  induction sorted with
  | nil => exact member
  | cons first rest ih =>
    rw [List.foldr_cons] at member
    split at member
    · split at member
      · rcases List.mem_cons.1 member with rfl | member
        · exact List.mem_cons_self
        · exact List.mem_cons_of_mem _ (ih (List.mem_of_mem_drop member))
      · rcases List.mem_cons.1 member with rfl | member
        · exact List.mem_cons_self
        · exact List.mem_cons_of_mem _ (ih member)
    · rw [List.mem_singleton.1 member]
      exact List.mem_cons_self

namespace Engine

theorem ok_of_bind {α β : Type} {x : Except Error α} {f : α → Except Error β} {b : β}
    (ok : x >>= f = .ok b) : ∃ a, x = .ok a ∧ f a = .ok b := by
  cases x with
  | error err => cases ok
  | ok a => exact ⟨a, rfl, ok⟩

theorem ok_of_map {α β : Type} {x : Except Error α} {f : α → β} {b : β} (ok : x.map f = .ok b) :
    ∃ a, x = .ok a ∧ f a = b := by
  cases x with
  | error err => cases ok
  | ok a => exact ⟨a, rfl, Except.ok.inj ok⟩

theorem file?_of_boundFile {e : Engine} {p : Path} {s : FileState} (ok : e.boundFile p = .ok s) :
    e.index.file? p = some s := by
  unfold boundFile at ok
  split at ok
  · next state found =>
    cases ok
    exact found
  · cases ok


section Fresh

variable {before e : Engine} (fresh : Fresh before e)

include fresh

/-- What a definition or a reference stands for is a live symbol of its name, in the scope of the
file's directory or built in, and stands for itself. -/
theorem Fresh.symbol_of_occurs {f : Path} {s : FileState} (found : e.index.file? f = some s)
    {n id : Nat} (at_ : s.record.symbolAt? n = some id) :
    ∃ sym, e.index.scopes.symbol? (e.index.scopes.follow id) = some sym ∧
      sym.name = s.parsed.tree.textOf n ∧ (sym.scope = s.scope ∨ sym.isBuiltin = true) ∧
      sym.target = none := by
  obtain ⟨settled, _⟩ := fresh.settled found
  have sound := fresh.consistent.sound
  rcases Option.or_eq_some_iff.1 at_ with listed | ⟨_, noted⟩
  · obtain ⟨_, c, q, sym, _, _, _, live, alike⟩ :=
      settled.attached.recorded.described n id listed
    obtain ⟨sym', live', name, scope, self⟩ := ScopeStore.live_follow sound.toCore live
    exact ⟨sym', live', name.trans alike.name.symm, .inl (scope.trans alike.scope.symm), self⟩
  · have refers := settled.marked.resolved n id noted
    rcases settled.resolved n refers with ⟨_, unnoted⟩ | ⟨id', r, bound, noted', reaches⟩
    · rw [noted] at unnoted
      cases unnoted
    · rw [noted] at noted'
      cases noted'
      obtain ⟨sym, live, name, place⟩ := sound.symbol_of_resolve? settled.attached.home bound
      rw [(reaches.follow_eq sound live).1]
      obtain ⟨sym', live', name', scope, self⟩ := ScopeStore.live_follow sound.toCore live
      refine ⟨sym', live', name'.trans name, ?_, self⟩
      rcases place with here | above
      · exact .inl (scope.trans here)
      · have builtin := sound.file?_of_global live above
        have builtin' := sound.file?_of_global live' (scope.trans above)
        exact .inr (by rw [Symbol.isBuiltin, Option.map_eq_none_iff.1 builtin']; rfl)

omit fresh in
/-- The places that are found for a symbol. -/
theorem mem_occurrences {target : Nat} {a : Spot} :
    a ∈ (e.occurrences target).map Location.spot ↔ ∃ f s n, e.index.file? f = some s ∧
      n ∈ s.record.occurrences ∧ (s.record.symbolAt? n).map e.index.scopes.follow = some target ∧
      a = (f.components, s.parsed.tree.spanOf n) := by
  rw [Engine.occurrences, Location.mem_spots_canonical]
  simp only [List.mem_map, List.mem_flatMap, List.mem_filter, beq_iff_eq]
  constructor
  · rintro ⟨_, ⟨⟨f, s⟩, entry, n, ⟨occurs, leads⟩, rfl⟩, rfl⟩
    exact ⟨f, s, n, Table.get?_of_mem entry, occurs, leads, rfl⟩
  · rintro ⟨f, s, n, found, occurs, leads, rfl⟩
    obtain ⟨f', entry, spelled⟩ := Table.mem_of_get? found
    have same := (Path.compare_eq_iff f f').1 spelled
    exact ⟨_, ⟨(f', s), entry, n, ⟨occurs, leads⟩, rfl⟩, by rw [Location.spot, same]⟩

/-- Asking at the start of a definition or a reference is asking about what it stands for. -/
theorem Fresh.references_start {f : Path} {s : FileState} (found : e.index.file? f = some s) {n : Nat}
    (occurs : n ∈ s.record.occurrences) {target : Nat}
    (leads : (s.record.symbolAt? n).map e.index.scopes.follow = some target) :
    e.references f (s.parsed.tree.spanOf n).start = .ok (e.occurrences target) := by
  have asked : e.targetAt? s (s.parsed.tree.spanOf n).start = some target := by
    rw [targetAt?, fresh.nodeAt?_start found occurs]
    obtain ⟨id, at_, rfl⟩ := Option.map_eq_some_iff.1 leads
    simp [at_]
  simp only [references, boundFile, found, bind, Except.bind, asked]
  rfl

/-- A symbol that stands for itself is found at its definition. -/
theorem Fresh.mem_occurrences_site {target : Nat} {sym : Symbol}
    (live : e.index.scopes.symbol? target = some sym) (self : sym.target = none) {site : Site}
    (place : sym.site = some site) :
    (site.file.components, site.span) ∈ (e.occurrences target).map Location.spot := by
  have file : sym.file? = some site.file := by rw [Symbol.file?, place, Option.map_some]
  obtain ⟨f, s, d, n, origin⟩ := fresh.origin live file
  obtain rfl : site = ⟨f, n, s.parsed.tree.spanOf n⟩ :=
    Option.some.inj (place.symm.trans origin.site)
  refine mem_occurrences.2 ⟨f, s, n, origin.found, ?_, ?_, rfl⟩
  · exact fresh.occurs_of_listed origin.found origin.listed
  · rw [BindingRecord.symbolAt?, origin.listed, Option.some_or, Option.map_some,
      ScopeStore.follow_of_self fresh.consistent.sound.toCore live self]

/-- References to one name in one directory lead to one symbol. -/
theorem Fresh.leads_alike {f f' : Path} {s s' : FileState} (found : e.index.file? f = some s)
    (found' : e.index.file? f' = some s')
    (together : f'.directory.components = f.directory.components) {n n' : Nat}
    (refers : s.Refers n) (refers' : s'.Refers n')
    (alike : s'.parsed.tree.textOf n' = s.parsed.tree.textOf n) :
    (s'.record.resolved.get? n').map e.index.scopes.follow =
      (s.record.resolved.get? n).map e.index.scopes.follow := by
  have home := (fresh.settled found).1.attached.home
  have home' := (fresh.settled found').1.attached.home
  rw [PathTable.get?_congr _ together, home] at home'
  rw [fresh.follow_resolved found refers, fresh.follow_resolved found' refers', alike,
    ← Option.some.inj home']

omit fresh in
/-- A place that is found for a symbol is that of a definition or a reference. -/
theorem occurs_of_mem_occurrences {target : Nat} {l : Location} (member : l ∈ e.occurrences target) :
    ∃ s n, e.index.file? l.file = some s ∧ n ∈ s.record.occurrences ∧
      (s.record.symbolAt? n).map e.index.scopes.follow = some target ∧
      s.parsed.tree.spanOf n = l.span := by
  obtain ⟨f, s, n, found, occurs, leads, spot⟩ := mem_occurrences.1 (List.mem_map_of_mem member)
  obtain ⟨file, span⟩ := Prod.mk.inj spot
  exact ⟨s, n, (PathTable.get?_congr _ file).trans found, occurs, leads, span.symm⟩

/-- A definition or a reference has its name in the present text. -/
theorem Fresh.stretch_of_occurs {f : Path} {s : FileState} (found : e.index.file? f = some s)
    {n : Nat} (occurs : n ∈ s.record.occurrences) :
    ∃ d, e.document? f = some d ∧
      (s.parsed.tree.spanOf n).start < (s.parsed.tree.spanOf n).stop ∧
      (s.parsed.tree.spanOf n).stop ≤ d.text.length ∧
      Grammar.stretch d.text (s.parsed.tree.spanOf n) = (s.parsed.tree.textOf n).toList := by
  obtain ⟨_, d, held, read⟩ := fresh.settled found
  have terminal := fresh.terminal_of_occurs found occurs
  rw [read.parsed] at terminal ⊢
  obtain ⟨token, text, kind, filled, within, chars⟩ := Grammar.stretch_terminal d.text terminal
  refine ⟨d, held, filled, within, ?_⟩
  rw [← chars, SyntaxTree.textOf, SyntaxTree.text?, kind]
  rfl

end Fresh

/-- With the index up to date, whatever came before, the places that are found for a name are
strictly sorted, and each of them holds the name of one and the same symbol. Asking at any of them
finds them all again, the definition that is found for the name is among them, and so is every
like-named reference of the directory of a reference among them. -/
theorem references_partition (config : Config) (operations : List Operation) {p : Path}
    {offset : Nat} {ls : List Location}
    (current : (after config operations).needsCompile = false)
    (answer : (after config operations).references p offset = .ok ls) (some_ : ls ≠ []) :
    let e := after config operations
    (ls.Pairwise fun l l' => l.order l' = .lt) ∧
      (∃ id sym, e.index.scopes.symbol? id = some sym ∧ ∀ l ∈ ls,
        (∃ s n, e.index.file? l.file = some s ∧ s.parsed.tree.spanOf n = l.span ∧
          (s.record.symbolAt? n).map e.index.scopes.follow = some id) ∧
        ∃ d, e.document? l.file = some d ∧ l.span.start < l.span.stop ∧
          l.span.stop ≤ d.text.length ∧ Grammar.stretch d.text l.span = sym.name.toList) ∧
      (∀ l ∈ ls, e.references l.file l.span.start = .ok ls) ∧
      (∃ ds, e.definitions p offset = .ok ds ∧ ∀ l ∈ ds, l.spot ∈ ls.map Location.spot) ∧
      ∀ f s n f' s' n', e.index.file? f = some s → s.Refers n →
        (f.components, s.parsed.tree.spanOf n) ∈ ls.map Location.spot →
        e.index.file? f' = some s' → f'.directory.components = f.directory.components →
        s'.Refers n' → s'.parsed.tree.textOf n' = s.parsed.tree.textOf n →
        (f'.components, s'.parsed.tree.spanOf n') ∈ ls.map Location.spot := by
  intro e
  have fresh := fresh_of_current (consistent_after config operations) current
  obtain ⟨state, bound, rest⟩ := ok_of_bind answer
  obtain ⟨target, asked, rfl⟩ : ∃ target, e.targetAt? state offset = some target ∧
      e.occurrences target = ls := by
    split at rest
    · cases rest
      exact absurd rfl some_
    · next target asked =>
      cases rest
      exact ⟨target, asked, rfl⟩
  refine ⟨Location.pairwise_canonical _, ?_, ?_, ?_, ?_⟩
  · -- One place tells what the symbol is called, and all others hold the same name.
    obtain ⟨l, member⟩ := List.exists_mem_of_ne_nil _ some_
    obtain ⟨s, n, found, _, leads, _⟩ := occurs_of_mem_occurrences member
    obtain ⟨id, at_, rfl⟩ := Option.map_eq_some_iff.1 leads
    obtain ⟨sym, live, _⟩ := fresh.symbol_of_occurs found at_
    refine ⟨_, sym, live, fun l' member' => ?_⟩
    obtain ⟨s', n', found', occurs', leads', span'⟩ := occurs_of_mem_occurrences member'
    refine ⟨⟨s', n', found', span', leads'⟩, ?_⟩
    obtain ⟨id', at', same⟩ := Option.map_eq_some_iff.1 leads'
    obtain ⟨sym', live', name, _⟩ := fresh.symbol_of_occurs found' at'
    rw [same, live] at live'
    cases live'
    rw [name, ← span']
    exact fresh.stretch_of_occurs found' occurs'
  · intro l member
    obtain ⟨s, n, found, occurs, leads, span⟩ := occurs_of_mem_occurrences member
    rw [← span]
    exact fresh.references_start found occurs leads
  · refine ⟨_, by rw [definitions, bound]; rfl, fun l member => ?_⟩
    rw [asked, Option.bind_some, Option.mem_toList, Option.map_eq_some_iff] at member
    obtain ⟨site, place, rfl⟩ := member
    obtain ⟨l, listed⟩ := List.exists_mem_of_ne_nil _ some_
    obtain ⟨s, n, found, _, leads, _⟩ := occurs_of_mem_occurrences listed
    obtain ⟨id, at_, rfl⟩ := Option.map_eq_some_iff.1 leads
    obtain ⟨sym, live, _, _, self⟩ := fresh.symbol_of_occurs found at_
    rw [live, Option.bind_some] at place
    exact fresh.mem_occurrences_site live self place
  · intro f s n f' s' n' found refers listed found' together refers' alike
    obtain ⟨g, t, m, foundT, occurs, leads, spot⟩ := mem_occurrences.1 listed
    obtain ⟨file, span⟩ := Prod.mk.inj spot
    rw [Index.file?, ← PathTable.get?_congr _ file, ← Index.file?, found] at foundT
    cases foundT
    obtain ⟨_, d, _, read⟩ := fresh.settled found
    have same : m = n := by
      refine Grammar.spanOf_inj d.text ?_ ?_ ?_
      · rw [← read.parsed]
        exact refers.1
      · rw [← read.parsed]
        exact fresh.terminal_of_occurs found occurs
      · rw [← read.parsed, span]
    subst same
    refine mem_occurrences.2 ⟨f', s', n', found', fresh.occurs_of_refers found' refers', ?_, rfl⟩
    rw [fresh.symbolAt?_of_refers found' refers', fresh.leads_alike found found' together refers
      refers' alike, ← fresh.symbolAt?_of_refers found refers, leads]

/-- A token is announced in one file and defined in another; both use it. -/
def announced : List Operation :=
  [.openDocument (.of "a.g4") "tokens { A } x : A ;", .openDocument (.of "b.g4") "A : 'a' ; y : A ;",
    .compile]

theorem references_partition_announced : ∃ ls,
    (after {} announced).references (.of "a.g4") 17 = .ok ls ∧ ls ≠ [] ∧
      (ls.Pairwise fun l l' => l.order l' = .lt) ∧
      ∀ l ∈ ls, (after {} announced).references l.file l.span.start = .ok ls := by
  have used : (((after {} announced).index.file? (.of "a.g4")).any fun s =>
      ((after {} announced).targetAt? s 17).any fun target => s.record.occurrences.any fun n =>
        (s.record.symbolAt? n).map (after {} announced).index.scopes.follow == some target) =
      true := by decide +kernel
  obtain ⟨s, found, used⟩ := (Option.any_eq_true _ _).1 used
  obtain ⟨target, asked, used⟩ := (Option.any_eq_true _ _).1 used
  obtain ⟨n, occurs, leads⟩ := List.any_eq_true.1 used
  have spot := mem_occurrences.2 ⟨_, s, n, found, occurs, eq_of_beq leads, rfl⟩
  have some_ : (after {} announced).occurrences target ≠ [] := by
    intro none_
    rw [none_] at spot
    cases spot
  have answer : (after {} announced).references (.of "a.g4") 17 =
      .ok ((after {} announced).occurrences target) := by
    rw [references, boundFile, found]
    simp only [bind, Except.bind, asked]
    rfl
  obtain ⟨sorted, _, again, _⟩ := references_partition {} announced (by decide +kernel) answer some_
  exact ⟨_, answer, some_, sorted, again⟩

end Engine

end GrammarIndex
