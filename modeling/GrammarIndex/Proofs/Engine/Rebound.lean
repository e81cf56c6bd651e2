import GrammarIndex.Proofs.Engine.Renamed

/-!
Binding documents in which a symbol was renamed.

In the directory of the symbol the new name comes to stand for what the old name stood for, and any
other name that is referred to stands for what it did. So references mean what they meant, up to the
new name and the places that moved, and the new name leads to a symbol that occurs where the old
one occurred.
-/
namespace GrammarIndex.Engine

open Grammar (Respelling)

variable {docs : List Document} {before e before' e' : Engine} {target : Nat} {sym : Symbol}
  {name : String} (ren : Renaming docs before e target sym name)
  (again : AtOnce (docs.map (e.respellings target name).document) before' e')

/-! ### Names -/

section Names

variable {dir : Path} {g g' : Nat} (home : e.index.scopes.scopeFor? dir = some g)
  (home' : e'.index.scopes.scopeFor? dir = some g')

include ren again home home'

/-- A name that is neither the old one nor the new one keeps its definitions. -/
theorem Renaming.standing_other {y : String} (other : g = sym.scope → y ≠ name ∧ y ≠ sym.name) :
    e'.index.scopes.standing g' y = (e.index.scopes.standing g y).map
      (Standing.map ((e.respellings target name).symbol g')) := by
  have moved : definitionsOf (docs.map (e.respellings target name).document) dir g' y =
      ((definitionsOf docs dir g y).filter fun _ => true).map
        ((e.respellings target name).symbol g') := by
    refine Respellings.definitionsOf_map _ (fun d member => ren.fits member) dir g g' ?_
    intro d member here u brought
    rw [and_iff_left rfl]
    rcases ren.candidate_cases member home here brought g' with ⟨_, new, old, same⟩ | ⟨_, kept, _⟩
    · rw [new, old]
      exact iff_of_false (other same).1.symm (other same).2.symm
    · rw [kept]
  rw [again.stands dir g' y home', ren.once.stands dir g y home, moved, List.filter_true]
  exact Standing.foldl_hear_map (f := (e.respellings target name).symbol g') (fun _ => rfl) _

/-- In the directory of the symbol the new name has those definitions of the old one that were not
left out. -/
theorem Renaming.standing_new (same : g = sym.scope) :
    e'.index.scopes.standing g' name = (e.index.scopes.standing g sym.name).map
      (Standing.map ((e.respellings target name).symbol g')) := by
  subst same
  have moved : definitionsOf (docs.map (e.respellings target name).document) dir g' name =
      ((definitionsOf docs dir sym.scope sym.name).filter (e.respellings target name).hits).map
        ((e.respellings target name).symbol g') := by
    refine Respellings.definitionsOf_map _ (fun d member => ren.fits member) dir _ g' ?_
    intro d member here u brought
    rcases ren.candidate_cases member home here brought g' with
      ⟨hit, new, old, _⟩ | ⟨miss, kept, unused⟩
    · exact iff_of_true new ⟨old, hit⟩
    · rw [kept, miss]
      exact iff_of_false (unused rfl) fun hit => Bool.false_ne_true hit.2
  obtain ⟨v, stands⟩ := ren.exists_standing
  have heard := (ren.once.stands dir _ sym.name home).symm.trans stands
  have kept := Standing.foldl_hear_filter heard (ren.hits_of_standing stands (.inl rfl))
    fun u second => ren.hits_of_standing stands (.inr second)
  rw [again.stands dir g' name home', moved, stands, ← kept]
  exact Standing.foldl_hear_map (f := (e.respellings target name).symbol g') (fun _ => rfl) _

end Names

/-! ### Files -/

/-- A file whose names were respelled: it is read as before, and its references mean what they
meant. -/
structure SameBinding (r : Respellings) (e e' : Engine) (file : List Component)
    (s s' : FileState) : Prop where
  parsed : s'.parsed = (r file).parsed s.parsed
  refs : s'.record.refs = s.record.refs
  resolved : ∀ n, s'.record.resolved.contains n = s.record.resolved.contains n
  meaning : ∀ n, s.record.refs.contains n = true →
    e'.meaning? s' n = (e.meaning? s n).map r.identity

section Files

variable {d : Document} (member : d ∈ docs) {s s' : FileState}
  (found : e.index.file? d.path = some s) (found' : e'.index.file? d.path = some s')

include ren again member found found'

theorem Renaming.parsed_eq :
    s'.parsed = (e.respellings target name d.path.components).parsed s.parsed := by
  have read' := again.read (List.mem_map_of_mem member) found'
  rw [read'.parsed, (ren.once.read member found).parsed]
  exact (ren.fits member).parse_respell

theorem Renaming.terminals_eq : s'.parsed.tree.terminals = s.parsed.tree.terminals := by
  rw [ren.parsed_eq again member found found']
  exact Respelling.terminals_tree _ _

theorem Renaming.spanOf_eq (n : Nat) : s'.parsed.tree.spanOf n =
    (e.respellings target name d.path.components).span (s.parsed.tree.spanOf n) := by
  rw [ren.parsed_eq again member found found']
  exact Respelling.spanOf_tree _ _ _ (ren.fits member).move_zero

/-- The definitions and references of the symbol have the new name, others keep theirs. -/
theorem Renaming.textOf_eq {n : Nat} (terminal : n ∈ s.parsed.tree.terminals) :
    s'.parsed.tree.textOf n =
      if s.parsed.tree.spanOf n ∈ (e.respellings target name d.path.components).spans then name
      else s.parsed.tree.textOf n := by
  rw [ren.parsed_eq again member found found']
  rw [(ren.once.read member found).parsed] at terminal ⊢
  exact (ren.fits member).textOf_tree terminal

/-- The references are the same terminals, with the same classes. -/
theorem Renaming.refs_eq : s'.record.refs = s.record.refs := by
  have read := ren.once.read member found
  have read' := again.read (List.mem_map_of_mem member) found'
  have same : ∀ n, s'.reference? n = s.reference? n := fun n => by
    rw [ren.once.fresh.reference?_eq found read, again.fresh.reference?_eq found' read',
      Respellings.document, (ren.fits member).parse_respell, Respelling.parsed,
      (ren.marks member).reference?_tree]
  apply Table.ext_get?
  intro n
  rw [(ren.once.fresh.settled found).1.marked.refs, (again.fresh.settled found').1.marked.refs,
    ren.terminals_eq again member found found', same]

theorem Renaming.refers_iff {n : Nat} : s'.Refers n ↔ s.Refers n := by
  rw [again.fresh.refers_iff found', ren.once.fresh.refers_iff found,
    ren.refs_eq again member found found']

/-- The name of a definition or a reference stands for what it stood for. -/
theorem Renaming.standing_eq {n : Nat} (occurs : n ∈ s.record.occurrences) :
    e'.index.scopes.standing s'.scope (s'.parsed.tree.textOf n) =
      (e.index.scopes.standing s.scope (s.parsed.tree.textOf n)).map
        (Standing.map ((e.respellings target name).symbol s'.scope)) := by
  have read := ren.once.read member found
  have home := (ren.once.fresh.settled found).1.attached.home
  have home' := (again.fresh.settled found').1.attached.home
  have named := ren.hit_iff_named found read occurs
  rw [ren.textOf_eq again member found found' (ren.once.fresh.terminal_of_occurs found occurs)]
  split
  · next hit =>
    obtain ⟨spelled, place⟩ := named.1 hit
    rw [spelled]
    exact ren.standing_new again home home' place
  · next miss =>
    refine ren.standing_other again home home' fun same => ⟨?_, fun spelled =>
      miss (named.2 ⟨spelled, same⟩)⟩
    rw [read.parsed]
    exact ren.ne_of_classified member (same ▸ home)
      (ren.once.fresh.classified_of_occurs found read occurs)

/-- A reference means what it meant. -/
theorem Renaming.meaning?_eq {n : Nat} (refers : s.Refers n) :
    e'.meaning? s' n = (e.meaning? s n).map (e.respellings target name).identity := by
  have occurs := ren.once.fresh.occurs_of_refers found refers
  have refers' := (ren.refers_iff again member found found').2 refers
  rw [ren.once.fresh.meaning?_of_refers found refers, again.fresh.meaning?_of_refers found' refers',
    ren.standing_eq again member found found' occurs]
  cases stands : e.index.scopes.standing s.scope (s.parsed.tree.textOf n) with
  | some v =>
    simp only [Option.map_some, Option.some_or, Standing.meant_map, Respellings.identity_symbol]
  | none =>
    -- At the places of the symbol the name stands for something, so here it is kept.
    have read := ren.once.read member found
    have miss : s.parsed.tree.spanOf n ∉
        (e.respellings target name d.path.components).spans := by
      intro hit
      obtain ⟨spelled, place⟩ := (ren.hit_iff_named found read occurs).1 hit
      obtain ⟨v, stands'⟩ := ren.exists_standing
      rw [spelled, place, stands'] at stands
      cases stands
    rw [ren.textOf_eq again member found found' refers.1, if_neg miss]
    simp only [Option.map_none, Option.none_or]
    exact ((e.respellings target name).map_builtinMeaning _).symm

theorem Renaming.sameBinding :
    SameBinding (e.respellings target name) e e' d.path.components s s' := by
  have means : ∀ n, s.Refers n →
      e'.meaning? s' n = (e.meaning? s n).map (e.respellings target name).identity :=
    fun n => ren.meaning?_eq again member found found'
  refine ⟨ren.parsed_eq again member found found', ren.refs_eq again member found found',
    fun n => ?_, fun n recorded => means n ((ren.once.fresh.refers_iff found).2 recorded)⟩
  rw [Bool.eq_iff_iff, again.fresh.resolved_iff_meaning found',
    ren.once.fresh.resolved_iff_meaning found, ren.refers_iff again member found found']
  exact and_congr_right fun here => by rw [means n here, Option.isSome_map]

/-! ### Occurrences -/

omit found in
/-- What is classified in the new text was classified in the old one. -/
theorem Renaming.classified_of_occurs {n : Nat} (occurs' : n ∈ s'.record.occurrences) :
    (Grammar.dialect.definition? (Grammar.parse d.text).tree ∅ n).isSome = true ∨
      (Grammar.dialect.reference? (Grammar.parse d.text).tree ∅ n).isSome = true := by
  have classified := again.fresh.classified_of_occurs found'
    (again.read (List.mem_map_of_mem member) found') occurs'
  rw [Respellings.document, (ren.fits member).parse_respell] at classified
  rwa [Respelling.parsed, (ren.fits member).definition?_tree,
    (ren.marks member).reference?_tree] at classified

/-- What is recorded in the old text is recorded in the new one. -/
theorem Renaming.occurs_again {n : Nat} (occurs : n ∈ s.record.occurrences) :
    n ∈ s'.record.occurrences := by
  rcases ren.once.fresh.occurs_cases found occurs with ⟨id, listed⟩ | refers
  · obtain ⟨v, u, stands, which, place⟩ := (ren.once.listed_iff found n).1
      (by rw [Table.contains, listed]; rfl)
    have stands' := ren.standing_eq again member found found' occurs
    rw [stands, Option.map_some] at stands'
    have place' := (e.respellings target name).place_symbol place s'.scope
    rw [← ren.spanOf_eq again member found found'] at place'
    have listed' : s'.record.symbols.contains n = true := by
      refine (again.listed_iff found' n).2 ⟨_, _, stands', ?_, place'⟩
      rcases which with rfl | second
      · exact .inl rfl
      · exact .inr (congrArg (Option.map _) second)
    obtain ⟨id', listed'⟩ := Option.isSome_iff_exists.1 listed'
    exact again.fresh.occurs_of_listed found' listed'
  · exact again.fresh.occurs_of_refers found'
      ((ren.refers_iff again member found found').2 refers)

end Files

/-- The symbol that the new name leads to in the directory of the symbol. -/
structure Renaming.Leads (e e' : Engine) (target : Nat) (sym : Symbol) (name : String) (dir : Path)
    (g' target' : Nat) : Prop where
  home : e.index.scopes.scopeFor? dir = some sym.scope
  home' : e'.index.scopes.scopeFor? dir = some g'
  resolves : e'.index.scopes.resolveTarget? g' name = some target'
  live : e'.index.scopes.symbol? target' = some ((e.respellings target name).symbol g' sym)

include ren again

theorem Renaming.exists_leads : ∃ dir g' target', Leads e e' target sym name dir g' target' := by
  obtain ⟨f, s, n, found, _, leads⟩ := ren.exists_occurs
  obtain ⟨d, member, path, _⟩ := ren.once.held f s found
  have found : e.index.file? d.path = some s := (PathTable.get?_congr _ path).trans found
  obtain ⟨s', found', _⟩ := again.indexed _ (List.mem_map_of_mem member)
  have home := (ren.once.fresh.settled found).1.attached.home
  rw [(ren.of_occurs found leads).2.1] at home
  have home' := (again.fresh.settled found').1.attached.home
  obtain ⟨v, stands⟩ := ren.exists_standing
  have stands' := ren.standing_new again home home' rfl
  rw [stands, Option.map_some] at stands'
  obtain ⟨id, resolves, live⟩ :=
    ren.once.fresh.consistent.sound.resolveTarget?_of_standing home stands
  obtain ⟨target', resolves', live'⟩ :=
    again.fresh.consistent.sound.resolveTarget?_of_standing home' stands'
  rw [ren.resolves] at resolves
  cases resolves
  rw [ren.live] at live
  rw [Standing.meant_map, ← Option.some.inj live] at live'
  exact ⟨_, _, target', home, home', resolves', live'⟩

section Leads

variable {dir : Path} {g' target' : Nat} (leads' : Renaming.Leads e e' target sym name dir g' target')

include leads'

/-- The same definitions and references lead to the symbol with the new name. -/
theorem Renaming.occurs_iff {d : Document} (member : d ∈ docs) {s s' : FileState}
    (found : e.index.file? d.path = some s) (found' : e'.index.file? d.path = some s') (n : Nat) :
    (n ∈ s'.record.occurrences ∧
        (s'.record.symbolAt? n).map e'.index.scopes.follow = some target') ↔
      n ∈ s.record.occurrences ∧
        (s.record.symbolAt? n).map e.index.scopes.follow = some target := by
  have read := ren.once.read member found
  have together : s'.scope = g' ↔ s.scope = sym.scope := by
    rw [again.fresh.scope_eq_iff found' leads'.home', ren.once.fresh.scope_eq_iff found leads'.home]
  constructor
  · rintro ⟨occurs', leads⟩
    have terminal := again.fresh.terminal_of_occurs found' occurs'
    rw [ren.terminals_eq again member found found'] at terminal
    obtain ⟨id, at_, followed⟩ := Option.map_eq_some_iff.1 leads
    obtain ⟨u, live, spelled, place, _⟩ := again.fresh.symbol_of_occurs found' at_
    rw [followed, leads'.live] at live
    cases live
    have scope : s.scope = sym.scope := by
      refine together.1 (place.resolve_right fun builtin => ?_).symm
      obtain ⟨site, real⟩ := ren.exists_site
      rw [Symbol.isBuiltin, Respellings.symbol, real] at builtin
      cases builtin
    have hit : s.parsed.tree.spanOf n ∈
        (e.respellings target name d.path.components).spans := by
      by_contra miss
      rw [ren.name_symbol, ren.textOf_eq again member found found' terminal, if_neg miss,
        read.parsed] at spelled
      have home := (ren.once.fresh.settled found).1.attached.home
      exact ren.ne_of_classified member (scope ▸ home)
        (ren.classified_of_occurs again member found' occurs') spelled.symm
    rw [read.parsed] at hit terminal
    exact (ren.hit_iff found read terminal).1 hit
  · rintro ⟨occurs, leads⟩
    have occurs' := ren.occurs_again again member found found' occurs
    obtain ⟨spelled, place, _⟩ := ren.of_occurs found leads
    have hit := (ren.hit_iff_named found read occurs).2 ⟨spelled, place⟩
    refine ⟨occurs', ?_⟩
    rw [again.follow_symbolAt? found' occurs', together.2 place,
      ren.textOf_eq again member found found' (ren.once.fresh.terminal_of_occurs found occurs),
      if_pos hit, leads'.resolves]

/-- The symbol with the new name occurs where the old one did, as far as that moved. -/
theorem Renaming.mem_occurrences_iff (spot : Spot) :
    spot ∈ (e'.occurrences target').map Location.spot ↔
      ∃ old ∈ (e.occurrences target).map Location.spot,
        spot = (e.respellings target name).spot old := by
  constructor
  · intro here
    obtain ⟨f, s', n, found', occurs', leads, rfl⟩ := mem_occurrences.1 here
    obtain ⟨_, inside, path, _⟩ := again.held f s' found'
    obtain ⟨d, member, rfl⟩ := List.mem_map.1 inside
    have path : d.path.components = f.components := path
    have found' : e'.index.file? d.path = some s' := (PathTable.get?_congr _ path).trans found'
    obtain ⟨s, found, _⟩ := ren.once.indexed d member
    obtain ⟨occurs, leads⟩ :=
      (ren.occurs_iff again leads' member found found' n).1 ⟨occurs', leads⟩
    refine ⟨_, mem_occurrences.2 ⟨d.path, s, n, found, occurs, leads, rfl⟩, ?_⟩
    rw [ren.spanOf_eq again member found found', ← path]
    rfl
  · rintro ⟨old, here, rfl⟩
    obtain ⟨f, s, n, found, occurs, leads, rfl⟩ := mem_occurrences.1 here
    obtain ⟨d, member, path, _⟩ := ren.once.held f s found
    have found : e.index.file? d.path = some s := (PathTable.get?_congr _ path).trans found
    obtain ⟨s', found', _⟩ := again.indexed _ (List.mem_map_of_mem member)
    obtain ⟨occurs', leads⟩ :=
      (ren.occurs_iff again leads' member found found' n).2 ⟨occurs, leads⟩
    refine mem_occurrences.2 ⟨d.path, s', n, found', occurs', leads, ?_⟩
    rw [ren.spanOf_eq again member found found', ← path]
    rfl

end Leads

end GrammarIndex.Engine
