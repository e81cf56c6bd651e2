import GrammarIndex.Proofs.Engine.AtOnce
import GrammarIndex.Proofs.Grammar.Reclassified

/-!
Renaming a symbol in all documents.

Where the places of a symbol get another name, the documents are read as before, and the definitions
that got no symbol keep the old name. The definitions of the new name are those of the symbol, in
their order, so they come to what the old name stood for; any other name that is referred to has the
definitions it had.
-/
namespace GrammarIndex

open Grammar (Respelling)

/-- Other names in files, by the components of their paths. -/
abbrev Respellings := List Component → Respelling

namespace Respellings

variable (r : Respellings)

/-! ### What becomes of places and symbols -/

def spot (l : Spot) : Spot := (l.1, (r l.1).span l.2)

/-- The name at a place, given the old one. -/
def nameAt (file : List Component) (span : Span) (name : String) : String :=
  if span ∈ (r file).spans then (r file).name else name

/-- What a symbol is afterwards; built-in symbols stay what they are. -/
def identity (i : Identity) : Identity :=
  match i.place with
  | some (file, node, span) =>
    ⟨r.nameAt file span i.name, i.classification, some (file, node, (r file).span span)⟩
  | none => i

def site (s : Site) : Site := { s with span := (r s.file.components).span s.span }

/-- A symbol of the scope of its directory afterwards. -/
def symbol (scope : Nat) (s : Symbol) : Symbol :=
  { s with
    name := match s.site with
      | some site => r.nameAt site.file.components site.span s.name
      | none => s.name
    scope
    site := s.site.map r.site }

def document (d : Document) : Document := { d with text := (r d.path.components).respell d.text }

/-- The symbol stands at one of the places. -/
def hits (s : Symbol) : Bool :=
  s.site.any fun site => decide (site.span ∈ (r site.file.components).spans)

theorem identity_symbol (scope : Nat) (s : Symbol) :
    (r.symbol scope s).identity = r.identity s.identity := by
  obtain ⟨name, classification, scope', site, target, forward⟩ := s
  cases site <;> rfl

/-- A symbol stays with its node. -/
theorem place_symbol {s : Symbol} {file : List Component} {node : Nat} {span : Span}
    (place : s.site.map Site.place = some (file, node, span)) (scope : Nat) :
    (r.symbol scope s).site.map Site.place = some (file, node, (r file).span span) := by
  obtain ⟨site, here, spelled⟩ := Option.map_eq_some_iff.1 place
  obtain ⟨rfl, rest⟩ := Prod.mk.inj spelled
  obtain ⟨rfl, rfl⟩ := Prod.mk.inj rest
  rw [symbol, here]
  rfl

theorem map_builtinMeaning (x : String) :
    (Engine.builtinMeaning x).map r.identity = Engine.builtinMeaning x := by
  cases means : Engine.builtinMeaning x with
  | none => rfl
  | some i => rw [Option.map_some, identity, Engine.place_builtinMeaning means]

/-! ### What becomes of definitions -/

section Definitions

variable {p : Path} {text : String} (fits : (r p.components).Fits text)

include fits

theorem symbolAt_respell {n : Nat} (terminal : n ∈ (Grammar.parse text).tree.terminals)
    (g g' : Nat) :
    Binding.symbolAt Grammar.dialect (Grammar.parse ((r p.components).respell text)).tree p g' n =
      (Binding.symbolAt Grammar.dialect (Grammar.parse text).tree p g n).map (r.symbol g') := by
  rw [fits.parse_respell]
  show Binding.symbolAt _ ((r p.components).tree (Grammar.parse text).tree) p g' n = _
  rw [Binding.symbolAt, Binding.symbolAt, fits.definition?_tree, Option.map_map]
  congr 1
  funext c
  have forward : Grammar.dialect.isForward ((r p.components).tree (Grammar.parse text).tree) n =
      Grammar.dialect.isForward (Grammar.parse text).tree n := Respelling.below_tree _ _ _ _
  rw [Function.comp_apply, Binding.symbolFor, fits.textOf_tree terminal,
    Respelling.spanOf_tree _ _ _ fits.move_zero, forward]
  rfl

theorem candidates_respell (g g' : Nat) :
    Binding.candidates Grammar.dialect (Grammar.parse ((r p.components).respell text)).tree p g' =
      (Binding.candidates Grammar.dialect (Grammar.parse text).tree p g).map (r.symbol g') := by
  have terminals : (Grammar.parse ((r p.components).respell text)).tree.terminals =
      (Grammar.parse text).tree.terminals := by
    rw [fits.parse_respell]
    exact Respelling.terminals_tree _ _
  rw [Binding.candidates, Binding.candidates, terminals, List.map_filterMap]
  exact List.filterMap_congr fun n terminal => r.symbolAt_respell fits terminal g g'

/-- The definitions of a name in a text, by those in the old text. -/
theorem filterMap_definersOf (g g' : Nat) {y y' : String} {keep : Symbol → Bool}
    (same : ∀ s ∈ Binding.candidates Grammar.dialect (Grammar.parse text).tree p g,
      ((r.symbol g' s).name = y' ↔ s.name = y ∧ keep s = true)) :
    (Grammar.definersOf ((r p.components).respell text) y').filterMap (Binding.symbolAt
        Grammar.dialect (Grammar.parse ((r p.components).respell text)).tree p g') =
      (((Grammar.definersOf text y).filterMap (Binding.symbolAt Grammar.dialect
        (Grammar.parse text).tree p g)).filter keep).map (r.symbol g') := by
  rw [Grammar.definersOf, ← Binding.filter_candidates, r.candidates_respell fits g, Grammar.definersOf,
    ← Binding.filter_candidates, List.filter_map, List.filter_filter]
  congr 1
  refine List.filter_congr fun s member => ?_
  obtain ⟨n, _, brings⟩ := List.mem_filterMap.1 member
  obtain ⟨c, _, rfl⟩ := Binding.eq_symbolFor_of_symbolAt brings
  rw [Bool.eq_iff_iff, Function.comp_apply, Symbol.goesBy_iff, Bool.and_eq_true, Symbol.goesBy_iff]
  have named := same _ member
  constructor
  · rintro ⟨_, new⟩
    obtain ⟨old, kept⟩ := named.1 new.symm
    exact ⟨kept, rfl, old.symm⟩
  · rintro ⟨kept, _, old⟩
    exact ⟨rfl, (named.2 ⟨old.symm, kept⟩).symm⟩

end Definitions

/-- The definitions of a name in the documents of a directory, by those in the old documents. -/
theorem definitionsOf_map {docs : List Document}
    (fits : ∀ d ∈ docs, (r d.path.components).Fits d.text) (dir : Path) (g g' : Nat) {y y' : String}
    {keep : Symbol → Bool}
    (same : ∀ d ∈ docs, d.path.directory.components = dir.components →
      ∀ s ∈ Binding.candidates Grammar.dialect (Grammar.parse d.text).tree d.path g,
        ((r.symbol g' s).name = y' ↔ s.name = y ∧ keep s = true)) :
    definitionsOf (docs.map r.document) dir g' y' =
      ((definitionsOf docs dir g y).filter keep).map (r.symbol g') := by
  unfold definitionsOf
  rw [List.flatMap_map, List.filter_flatMap, List.map_flatMap]
  refine List.flatMap_congr fun d member => ?_
  have path : (r.document d).path = d.path := rfl
  by_cases here : d.path.directory.components = dir.components
  · rw [path, if_pos here, if_pos here]
    exact r.filterMap_definersOf (fits d member) g g' (same d member here)
  · rw [path, if_neg here, if_neg here]
    rfl

end Respellings

namespace Engine

/-! ### The renaming of a symbol -/

/-- The new name at the places of a symbol. -/
def respellings (e : Engine) (target : Nat) (name : String) : Respellings := fun file =>
  ⟨((e.occurrences target).filter fun l => l.file.components = file).map (·.span), name⟩

theorem mem_spans_respellings {e : Engine} {target : Nat} {name : String} {file : List Component}
    {span : Span} : span ∈ (e.respellings target name file).spans ↔
      (file, span) ∈ (e.occurrences target).map Location.spot := by
  simp only [respellings, List.mem_map, List.mem_filter, decide_eq_true_eq, Location.spot,
    Prod.mk.injEq]
  constructor
  · rintro ⟨l, ⟨member, here⟩, same⟩
    exact ⟨l, member, here, same⟩
  · rintro ⟨l, member, here, same⟩
    exact ⟨l, ⟨member, here⟩, same⟩

/-- By start, then by end. -/
theorem ordered_spans_respellings (e : Engine) (target : Nat) (name : String)
    (file : List Component) : (e.respellings target name file).spans.Pairwise fun a b =>
      a.start < b.start ∨ a.start = b.start ∧ a.stop < b.stop := by
  have order : ((e.occurrences target).filter fun l => l.file.components = file).Pairwise
      fun l l' => l.order l' = .lt := (Location.pairwise_canonical _).filter _
  refine List.pairwise_map.2 (order.imp_of_mem fun {l l'} here here' before => ?_)
  have here := of_decide_eq_true (List.mem_filter.1 here).2
  have here' := of_decide_eq_true (List.mem_filter.1 here').2
  have same : compare l.file l'.file = .eq := by
    show compare l.file.components l'.file.components = .eq
    rw [here, here']
    exact Std.ReflCmp.compare_self
  rw [Location.order, same, Ordering.eq_then] at before
  rcases Ordering.then_eq_lt.1 before with start | ⟨start, stop⟩
  · exact .inl (Nat.compare_eq_lt.1 start)
  · exact .inr ⟨Nat.compare_eq_eq.1 start, Nat.compare_eq_lt.1 stop⟩

theorem nodup_spans_respellings (e : Engine) (target : Nat) (name : String)
    (file : List Component) : (e.respellings target name file).spans.Nodup := by
  refine (ordered_spans_respellings e target name file).imp fun {a b} before same => ?_
  rw [same] at before
  omega

/-- A symbol that is no built-in one, and a name of its kind that its directory does not have. -/
structure Renaming (docs : List Document) (before e : Engine) (target : Nat) (sym : Symbol)
    (name : String) : Prop where
  once : AtOnce docs before e
  live : e.index.scopes.symbol? target = some sym
  real : sym.isBuiltin = false
  used : e.occurrences target ≠ []
  word : Grammar.isNameWith Char.isAlpha name.toList = true
  kind : Grammar.nameKind name.toList = Grammar.nameKind sym.name.toList
  unused : ∀ d ∈ docs, e.index.scopes.scopeFor? d.path.directory = some sym.scope →
    ∀ t ∈ (Grammar.tokenize d.text).1, Grammar.isNameKind t.kind = true → t.text ≠ name

/-- What is found at an offset is what a definition or a reference there leads to. -/
theorem exists_of_targetAt? {e : Engine} {s : FileState} {offset target : Nat}
    (asked : e.targetAt? s offset = some target) : ∃ n ∈ s.record.occurrences,
      ∃ id, s.record.symbolAt? n = some id ∧ e.index.scopes.follow id = target := by
  obtain ⟨n, node, leads⟩ := Option.bind_eq_some_iff.1 asked
  obtain ⟨id, at_, followed⟩ := Option.bind_eq_some_iff.1 leads
  exact ⟨n, occurs_of_nodeAt? node, id, at_, Option.some.inj followed⟩

/-- What is found at an offset can get a valid name of its kind that its directory does not have. -/
theorem AtOnce.renaming {docs : List Document} {before e : Engine} (once : AtOnce docs before e)
    {p : Path} {s : FileState} (found : e.index.file? p = some s) {offset target : Nat}
    (asked : e.targetAt? s offset = some target) {sym : Symbol}
    (live : e.index.scopes.symbol? target = some sym) (real : sym.isBuiltin = false)
    {name : String} (valid : Grammar.validateName sym.classification name = .ok ())
    (kind : (Grammar.tokenize name).1.map (·.kind) = (Grammar.tokenize sym.name).1.map (·.kind))
    (unused : ∀ d ∈ docs, ∀ f, sym.file? = some f →
      d.path.directory.components = f.directory.components →
        ∀ t ∈ (Grammar.tokenize d.text).1, Grammar.isNameKind t.kind = true → t.text ≠ name) :
    Renaming docs before e target sym name := by
  obtain ⟨n, occurs, id, at_, rfl⟩ := exists_of_targetAt? asked
  obtain ⟨sym', live', spelled, _⟩ := once.fresh.symbol_of_occurs found at_
  cases live.symm.trans live'
  obtain ⟨_, _, _, read⟩ := once.held p s found
  obtain ⟨t, listed, plain, held, _⟩ := Grammar.exists_token_of_classified
    (once.fresh.classified_of_occurs found read occurs)
  have old : Grammar.isNameWith Char.isAlpha sym.name.toList = true := by
    rw [spelled, read.parsed, ← held]
    exact (Grammar.name_of_token listed plain).1
  have word := Grammar.word_of_validateName valid
  rw [Grammar.tokenize_name word, Grammar.tokenize_name old] at kind
  refine ⟨once, live, real, fun none => ?_, word, (List.cons.inj kind).1,
    fun d member home => ?_⟩
  · have used := mem_occurrences.2 ⟨p, s, n, found, occurs, congrArg (Option.map _) at_, rfl⟩
    rw [none] at used
    cases used
  · have sound := once.fresh.consistent.sound
    obtain ⟨f, file, here⟩ := sound.exists_file_in home live rfl
    exact unused d member f file here.symm

section Renaming

variable {docs : List Document} {before e : Engine} {target : Nat} {sym : Symbol} {name : String}
  (ren : Renaming docs before e target sym name)

include ren

/-- The places of the symbol have its name and are in its directory. -/
theorem Renaming.of_occurs {f : Path} {s : FileState} (found : e.index.file? f = some s) {n : Nat}
    (leads : (s.record.symbolAt? n).map e.index.scopes.follow = some target) :
    s.parsed.tree.textOf n = sym.name ∧ s.scope = sym.scope ∧ sym.target = none := by
  obtain ⟨id, at_, rfl⟩ := Option.map_eq_some_iff.1 leads
  obtain ⟨sym', live, name, place, self⟩ := ren.once.fresh.symbol_of_occurs found at_
  rw [ren.live] at live
  cases live
  refine ⟨name.symm, (place.resolve_right ?_).symm, self⟩
  rw [ren.real]
  nofun

theorem Renaming.exists_occurs : ∃ f s n, e.index.file? f = some s ∧ n ∈ s.record.occurrences ∧
    (s.record.symbolAt? n).map e.index.scopes.follow = some target := by
  obtain ⟨l, member⟩ := List.exists_mem_of_ne_nil _ ren.used
  obtain ⟨s, n, found, occurs, leads, _⟩ := occurs_of_mem_occurrences member
  exact ⟨l.file, s, n, found, occurs, leads⟩

/-- Its name stands for the symbol. -/
theorem Renaming.resolves : e.index.scopes.resolveTarget? sym.scope sym.name = some target := by
  obtain ⟨f, s, n, found, occurs, leads⟩ := ren.exists_occurs
  obtain ⟨name, scope, _⟩ := ren.of_occurs found leads
  rw [← name, ← scope, ← ren.once.follow_symbolAt? found occurs, leads]

section File

variable {p : Path} {s : FileState} (found : e.index.file? p = some s) {text : String}
  (read : ReadFrom s text)

include found

omit ren in
/-- The places in a file. -/
theorem mem_spans_iff {span : Span} : span ∈ (e.respellings target name p.components).spans ↔
    ∃ n ∈ s.record.occurrences, (s.record.symbolAt? n).map e.index.scopes.follow = some target ∧
      s.parsed.tree.spanOf n = span := by
  rw [mem_spans_respellings, mem_occurrences]
  constructor
  · rintro ⟨f, s', n, found', occurs, leads, same⟩
    obtain ⟨file, rfl⟩ := Prod.mk.inj same
    have here := (PathTable.get?_congr e.index.files file).symm.trans found
    rw [show e.index.files.get? f = some s' from found'] at here
    cases here
    exact ⟨n, occurs, leads, rfl⟩
  · rintro ⟨n, occurs, leads, rfl⟩
    exact ⟨p, s, n, found, occurs, leads, rfl⟩

include read

/-- A terminal at one of the places is one of the definitions and references of the symbol. -/
theorem Renaming.hit_iff {n : Nat} (terminal : n ∈ (Grammar.parse text).tree.terminals) :
    (Grammar.parse text).tree.spanOf n ∈ (e.respellings target name p.components).spans ↔
      n ∈ s.record.occurrences ∧
        (s.record.symbolAt? n).map e.index.scopes.follow = some target := by
  rw [mem_spans_iff found]
  constructor
  · rintro ⟨m, occurs, leads, same⟩
    have terminal' := ren.once.fresh.terminal_of_occurs found occurs
    rw [read.parsed] at same terminal'
    obtain rfl := Grammar.spanOf_inj text terminal terminal' same
    exact ⟨occurs, leads⟩
  · rintro ⟨occurs, leads⟩
    exact ⟨n, occurs, leads, by rw [read.parsed]⟩

/-- The definitions and references of the symbol are those of its name in its directory. -/
theorem Renaming.hit_iff_named {n : Nat} (occurs : n ∈ s.record.occurrences) :
    s.parsed.tree.spanOf n ∈ (e.respellings target name p.components).spans ↔
      s.parsed.tree.textOf n = sym.name ∧ s.scope = sym.scope := by
  have terminal := ren.once.fresh.terminal_of_occurs found occurs
  rw [read.parsed] at terminal
  have hit := ren.hit_iff found read terminal
  rw [← read.parsed, and_iff_right occurs] at hit
  rw [hit]
  constructor
  · intro leads
    obtain ⟨spelled, place, _⟩ := ren.of_occurs found leads
    exact ⟨spelled, place⟩
  · rintro ⟨spelled, place⟩
    rw [ren.once.follow_symbolAt? found occurs, spelled, place, ren.resolves]

/-- The definitions and references of the symbol are names of the kind of the new one. -/
theorem Renaming.token_of_occurs {n : Nat} (occurs : n ∈ s.record.occurrences)
    (leads : (s.record.symbolAt? n).map e.index.scopes.follow = some target) :
    ∃ t ∈ (Grammar.tokenize text).1, t.span = s.parsed.tree.spanOf n ∧
      t.kind = Grammar.nameKind name.toList ∧ Grammar.isNameKind t.kind = true := by
  have spelled := (ren.of_occurs found leads).1
  have classified := ren.once.fresh.classified_of_occurs found read occurs
  rw [read.parsed] at spelled ⊢
  obtain ⟨t, listed, plain, held, span⟩ := Grammar.exists_token_of_classified classified
  refine ⟨t, listed, span, ?_, plain⟩
  rw [ren.kind, ← spelled, ← held, (Grammar.name_of_token listed plain).2]

end File

/-- The new name is no reserved word. -/
theorem Renaming.plain : Grammar.isNameKind (Grammar.nameKind name.toList) = true := by
  obtain ⟨f, s, n, found, occurs, leads⟩ := ren.exists_occurs
  obtain ⟨d, _, _, read⟩ := ren.once.held f s found
  obtain ⟨t, _, _, kind, plain⟩ := ren.token_of_occurs found read occurs leads
  rwa [kind] at plain

/-- The new name can stand at the places of the symbol. -/
theorem Renaming.fits {d : Document} (member : d ∈ docs) :
    (e.respellings target name d.path.components).Fits d.text := by
  obtain ⟨s, found, read⟩ := ren.once.indexed d member
  refine ⟨ren.word, ren.plain, fun span listed => ?_, nodup_spans_respellings _ _ _ _⟩
  obtain ⟨n, occurs, leads, rfl⟩ := (mem_spans_iff found).1 listed
  obtain ⟨t, listed, span, kind, _⟩ := ren.token_of_occurs found read occurs leads
  exact ⟨t, listed, span, kind⟩

/-- The places in a file lie apart, in order. -/
theorem Renaming.sorted {d : Document} (member : d ∈ docs) :
    (e.respellings target name d.path.components).spans.Pairwise
      fun a b => a.stop ≤ b.start := by
  refine (ordered_spans_respellings ..).imp_of_mem fun {a b} here here' before => ?_
  obtain ⟨p, inText, rfl, _⟩ := (ren.fits member).exists_piece here
  obtain ⟨q, inText', rfl, _⟩ := (ren.fits member).exists_piece here'
  have filled := Grammar.filled_pieces inText
  have filled' := Grammar.filled_pieces inText'
  by_contra overlap
  rw [Grammar.eq_of_overlap inText inText' (by omega) (by omega)] at before
  omega

/-- The places of the symbol are definitions and references. -/
theorem Renaming.marks {d : Document} (member : d ∈ docs) :
    (e.respellings target name d.path.components).Marks d.text := by
  obtain ⟨s, found, read⟩ := ren.once.indexed d member
  intro span listed
  obtain ⟨n, occurs, leads, rfl⟩ := (mem_spans_iff found).1 listed
  rw [← read.parsed]
  refine ⟨n, ren.once.fresh.terminal_of_occurs found occurs, rfl, ?_⟩
  rw [read.parsed]
  exact ren.once.fresh.classified_of_occurs found read occurs

/-! ### Names in the directory -/

/-- Nothing that is classified in the directory of the symbol has the new name. -/
theorem Renaming.ne_of_classified {d : Document} (member : d ∈ docs)
    (here : e.index.scopes.scopeFor? d.path.directory = some sym.scope) {n : Nat}
    (classified : (Grammar.dialect.definition? (Grammar.parse d.text).tree ∅ n).isSome = true ∨
      (Grammar.dialect.reference? (Grammar.parse d.text).tree ∅ n).isSome = true) :
    (Grammar.parse d.text).tree.textOf n ≠ name := by
  obtain ⟨t, listed, plain, held, _⟩ := Grammar.exists_token_of_classified classified
  rw [← held]
  exact ren.unused d member here t listed plain

/-- A definition is at one of the places and gets the new name, or it keeps its name. -/
theorem Renaming.candidate_cases {d : Document} (member : d ∈ docs) {dir : Path} {g : Nat}
    (home : e.index.scopes.scopeFor? dir = some g)
    (here : d.path.directory.components = dir.components) {u : Symbol}
    (brought : u ∈ Binding.candidates Grammar.dialect (Grammar.parse d.text).tree d.path g)
    (g' : Nat) :
    ((e.respellings target name).hits u = true ∧
      ((e.respellings target name).symbol g' u).name = name ∧ u.name = sym.name ∧
      g = sym.scope) ∨
    ((e.respellings target name).hits u = false ∧
      ((e.respellings target name).symbol g' u).name = u.name ∧
      (g = sym.scope → u.name ≠ name)) := by
  obtain ⟨s, found, read⟩ := ren.once.indexed d member
  have scope := ren.once.fresh.scope_eq found here home
  obtain ⟨n, terminal, brings⟩ := List.mem_filterMap.1 brought
  obtain ⟨c, defines, rfl⟩ := Binding.eq_symbolFor_of_symbolAt brings
  by_cases listed : (Grammar.parse d.text).tree.spanOf n ∈
      (e.respellings target name d.path.components).spans
  · obtain ⟨occurs, leads⟩ := (ren.hit_iff found read terminal).1 listed
    obtain ⟨spelled, place, _⟩ := ren.of_occurs found leads
    rw [read.parsed] at spelled
    exact .inl ⟨decide_eq_true listed, if_pos listed, spelled, scope ▸ place⟩
  · refine .inr ⟨decide_eq_false listed, if_neg listed, fun same => ?_⟩
    have own := (ren.once.fresh.settled found).1.attached.home
    rw [scope, same] at own
    exact ren.ne_of_classified member own (.inl (Option.isSome_iff_exists.2 ⟨c, defines⟩))

theorem Renaming.exists_home : ∃ dir, e.index.scopes.scopeFor? dir = some sym.scope := by
  obtain ⟨f, s, n, found, _, leads⟩ := ren.exists_occurs
  refine ⟨f.directory, ?_⟩
  rw [← (ren.of_occurs found leads).2.1]
  exact (ren.once.fresh.settled found).1.attached.home

/-- The first definition of the old name, and one that it announced, are at the places. -/
theorem Renaming.hits_of_standing {v : Standing}
    (stands : e.index.scopes.standing sym.scope sym.name = some v) {u : Symbol}
    (which : u = v.first ∨ v.second = some u) : (e.respellings target name).hits u = true := by
  have sound := ren.once.fresh.consistent.sound
  obtain ⟨dir, home⟩ := ren.exists_home
  obtain ⟨id, t, live, spelled, place, rfl⟩ := sound.symbol_of_standing stands which
  obtain ⟨q, file, _⟩ := sound.exists_file_in home live place
  obtain ⟨f, s, d, n, origin⟩ := ren.once.fresh.origin live file
  have leads := ren.once.follow_listed origin.found origin.listed
  rw [origin.name, ren.once.fresh.scope_eq origin.found rfl origin.scope, spelled, place,
    ren.resolves, Option.some.injEq] at leads
  have at_ : s.record.symbolAt? n = some id := by
    rw [BindingRecord.symbolAt?, origin.listed, Option.some_or]
  rw [Respellings.hits, Symbol.bare, origin.site]
  refine decide_eq_true ((mem_spans_iff origin.found).2 ⟨n, ?_, ?_, rfl⟩)
  · exact ren.once.fresh.occurs_of_listed origin.found origin.listed
  · rw [at_, Option.map_some, ← leads]

theorem Renaming.exists_site : ∃ site, sym.site = some site :=
  Option.isSome_iff_exists.1 (Option.isNone_eq_false_iff.1 (show sym.site.isNone = false from ren.real))

/-- The symbol gets the new name. -/
theorem Renaming.name_symbol (g : Nat) :
    ((e.respellings target name).symbol g sym).name = name := by
  obtain ⟨site, place⟩ := ren.exists_site
  obtain ⟨f, s, n, found, _, leads⟩ := ren.exists_occurs
  have here := ren.once.fresh.mem_occurrences_site ren.live (ren.of_occurs found leads).2.2 place
  rw [Respellings.symbol, place]
  exact if_pos (mem_spans_respellings.2 here)

/-- The old name is defined in the directory of the symbol. -/
theorem Renaming.exists_standing :
    ∃ v, e.index.scopes.standing sym.scope sym.name = some v := by
  obtain ⟨site, place⟩ := ren.exists_site
  have file : sym.file? = some site.file := by rw [Symbol.file?, place, Option.map_some]
  obtain ⟨f, s, d, n, origin⟩ := ren.once.fresh.origin ren.live file
  obtain ⟨v, _, stands, _⟩ := (ren.once.listed_iff origin.found n).1
    (by rw [Table.contains, origin.listed]; rfl)
  rw [origin.name, ren.once.fresh.scope_eq origin.found rfl origin.scope] at stands
  exact ⟨v, stands⟩

end Renaming

end Engine

end GrammarIndex
