import GrammarIndex.Engine.Query
import GrammarIndex.Proofs.Path
import GrammarIndex.Proofs.Table

/-!
Engines that answer alike.

The numbers of symbols and scopes are left over from what an engine went through, and no answer
shows them. Two engines agree if their files say the same and every name stands for the same symbol
in both, up to its number. Engines that agree answer every question alike, up to the spelling of
paths.
-/
namespace GrammarIndex

/-! ### Symbols without numbers -/

/-- What a symbol is, whatever its number: name, class, and the place of its definition. -/
structure Identity where
  name : String
  classification : Classification
  place : Option (List Component × Nat × Span)
  deriving DecidableEq

def Site.place (s : Site) : List Component × Nat × Span := (s.file.components, s.node, s.span)

def Symbol.identity (s : Symbol) : Identity := ⟨s.name, s.classification, s.site.map Site.place⟩

theorem Symbol.describe_congr {s s' : Symbol} (same : s.identity = s'.identity) :
    s.describe = s'.describe := by
  obtain ⟨name, classification, place⟩ := Identity.mk.inj same
  have file : s.file?.bind Path.fileName? = s'.file?.bind Path.fileName? := by
    rw [Symbol.file?, Symbol.file?]
    cases here : s.site with
    | none =>
      rw [here, Option.map_none] at place
      rw [Option.map_eq_none_iff.1 place.symm]
    | some site =>
      rw [here, Option.map_some] at place
      obtain ⟨site', here', spelled⟩ := Option.map_eq_some_iff.1 place.symm
      rw [here']
      exact Path.fileName?_congr (congrArg Prod.fst spelled).symm
  rw [describe, describe, name, classification, file]

/-! ### Locations without spelling -/

/-- A range in a file, however the path of the file is spelled. -/
abbrev Spot := List Component × Span

def Location.spot (l : Location) : Spot := (l.file.components, l.span)

namespace Spot

/-- The order of locations, by their spots. -/
def order (a b : Spot) : Ordering :=
  (compare a.1 b.1).then ((compare a.2.start b.2.start).then (compare a.2.stop b.2.stop))

/-- Put a spot in front, instead of an equal one. -/
def front (l : Spot) (rest : List Spot) : List Spot :=
  match rest with
  | next :: _ => if order l next == .eq then l :: rest.drop 1 else l :: rest
  | [] => [l]

/-- Spots sorted, one of several that are equal. -/
def canonical (ls : List Spot) : List Spot :=
  (ls.mergeSort fun a b => order a b != .gt).foldr front []

end Spot

theorem Location.map_spot_canonical (ls : List Location) :
    (canonical ls).map spot = Spot.canonical (ls.map spot) := by
  have sorted : (ls.mergeSort fun a b => a.order b != .gt).map spot =
      (ls.map spot).mergeSort fun a b => Spot.order a b != .gt :=
    List.map_mergeSort fun _ _ _ _ => rfl
  rw [canonical, Spot.canonical, ← sorted]
  generalize (ls.mergeSort fun a b => a.order b != .gt) = sorted
  induction sorted with
  | nil => rfl
  | cons l rest ih =>
    rw [List.map_cons, List.foldr_cons, List.foldr_cons, ← ih]
    cases rest.foldr _ [] with
    | nil => rfl
    | cons next _ =>
      have same : Spot.order l.spot next.spot = l.order next := rfl
      simp only [List.map_cons, Spot.front, same]
      split <;> rfl

/-! ### Agreement -/

namespace Engine

/-- What the symbol with a number is. -/
def identity? (e : Engine) (id : Nat) : Option Identity :=
  (e.index.scopes.symbol? id).map Symbol.identity

/-- What a definition or a reference stands for in the end. -/
def meaning? (e : Engine) (s : FileState) (n : Nat) : Option Identity :=
  ((s.record.symbolAt? n).map e.index.scopes.follow).bind e.identity?

/-- A definition or a reference of some file stands for the symbol. -/
def Mentions (e : Engine) (id : Nat) : Prop :=
  ∃ p s n, e.index.file? p = some s ∧ (s.record.symbolAt? n).map e.index.scopes.follow = some id

/-- The symbols that are mentioned are live, and what they are tells them apart. -/
structure Telling (e : Engine) : Prop where
  live : ∀ id, e.Mentions id → (e.identity? id).isSome = true
  apart : ∀ id id', e.Mentions id → e.Mentions id' → e.identity? id = e.identity? id' → id = id'

/-- Two states of one file that differ at most in numbers. -/
structure SameFile (e e' : Engine) (s s' : FileState) : Prop where
  dialect : s.dialect = s'.dialect
  parsed : s.parsed = s'.parsed
  defs : s.record.defs = s'.record.defs
  refs : s.record.refs = s'.record.refs
  tags : s.record.tags = s'.record.tags
  errors : s.record.errors = s'.record.errors
  comments : s.record.comments = s'.record.comments
  resolved : ∀ n, s.record.resolved.contains n = s'.record.resolved.contains n
  meaning : ∀ n, e.meaning? s n = e'.meaning? s' n
  visible : ∀ x, (e.index.scopes.visible s.scope).contains x =
    (e'.index.scopes.visible s'.scope).contains x

/-- Two engines that differ at most in numbers. -/
structure Agree (e e' : Engine) : Prop where
  telling : e.Telling
  telling' : e'.Telling
  texts : ∀ p, (e.document? p).map (·.text) = (e'.document? p).map (·.text)
  files : ∀ p, (e.index.file? p = none ∧ e'.index.file? p = none) ∨
    ∃ s s', e.index.file? p = some s ∧ e'.index.file? p = some s' ∧ SameFile e e' s s'

/-! ### Questions about one file -/

namespace SameFile

variable {e e' : Engine} {s s' : FileState} (same : SameFile e e' s s')

include same

theorem occurrences : s.record.occurrences = s'.record.occurrences := by
  rw [BindingRecord.occurrences, BindingRecord.occurrences, same.defs, same.refs]

theorem nodeAt? (offset : Nat) : s.nodeAt? offset = s'.nodeAt? offset := by
  rw [FileState.nodeAt?, FileState.nodeAt?, same.parsed, same.occurrences]

theorem diagnostics : s.diagnostics = s'.diagnostics := by
  have undefined : s.undefinedNames = s'.undefinedNames := by
    simp only [FileState.undefinedNames, same.refs, same.parsed, same.resolved]
  rw [FileState.diagnostics, FileState.diagnostics, undefined, FileState.syntaxErrors,
    FileState.syntaxErrors, same.errors, same.parsed]

theorem outline : s.outline = s'.outline := by
  rw [FileState.outline, FileState.outline, same.defs, same.parsed]

theorem classified (start stop : Nat) : s.classified start stop = s'.classified start stop := by
  rw [FileState.classified, FileState.classified, same.tags, same.comments, same.parsed]

theorem nextDefinition? (offset : Nat) (forward : Bool) :
    s.nextDefinition? offset forward = s'.nextDefinition? offset forward := by
  rw [FileState.nextDefinition?, FileState.nextDefinition?, same.defs, same.parsed]

end SameFile

/-- A question that only looks at the state of a file. -/
theorem Agree.map_boundFile {α : Type} {e e' : Engine} (agree : Agree e e') (p : Path)
    {look : FileState → α} (alike : ∀ s s', SameFile e e' s s' → look s = look s') :
    (e.boundFile p).map look = (e'.boundFile p).map look := by
  rw [boundFile, boundFile]
  rcases agree.files p with ⟨absent, absent'⟩ | ⟨s, s', found, found', same⟩
  · rw [absent, absent']
  · rw [found, found']
    exact congrArg Except.ok (alike s s' same)

/-! ### Occurrences -/

/-- The number that a node leads to, by what the node stands for. -/
theorem Telling.meaning?_eq_iff {e : Engine} (telling : e.Telling) {p : Path} {s : FileState}
    (found : e.index.file? p = some s) {id : Nat} (mentioned : e.Mentions id) {i : Identity}
    (identity : e.identity? id = some i) (n : Nat) :
    e.meaning? s n = some i ↔ (s.record.symbolAt? n).map e.index.scopes.follow = some id := by
  rw [meaning?]
  constructor
  · intro means
    obtain ⟨id', leads, identity'⟩ := Option.bind_eq_some_iff.1 means
    rw [leads, telling.apart id' id ⟨p, s, n, found, leads⟩ mentioned (identity'.trans identity.symm)]
  · intro leads
    rw [leads]
    exact identity

/-- Where a file mentions what is so identified. -/
def spansIn (e : Engine) (i : Identity) (s : FileState) : List Span :=
  (s.record.occurrences.filter fun n => e.meaning? s n == some i).map s.parsed.tree.spanOf

/-- Where the files mention what is so identified. -/
def spansOf (e : Engine) (i : Identity) : PathTable (List Span) :=
  e.index.files.mapValues fun _ s => e.spansIn i s

theorem map_spot_occurrences {e : Engine} (telling : e.Telling) {id : Nat}
    (mentioned : e.Mentions id) {i : Identity} (identity : e.identity? id = some i) :
    (e.occurrences id).map Location.spot = Spot.canonical
      ((e.spansOf i).byComponents.entries.flatMap fun f => f.2.map fun span => (f.1, span)) := by
  rw [occurrences, Location.map_spot_canonical]
  congr 1
  simp only [PathTable.byComponents, spansOf, Table.mapValues, List.map_map, List.map_flatMap,
    List.flatMap_map]
  rw [List.flatMap_def, List.flatMap_def]
  congr 1
  apply List.map_congr_left
  intro entry listed
  obtain ⟨file, s⟩ := entry
  have found : e.index.file? file = some s := Table.get?_of_mem listed
  have select : (fun n => (s.record.symbolAt? n).map e.index.scopes.follow == some id) =
      fun n => e.meaning? s n == some i := by
    funext n
    rw [Bool.eq_iff_iff, beq_iff_eq, beq_iff_eq, telling.meaning?_eq_iff found mentioned identity]
  simp only [spansIn, select, Function.comp_apply, List.map_map]
  rfl

/-! ### Questions about names -/

namespace Agree

variable {e e' : Engine} (agree : Agree e e')

include agree

theorem byComponents_spansOf (i : Identity) :
    (e.spansOf i).byComponents = (e'.spansOf i).byComponents := by
  apply PathTable.byComponents_congr
  intro p
  rw [spansOf, spansOf, PathTable.get?_mapValues, PathTable.get?_mapValues]
  rcases agree.files p with ⟨absent, absent'⟩ | ⟨s, s', found, found', same⟩
  · rw [Index.file?] at absent absent'
    rw [absent, absent']
    rfl
  · rw [Index.file?] at found found'
    rw [found, found', Option.map_some, Option.map_some, spansIn, spansIn, same.parsed,
      same.occurrences, funext same.meaning]

/-- Symbols that are the same are mentioned at the same spots. -/
theorem occurrences {id id' : Nat} {i : Identity} (mentioned : e.Mentions id)
    (mentioned' : e'.Mentions id') (identity : e.identity? id = some i)
    (identity' : e'.identity? id' = some i) :
    (e.occurrences id).map Location.spot = (e'.occurrences id').map Location.spot := by
  rw [map_spot_occurrences agree.telling mentioned identity,
    map_spot_occurrences agree.telling' mentioned' identity', agree.byComponents_spansOf]

section File

variable {p : Path} {s s' : FileState} (found : e.index.file? p = some s)
  (found' : e'.index.file? p = some s') (same : SameFile e e' s s')

include found found' same

/-- A node stands for nothing in both engines, or for symbols that are the same. -/
theorem symbolAt? (n : Nat) :
    (s.record.symbolAt? n = none ∧ s'.record.symbolAt? n = none) ∨
      ∃ id id' i, s.record.symbolAt? n = some id ∧ s'.record.symbolAt? n = some id' ∧
        e.identity? (e.index.scopes.follow id) = some i ∧
        e'.identity? (e'.index.scopes.follow id') = some i := by
  have means := same.meaning n
  rw [meaning?, meaning?] at means
  cases here : s.record.symbolAt? n with
  | none =>
    cases there : s'.record.symbolAt? n with
    | none => exact .inl ⟨rfl, rfl⟩
    | some id' =>
      have live := agree.telling'.live _ ⟨p, s', n, found', by rw [there]; rfl⟩
      rw [here, there, Option.map_none, Option.map_some, Option.bind_none, Option.bind_some] at means
      rw [← means] at live
      cases live
  | some id =>
    have live := agree.telling.live _ ⟨p, s, n, found, by rw [here]; rfl⟩
    obtain ⟨i, identity⟩ := Option.isSome_iff_exists.1 live
    rw [here, Option.map_some, Option.bind_some, identity] at means
    obtain ⟨t, leads, identity'⟩ := Option.bind_eq_some_iff.1 means.symm
    obtain ⟨id', there, rfl⟩ := Option.map_eq_some_iff.1 leads
    exact .inr ⟨id, id', i, rfl, there, identity, identity'⟩

/-- An offset leads nowhere in both engines, or to symbols that are the same. -/
theorem targetAt? (offset : Nat) :
    (e.targetAt? s offset = none ∧ e'.targetAt? s' offset = none) ∨
      ∃ t t' i, e.targetAt? s offset = some t ∧ e'.targetAt? s' offset = some t' ∧
        e.Mentions t ∧ e'.Mentions t' ∧ e.identity? t = some i ∧ e'.identity? t' = some i := by
  simp only [Engine.targetAt?, ← same.nodeAt? offset, bind, pure]
  cases node : s.nodeAt? offset with
  | none => exact .inl ⟨rfl, rfl⟩
  | some n =>
    rcases agree.symbolAt? found found' same n with
      ⟨here, there⟩ | ⟨id, id', i, here, there, identity, identity'⟩
    · simp only [Option.bind_some, here, there]
      exact .inl ⟨rfl, rfl⟩
    · simp only [Option.bind_some, here, there]
      exact .inr ⟨_, _, i, rfl, rfl, ⟨p, s, n, found, by rw [here]; rfl⟩,
        ⟨p, s', n, found', by rw [there]; rfl⟩, identity, identity'⟩

end File

theorem definitions (p : Path) (offset : Nat) :
    (e.definitions p offset).map (List.map Location.spot) =
      (e'.definitions p offset).map (List.map Location.spot) := by
  simp only [Engine.definitions, boundFile]
  rcases agree.files p with ⟨absent, absent'⟩ | ⟨s, s', found, found', same⟩
  · rw [absent, absent']
    rfl
  · rw [found, found']
    simp only [bind, Except.bind, pure, Except.pure, Except.map]
    rcases agree.targetAt? found found' same offset with
      ⟨nowhere, nowhere'⟩ | ⟨t, t', i, target, target', _, _, identity, identity'⟩
    · rw [nowhere, nowhere']
      rfl
    · obtain ⟨sym, live, rfl⟩ := Option.map_eq_some_iff.1 identity
      obtain ⟨sym', live', alike⟩ := Option.map_eq_some_iff.1 identity'
      have place := congrArg Identity.place alike
      rw [target, target', Option.bind_some, Option.bind_some, live, live', Option.bind_some,
        Option.bind_some]
      congr 1
      have located : ∀ sym : Symbol,
          ((sym.site.map fun s => (⟨s.file, s.span⟩ : Location)).toList).map Location.spot =
            (sym.identity.place.map fun c => (c.1, c.2.2)).toList := by
        intro sym
        cases h : sym.site with
        | none => rw [Symbol.identity, h]; rfl
        | some site => rw [Symbol.identity, h]; rfl
      rw [located, located, place]

theorem references (p : Path) (offset : Nat) :
    (e.references p offset).map (List.map Location.spot) =
      (e'.references p offset).map (List.map Location.spot) := by
  simp only [Engine.references, boundFile]
  rcases agree.files p with ⟨absent, absent'⟩ | ⟨s, s', found, found', same⟩
  · rw [absent, absent']
    simp only [bind, Except.bind, Except.map]
  · rw [found, found']
    simp only [bind, Except.bind, pure, Except.pure]
    rcases agree.targetAt? found found' same offset with
      ⟨nowhere, nowhere'⟩ | ⟨t, t', i, target, target', mentioned, mentioned', identity, identity'⟩
    · rw [nowhere, nowhere']
    · rw [target, target']
      simp only [Except.map]
      rw [agree.occurrences mentioned mentioned' identity identity']

theorem highlights (p : Path) (offset : Nat) :
    (e.highlights p offset).map (List.map Location.spot) =
      (e'.highlights p offset).map (List.map Location.spot) := by
  have inFile : ∀ ls : List Location, (ls.filter fun l => l.file.same p).map Location.spot =
      (ls.map Location.spot).filter fun c => c.1 == p.components := by
    intro ls
    rw [List.filter_map]
    congr 2
    funext l
    rw [Bool.eq_iff_iff, Path.same_iff]
    exact beq_iff_eq.symm
  have alike := agree.references p offset
  simp only [Engine.highlights, bind, pure]
  cases here : e.references p offset with
  | error err =>
    cases there : e'.references p offset with
    | error err' => rw [here, there] at alike; exact alike
    | ok ls' => rw [here, there] at alike; cases alike
  | ok ls =>
    cases there : e'.references p offset with
    | error err' => rw [here, there] at alike; cases alike
    | ok ls' =>
      rw [here, there] at alike
      have spots : ls.map Location.spot = ls'.map Location.spot := Except.ok.inj alike
      show Except.ok ((ls.filter fun l => l.file.same p).map Location.spot) =
        Except.ok ((ls'.filter fun l => l.file.same p).map Location.spot)
      rw [inFile, inFile, spots]

theorem hover (p : Path) (offset : Nat) : e.hover p offset = e'.hover p offset := by
  simp only [Engine.hover, boundFile]
  rcases agree.files p with ⟨absent, absent'⟩ | ⟨s, s', found, found', same⟩
  · rw [absent, absent']
    rfl
  · rw [found, found']
    simp only [bind, Except.bind, pure, Except.pure, ← same.nodeAt? offset]
    cases node : s.nodeAt? offset with
    | none => rfl
    | some n =>
      rcases agree.symbolAt? found found' same n with
        ⟨here, there⟩ | ⟨id, id', i, here, there, identity, identity'⟩
      · simp only [here, there, BindingRecord.classAt?, same.defs, same.refs, same.parsed]
      · obtain ⟨sym, live, rfl⟩ := Option.map_eq_some_iff.1 identity
        obtain ⟨sym', live', alike⟩ := Option.map_eq_some_iff.1 identity'
        simp only [here, there, live, live', Option.map_some, Symbol.describe_congr alike,
          same.parsed]

theorem completion (p : Path) (offset : Nat) : e.completion p offset = e'.completion p offset := by
  simp only [Engine.completion, boundFile]
  rcases agree.files p with ⟨absent, absent'⟩ | ⟨s, s', found, found', same⟩
  · rw [absent, absent']
    rfl
  · rw [found, found']
    simp only [bind, Except.bind, pure, Except.pure]
    have text := agree.texts p
    cases here : e.document? p with
    | none =>
      rw [here, Option.map_none] at text
      rw [Option.map_eq_none_iff.1 text.symm]
    | some d =>
      rw [here, Option.map_some] at text
      obtain ⟨d', there, same_text⟩ := Option.map_eq_some_iff.1 text.symm
      rw [there]
      simp only [same.dialect, same_text]
      congr 2
      apply OrderedSet.ofList_congr
      intro x
      rw [List.mem_filter, List.mem_filter, List.mem_append, List.mem_append, Table.mem_keys_iff,
        Table.mem_keys_iff, same.visible]

omit agree in
/-- The edits of a renaming depend on the spots only. -/
theorem get?_renamed (name : String) {ls ls' : List Location}
    (spots : ls.map Location.spot = ls'.map Location.spot) {t u : PathTable (List Edit)}
    (same : ∀ p, t.get? p = u.get? p) (p : Path) :
    (ls.foldl (fun edits l => edits.insert l.file ((edits.get? l.file).getD [] ++
        Edit.substitute l.span.start l.span.length name)) t).get? p =
      (ls'.foldl (fun edits l => edits.insert l.file ((edits.get? l.file).getD [] ++
        Edit.substitute l.span.start l.span.length name)) u).get? p := by
  induction ls generalizing ls' t u with
  | nil =>
    rw [List.map_eq_nil_iff.1 spots.symm]
    exact same p
  | cons l rest ih =>
    cases ls' with
    | nil => cases spots
    | cons l' rest' =>
      obtain ⟨first, others⟩ := List.cons.inj spots
      obtain ⟨file, span⟩ := Prod.mk.inj first
      rw [List.foldl_cons, List.foldl_cons]
      apply ih others
      intro q
      rw [PathTable.get?_insert, PathTable.get?_insert, file, span, same q,
        PathTable.get?_congr t file, same l'.file]

theorem rename (p : Path) (offset : Nat) (name : String) :
    (e.rename p offset name).map PathTable.byComponents =
      (e'.rename p offset name).map PathTable.byComponents := by
  simp only [Engine.rename, boundFile]
  rcases agree.files p with ⟨absent, absent'⟩ | ⟨s, s', found, found', same⟩
  · rw [absent, absent']
    simp only [bind, Except.bind, Except.map]
  · rw [found, found']
    simp only [bind, Except.bind, pure, Except.pure]
    rcases agree.targetAt? found found' same offset with
      ⟨nowhere, nowhere'⟩ | ⟨t, t', i, target, target', mentioned, mentioned', identity, identity'⟩
    · rw [nowhere, nowhere']
    · have spots := agree.occurrences mentioned mentioned' identity identity'
      obtain ⟨sym, live, rfl⟩ := Option.map_eq_some_iff.1 identity
      obtain ⟨sym', live', alike⟩ := Option.map_eq_some_iff.1 identity'
      obtain ⟨names, classes, place⟩ := Identity.mk.inj alike
      have builtin : sym.isBuiltin = sym'.isBuiltin := by
        have sites := congrArg Option.isNone place
        rw [Option.isNone_map, Option.isNone_map] at sites
        exact sites.symm
      rw [target, target']
      simp only [live, live', builtin, names, classes, same.dialect]
      split
      · rfl
      · split
        · rfl
        · apply congrArg Except.ok
          apply PathTable.byComponents_congr
          exact get?_renamed name spots fun _ => rfl

end Agree

/-! ### All questions -/

/-- A question about a file. -/
inductive Query where
  | definitions (p : Path) (offset : Nat)
  | references (p : Path) (offset : Nat)
  | highlights (p : Path) (offset : Nat)
  | hover (p : Path) (offset : Nat)
  | completion (p : Path) (offset : Nat)
  | rename (p : Path) (offset : Nat) (name : String)
  | diagnostics (p : Path)
  | documentSymbols (p : Path)
  | classifyRange (p : Path) (start stop : Nat)
  | nextDefinition (p : Path) (offset : Nat) (forward : Bool)

/-- An answer, with paths by component. -/
inductive Answer where
  | spots (ls : List Spot)
  | quickInfo (info : Option QuickInfo)
  | names (ls : List String)
  | edits (files : Table (List Component) (List Edit))
  | diagnostics (ds : List Diagnostic)
  | outline (symbols : List DocumentSymbol)
  | classified (spans : List ClassifiedSpan)
  | start (offset : Option Nat)

/-- The answer to a question, or why there is none. -/
def answer (e : Engine) : Query → Except Error Answer
  | .definitions p offset => (e.definitions p offset).map fun ls => .spots (ls.map Location.spot)
  | .references p offset => (e.references p offset).map fun ls => .spots (ls.map Location.spot)
  | .highlights p offset => (e.highlights p offset).map fun ls => .spots (ls.map Location.spot)
  | .hover p offset => (e.hover p offset).map .quickInfo
  | .completion p offset => (e.completion p offset).map .names
  | .rename p offset name => (e.rename p offset name).map fun t => .edits (PathTable.byComponents t)
  | .diagnostics p => (e.diagnostics p).map .diagnostics
  | .documentSymbols p => (e.documentSymbols p).map .outline
  | .classifyRange p start stop => (e.classifyRange p start stop).map .classified
  | .nextDefinition p offset forward => (e.nextDefinition p offset forward).map .start

/-- Engines that agree answer alike. -/
theorem Agree.answer {e e' : Engine} (agree : Agree e e') (q : Query) : e.answer q = e'.answer q := by
  have wrap : ∀ {α β : Type} {x y : Except Error α} {f : α → β} (g : β → Answer),
      x.map f = y.map f → x.map (fun a => g (f a)) = y.map fun a => g (f a) := by
    intro α β x y f g alike
    have twice : ∀ z : Except Error α, z.map (fun a => g (f a)) = (z.map f).map g := by
      intro z
      cases z <;> rfl
    rw [twice, twice, alike]
  cases q with
  | definitions p offset => exact wrap Answer.spots (agree.definitions p offset)
  | references p offset => exact wrap Answer.spots (agree.references p offset)
  | highlights p offset => exact wrap Answer.spots (agree.highlights p offset)
  | hover p offset => exact congrArg (Except.map Answer.quickInfo) (agree.hover p offset)
  | completion p offset => exact congrArg (Except.map Answer.names) (agree.completion p offset)
  | rename p offset name => exact wrap Answer.edits (agree.rename p offset name)
  | diagnostics p =>
    exact congrArg (Except.map Answer.diagnostics)
      (agree.map_boundFile p fun _ _ same => same.diagnostics)
  | documentSymbols p =>
    exact congrArg (Except.map Answer.outline) (agree.map_boundFile p fun _ _ same => same.outline)
  | classifyRange p start stop =>
    exact congrArg (Except.map Answer.classified)
      (agree.map_boundFile p fun _ _ same => same.classified start stop)
  | nextDefinition p offset forward =>
    exact congrArg (Except.map Answer.start)
      (agree.map_boundFile p fun _ _ same => same.nextDefinition? offset forward)

end Engine

end GrammarIndex
