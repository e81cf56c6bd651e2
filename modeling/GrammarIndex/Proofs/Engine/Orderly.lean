import GrammarIndex.Proofs.Engine.Agreement
import GrammarIndex.Proofs.Engine.References

/-!
Indexes that follow the order of the documents.

A document leads for a name if it comes first, by path, among those of its directory that define the
name, and if it has a real definition where any of them has. An index is orderly for a name if all
symbols with that name come from the leading document. It then lists the leading document's first
definition and, if that only announces the name, its first real one, and this is what the name means.
-/
namespace GrammarIndex

namespace Grammar

/-- The terminal counts for a name: it is the first definition in the text, or the first real one. -/
def Counts (text x : String) (n : Nat) : Prop :=
  (definersOf text x).head? = some n ∨
    (definersOf text x).find? (!isForward (parse text).tree ·) = some n

/-- The terminal that a name means in a text: the first real definition, or the first of all. -/
def meantIn (text x : String) : Option Nat :=
  ((definersOf text x).find? (!isForward (parse text).tree ·)).or (definersOf text x).head?

end Grammar

namespace Document

/-- The document comes first, by path, among those of its directory that define the name, and it has
a real definition if any of them has. -/
def Leads (d : Document) (docs : List Document) (x : String) : Prop :=
  ∀ d' ∈ docs, d'.path.directory.components = d.path.directory.components →
    Grammar.definersOf d'.text x ≠ [] →
      compare d.path d'.path ≠ .gt ∧
        (Grammar.defines d'.text x = true → Grammar.defines d.text x = true)

instance (d : Document) (docs : List Document) (x : String) : Decidable (d.Leads docs x) := by
  delta Leads
  infer_instance

/-- At most one document of a directory leads for a name. -/
theorem Leads.unique {d d' : Document} {docs : List Document} {x : String} (leads : d.Leads docs x)
    (leads' : d'.Leads docs x) (member : d ∈ docs) (member' : d' ∈ docs)
    (same : d.path.directory.components = d'.path.directory.components)
    (definers : Grammar.definersOf d.text x ≠ []) (definers' : Grammar.definersOf d'.text x ≠ []) :
    d.path.components = d'.path.components :=
  Path.ordered_antisymm (leads d' member' same.symm definers').1 (leads' d member same definers).1

/-- What a name means if the document leads for it. -/
def meaning (d : Document) (x : String) : Option Identity :=
  (Grammar.meantIn d.text x).bind fun n =>
    (Grammar.dialect.definition? (Grammar.parse d.text).tree ∅ n).map fun c =>
      ⟨x, c, some (d.path.components, n, (Grammar.parse d.text).tree.spanOf n)⟩

end Document

/-- The live symbols. -/
def ScopeStore.symbols (st : ScopeStore) : List Symbol := st.slots.toList.filterMap id

theorem ScopeStore.mem_symbols {st : ScopeStore} {s : Symbol} :
    s ∈ st.symbols ↔ ∃ id, st.symbol? id = some s := by
  simp only [symbols, List.mem_filterMap, id, exists_eq_right, Array.mem_toList_iff, symbol?,
    Array.mem_iff_getElem?, Option.join_eq_some_iff]

namespace Engine

/-! ### The same documents -/

/-- The documents, with paths by component. -/
def contents (e : Engine) : List (List Component × String) :=
  e.documents.map fun d => (d.path.components, d.text)

theorem mem_contents_iff {e : Engine} (tidy : e.workspace.Tidy) {p : Path} {text : String} :
    (p.components, text) ∈ e.contents ↔ (e.document? p).map (·.text) = some text := by
  rw [contents, List.mem_map, Option.map_eq_some_iff]
  constructor
  · intro listed
    obtain ⟨d, member, same⟩ := listed
    obtain ⟨path, rfl⟩ := Prod.mk.inj same
    refine ⟨d, ?_, rfl⟩
    exact (Workspace.find?_congr e.workspace path.symm).trans
      ((Workspace.mem_documents_iff tidy).1 member)
  · intro found
    obtain ⟨d, held, same⟩ := found
    exact ⟨d, Workspace.mem_documents_of_find? tidy held,
      by rw [Workspace.path_of_find? tidy held, same]⟩

theorem exists_document {e e' : Engine} (same : ∀ c, c ∈ e'.contents → c ∈ e.contents)
    {d' : Document} (member : d' ∈ e'.documents) :
    ∃ d ∈ e.documents, d.path.components = d'.path.components ∧ d.text = d'.text := by
  obtain ⟨d, held, alike⟩ := List.mem_map.1 (same _ (List.mem_map.2 ⟨d', member, rfl⟩))
  obtain ⟨path, text⟩ := Prod.mk.inj alike
  exact ⟨d, held, path, text⟩

/-- Documents with the same texts. -/
theorem contents_of_texts {e e' : Engine} (tidy : e.workspace.Tidy) (tidy' : e'.workspace.Tidy)
    (texts : ∀ p, (e'.document? p).map (·.text) = (e.document? p).map (·.text)) :
    ∀ c, c ∈ e'.contents ↔ c ∈ e.contents := by
  intro c
  constructor
  · intro member
    obtain ⟨d, _, rfl⟩ := List.mem_map.1 member
    rw [mem_contents_iff tidy, ← texts, ← mem_contents_iff tidy']
    exact member
  · intro member
    obtain ⟨d, _, rfl⟩ := List.mem_map.1 member
    rw [mem_contents_iff tidy', texts, ← mem_contents_iff tidy]
    exact member

/-- Bringing the index up to date leaves the documents as they are. -/
theorem contents_fresh {e after : Engine} (consistent : e.Consistent) (fresh : Fresh e after) :
    ∀ c, c ∈ after.contents ↔ c ∈ e.contents :=
  contents_of_texts consistent.tidy fresh.consistent.tidy fresh.texts

/-- A document with the same contents leads as well. -/
theorem leads_of_contents {e e' : Engine} (same : ∀ c, c ∈ e'.contents → c ∈ e.contents)
    {d d' : Document} (path : d.path.components = d'.path.components) (text : d.text = d'.text)
    {x : String} (leads : d.Leads e.documents x) : d'.Leads e'.documents x := by
  intro c' member directory definers
  obtain ⟨c, held, pathC, textC⟩ := exists_document same member
  rw [← textC] at definers ⊢
  rw [← text, ← Path.compare_congr path pathC]
  refine leads c held ?_ definers
  rw [Path.directory_congr pathC, directory, Path.directory_congr path]

/-! ### Order -/

/-- Every symbol of a name in a directory comes from the document that leads for the name. -/
def Orderly (e : Engine) (dir : Path) (x : String) : Prop :=
  ∀ s ∈ e.index.scopes.symbols, s.name = x → ∀ d ∈ e.documents,
    d.path.directory.components = dir.components → s.OwnedBy d.path → d.Leads e.documents x

instance (e : Engine) (dir : Path) (x : String) : Decidable (e.Orderly dir x) := by
  delta Orderly
  infer_instance

theorem Orderly.congr {e : Engine} {dir dir' : Path} {x : String} (orderly : e.Orderly dir x)
    (same : dir.components = dir'.components) : e.Orderly dir' x :=
  fun s live name d member here => orderly s live name d member (here.trans same.symm)

theorem Orderly.of_contents {e e' : Engine} {dir : Path} {x : String} (orderly : e.Orderly dir x)
    (index : e'.index.scopes = e.index.scopes) (same : ∀ c, c ∈ e'.contents → c ∈ e.contents) :
    e'.Orderly dir x := by
  intro s live name d' member here own
  obtain ⟨d, held, path, text⟩ := exists_document same member
  rw [index] at live
  exact leads_of_contents same path text
    (orderly s live name d held ((Path.directory_congr path).trans here) (own.congr path.symm))

/-- The document that leads for a name holds the symbol bound to it. -/
structure Led (e : Engine) (dir : Path) (g : Nat) (x : String) (d : Document) (s : FileState)
    (id : Nat) (sym : Symbol) : Prop where
  member : d ∈ e.documents
  here : d.path.directory.components = dir.components
  definers : Grammar.definersOf d.text x ≠ []
  leads : d.Leads e.documents x
  found : e.index.file? d.path = some s
  read : ReadFrom s d.text
  home : s.scope = g
  bound : e.index.scopes.lookup? g x = some id
  live : e.index.scopes.symbol? id = some sym
  own : sym.OwnedBy d.path

section Fresh

variable {before e : Engine} (fresh : Fresh before e)

include fresh

/-- A document has a file that was read from it. -/
theorem Fresh.file_of_document {d : Document} (member : d ∈ e.documents) :
    ∃ s, e.index.file? d.path = some s ∧ s.Settled e.index.scopes e.index.graph d.path ∧
      ReadFrom s d.text := by
  have held := (Workspace.mem_documents_iff fresh.consistent.tidy).1 member
  obtain ⟨s, found⟩ := Option.isSome_iff_exists.1
    (fresh.consistent.indexed d.path d held (fresh.clean d.path d held))
  obtain ⟨settled, d', held', read⟩ := fresh.settled found
  rw [show e.document? d.path = some d from held] at held'
  cases held'
  exact ⟨s, found, settled, read⟩

theorem Fresh.eq_of_path {d d' : Document} (member : d ∈ e.documents) (member' : d' ∈ e.documents)
    (path : d.path.components = d'.path.components) : d = d' := by
  have held := (Workspace.mem_documents_iff fresh.consistent.tidy).1 member
  have held' := (Workspace.mem_documents_iff fresh.consistent.tidy).1 member'
  rw [Workspace.find?_congr e.workspace path, held'] at held
  exact (Option.some.inj held).symm

/-- The files of a directory have its scope. -/
theorem Fresh.scope_eq {p dir : Path} {s : FileState} {g : Nat} (found : e.index.file? p = some s)
    (here : p.directory.components = dir.components)
    (scope : e.index.scopes.scopeFor? dir = some g) : s.scope = g := by
  have home := (fresh.settled found).1.attached.home
  rw [PathTable.get?_congr _ here] at home
  exact Option.some.inj (home.symm.trans scope)

/-- The documents of a directory bind the names that they define. -/
theorem Fresh.bound_of_definers {dir : Path} {g : Nat}
    (scope : e.index.scopes.scopeFor? dir = some g) {d : Document} (member : d ∈ e.documents)
    (here : d.path.directory.components = dir.components) {x : String}
    (definers : Grammar.definersOf d.text x ≠ []) :
    ∃ id, e.index.scopes.lookup? g x = some id := by
  obtain ⟨s, found, settled, read⟩ := fresh.file_of_document member
  obtain ⟨n, definer⟩ := List.exists_mem_of_ne_nil _ definers
  obtain ⟨terminal, defines, text⟩ := Grammar.mem_definersOf.1 definer
  have named := settled.named n ⟨by rw [read.parsed]; exact terminal, by
    rw [read.dialect, read.parsed]; exact defines⟩
  rw [fresh.scope_eq found here scope, read.parsed, text] at named
  exact Option.isSome_iff_exists.1 named

/-- A definition that a file lists. -/
theorem Fresh.listed {d : Document} (member : d ∈ e.documents) {s : FileState}
    (found : e.index.file? d.path = some s) {n id : Nat}
    (listed : s.record.symbols.get? n = some id) :
    n ∈ Grammar.definersOf d.text ((Grammar.parse d.text).tree.textOf n) ∧
      ∃ c q sym, Grammar.dialect.definition? (Grammar.parse d.text).tree ∅ n = some c ∧
        q.components = d.path.components ∧ e.index.scopes.symbol? id = some sym ∧
        (Binding.symbolFor Grammar.dialect (Grammar.parse d.text).tree q s.scope n c).Alike sym ∧
        sym.OwnedBy d.path := by
  obtain ⟨s', found', settled, read⟩ := fresh.file_of_document member
  rw [found] at found'
  cases found'
  obtain ⟨terminal, c, q, sym, defines, _, spelled, live, alike⟩ :=
    settled.attached.recorded.described n id listed
  rw [read.parsed] at terminal
  rw [read.dialect, read.parsed] at defines alike
  refine ⟨Grammar.mem_definersOf.2 ⟨terminal, by rw [defines]; rfl, rfl⟩, c, q, sym, defines,
    spelled, live, alike, ?_⟩
  exact alike.ownedBy.1 (Symbol.ownedBy_iff.2 ⟨q, rfl, spelled⟩)

/-- A symbol is listed for one terminal only. -/
theorem Fresh.listed_inj {d : Document} (member : d ∈ e.documents) {s : FileState}
    (found : e.index.file? d.path = some s) {n m id : Nat}
    (listed : s.record.symbols.get? n = some id) (listed' : s.record.symbols.get? m = some id) :
    n = m := by
  obtain ⟨_, c, q, sym, _, _, live, alike, _⟩ := fresh.listed member found listed
  obtain ⟨_, c', q', sym', _, _, live', alike', _⟩ := fresh.listed member found listed'
  rw [live] at live'
  cases live'
  exact congrArg Site.node (Option.some.inj (alike.site.trans alike'.site.symm))

/-- A symbol in the scope of a directory is listed by a document there that defines its name. -/
theorem Fresh.source {dir : Path} {g : Nat} (scope : e.index.scopes.scopeFor? dir = some g) {id : Nat}
    {sym : Symbol} (live : e.index.scopes.symbol? id = some sym) (place : sym.scope = g) :
    ∃ d s n, d ∈ e.documents ∧ d.path.directory.components = dir.components ∧
      e.index.file? d.path = some s ∧ ReadFrom s d.text ∧ s.record.symbols.get? n = some id ∧
      n ∈ Grammar.definersOf d.text sym.name ∧ sym.OwnedBy d.path := by
  have tidy := fresh.consistent.tidy
  have sound := fresh.consistent.sound
  obtain ⟨q, file, _⟩ := sound.exists_file_in scope live place
  obtain ⟨f, s, d, n, origin⟩ := fresh.origin live file
  have path := Workspace.path_of_find? tidy origin.held
  have member := Workspace.mem_documents_of_find? tidy origin.held
  have own : sym.OwnedBy d.path :=
    Symbol.ownedBy_iff.2 ⟨f, by rw [Symbol.file?, origin.site]; rfl, path.symm⟩
  refine ⟨d, s, n, member, ?_, (PathTable.get?_congr e.index.files path).trans origin.found,
    origin.read, origin.listed, Grammar.mem_definersOf.2 ⟨?_, ?_, ?_⟩, own⟩
  · rw [Path.directory_congr path]
    exact sound.layered.distinct _ _ _ (place ▸ origin.scope) scope
  · rw [← origin.read.parsed]
    exact origin.terminal
  · rw [← origin.read.parsed, ← origin.read.dialect, origin.defines]
    rfl
  · rw [← origin.read.parsed, origin.name]

section Orderly

variable {dir : Path} {x : String} (orderly : e.Orderly dir x)

include orderly

/-- A name that is bound in a directory is bound to a symbol of the document that leads for it. -/
theorem Fresh.led {g : Nat} (scope : e.index.scopes.scopeFor? dir = some g) {id : Nat}
    (bound : e.index.scopes.lookup? g x = some id) : ∃ d s sym, Led e dir g x d s id sym := by
  obtain ⟨sym, live, name, place⟩ := fresh.consistent.sound.bound g x id bound
  obtain ⟨d, s, n, member, here, found, read, _, definer, own⟩ := fresh.source scope live place
  rw [name] at definer
  exact ⟨d, s, sym, member, here, List.ne_nil_of_mem definer,
    orderly sym (ScopeStore.mem_symbols.2 ⟨id, live⟩) name d member here own, found, read,
    fresh.scope_eq found here scope, bound, live, own⟩

/-- What a document leads for is bound to one of its symbols. -/
theorem Fresh.led_of_leads {g : Nat} (scope : e.index.scopes.scopeFor? dir = some g)
    {d : Document} (member : d ∈ e.documents) (here : d.path.directory.components = dir.components)
    (definers : Grammar.definersOf d.text x ≠ []) (leads : d.Leads e.documents x) :
    ∃ s id sym, Led e dir g x d s id sym := by
  obtain ⟨id, bound⟩ := fresh.bound_of_definers scope member here definers
  obtain ⟨d', s, sym, led⟩ := fresh.led orderly scope bound
  have same := led.leads.unique leads led.member member (led.here.trans here.symm) led.definers
    definers
  rw [fresh.eq_of_path led.member member same] at led
  exact ⟨s, id, sym, led⟩

end Orderly

/-! ### What a leading document lists -/

section Led

variable {dir : Path} {g : Nat} {x : String} {d : Document} {s : FileState} {id : Nat} {sym : Symbol}
  (led : Led e dir g x d s id sym)

include led

omit fresh in
theorem Led.seated (consistent : e.Consistent) :
    (∃ n, (Grammar.definersOf d.text x).head? = some n ∧ s.record.symbols.get? n = some id) ∧
    (∀ m j, s.record.symbols.get? m = some j → (Grammar.parse d.text).tree.textOf m = x →
      j = id ∨ sym.target = some j) ∧
    (sym.forward = true → ∀ m,
      (Grammar.definersOf d.text x).find? (!Grammar.isForward (Grammar.parse d.text).tree ·) =
        some m → ∃ j, s.record.symbols.get? m = some j ∧ sym.target = some j) := by
  have seated := (consistent.attached d.path s led.found).seated x id sym
    (led.home ▸ led.bound) led.live led.own
  rw [led.read.dialect, led.read.parsed] at seated
  exact seated

/-- The first definition announces the name if the symbol does. -/
theorem Led.forward_head {n : Nat} (listed : s.record.symbols.get? n = some id) :
    Grammar.isForward (Grammar.parse d.text).tree n = sym.forward := by
  obtain ⟨_, c, q, sym', _, _, live, alike, _⟩ := fresh.listed led.member led.found listed
  rw [led.live] at live
  cases live
  exact alike.forward

/-- A symbol that the bound one stands for is the document's first real definition. -/
theorem Led.listed_target (orderly : e.Orderly dir x) (scope : e.index.scopes.scopeFor? dir = some g)
    {t : Nat} (target : sym.target = some t) :
    ∃ m, (Grammar.definersOf d.text x).find?
        (!Grammar.isForward (Grammar.parse d.text).tree ·) = some m ∧
      s.record.symbols.get? m = some t := by
  have sound := fresh.consistent.sound
  obtain ⟨declares, u, live, _, real, nameU, placeU⟩ := sound.aimed id sym t led.live target
  obtain ⟨sym', live', name, place⟩ := sound.bound g x id led.bound
  rw [led.live] at live'
  cases live'
  -- The other symbol comes from the same document.
  obtain ⟨d', s', n, member, here, found, _, listed, definer, own⟩ :=
    fresh.source scope live (placeU.trans place)
  have leads := orderly u (ScopeStore.mem_symbols.2 ⟨t, live⟩) (nameU.trans name) d' member here own
  rw [nameU, name] at definer
  have same := led.leads.unique leads led.member member (led.here.trans here.symm) led.definers
    (List.ne_nil_of_mem definer)
  obtain rfl := fresh.eq_of_path led.member member same
  rw [led.found] at found
  cases found
  obtain ⟨_, c, q, u', _, _, live', alike, _⟩ := fresh.listed led.member led.found listed
  rw [live] at live'
  cases live'
  have kind : Grammar.isForward (Grammar.parse d.text).tree n = false := alike.forward.trans real
  cases first : (Grammar.definersOf d.text x).find?
      (!Grammar.isForward (Grammar.parse d.text).tree ·) with
  | none => exact absurd (List.find?_eq_none.1 first n definer) (by simp [kind])
  | some m =>
    obtain ⟨j, listed', aimed⟩ := (led.seated fresh.consistent).2.2 declares m first
    rw [target] at aimed
    cases aimed
    exact ⟨m, rfl, listed'⟩

/-- The first real definition of a document with a real first one is the first one. -/
theorem Led.find?_of_real (real : sym.forward = false) {n : Nat}
    (head : (Grammar.definersOf d.text x).head? = some n)
    (listed : s.record.symbols.get? n = some id) :
    (Grammar.definersOf d.text x).find? (!Grammar.isForward (Grammar.parse d.text).tree ·) =
      some n := by
  have kind := (led.forward_head fresh listed).trans real
  cases definers : Grammar.definersOf d.text x with
  | nil => exact absurd definers led.definers
  | cons m rest =>
    rw [definers, List.head?_cons, Option.some.injEq] at head
    rw [List.find?_cons, head, kind]
    rfl

/-- What a name leads to is listed for the terminal that the name means in the document. -/
theorem Led.resolveTarget? (orderly : e.Orderly dir x) (scope : e.index.scopes.scopeFor? dir = some g) :
    ∃ t m, e.index.scopes.resolveTarget? g x = some t ∧ Grammar.meantIn d.text x = some m ∧
      s.record.symbols.get? m = some t := by
  have sound := fresh.consistent.sound
  obtain ⟨⟨n, head, listed⟩, _, second⟩ := led.seated fresh.consistent
  have leads : e.index.scopes.resolveTarget? g x = some (e.index.scopes.follow id) := by
    rw [ScopeStore.resolveTarget?, ScopeStore.resolve?_eq sound.layered scope, led.bound]
    rfl
  cases target : sym.target with
  | some t =>
    obtain ⟨m, first, listed'⟩ := led.listed_target fresh orderly scope target
    refine ⟨t, m, ?_, ?_, listed'⟩
    · rw [leads, ScopeStore.follow_of_target sound.toCore led.live target]
    · rw [Grammar.meantIn, first, Option.some_or]
  | none =>
    refine ⟨id, n, ?_, ?_, listed⟩
    · rw [leads, ScopeStore.follow_of_self sound.toCore led.live target]
    · rw [Grammar.meantIn]
      cases first : (Grammar.definersOf d.text x).find?
          (!Grammar.isForward (Grammar.parse d.text).tree ·) with
      | none => rw [Option.none_or, head]
      | some m =>
        cases kind : sym.forward with
        | false => rw [← first, led.find?_of_real fresh kind head listed, Option.some_or]
        | true =>
          obtain ⟨j, _, aimed⟩ := second kind m first
          rw [target] at aimed
          cases aimed

/-- What a name means in a directory is what it means in the leading document. -/
theorem Led.meaning (orderly : e.Orderly dir x) (scope : e.index.scopes.scopeFor? dir = some g) :
    (e.index.scopes.resolveTarget? g x).bind e.identity? = d.meaning x := by
  obtain ⟨t, m, leads, meant, listed⟩ := led.resolveTarget? fresh orderly scope
  obtain ⟨_, c, q, u, defines, spelled, live, alike, _⟩ := fresh.listed led.member led.found listed
  have name : (Grammar.parse d.text).tree.textOf m = x := by
    have definer : m ∈ Grammar.definersOf d.text x := by
      rcases Option.or_eq_some_iff.1 meant with first | ⟨_, head⟩
      · exact List.mem_of_find?_eq_some first
      · exact List.mem_of_head? head
    exact (Grammar.mem_definersOf.1 definer).2.2
  have identity : u.identity =
      ⟨x, c, some (d.path.components, m, (Grammar.parse d.text).tree.spanOf m)⟩ := by
    rw [Symbol.identity, ← alike.name, ← alike.classification, ← alike.site, ← spelled, ← name]
    rfl
  rw [leads, Option.bind_some, identity?, live, Option.map_some, identity, Document.meaning, meant,
    Option.bind_some, defines, Option.map_some]

/-- The document lists what counts for the name. -/
theorem Led.contains_symbols (orderly : e.Orderly dir x) (scope : e.index.scopes.scopeFor? dir = some g)
    {n : Nat} (text : (Grammar.parse d.text).tree.textOf n = x) :
    s.record.symbols.contains n = true ↔ Grammar.Counts d.text x n := by
  obtain ⟨⟨m, head, listed⟩, only, second⟩ := led.seated fresh.consistent
  rw [Table.contains, Option.isSome_iff_exists, Grammar.Counts]
  constructor
  · rintro ⟨j, listed'⟩
    rcases only n j listed' text with rfl | target
    · exact .inl (fresh.listed_inj led.member led.found listed listed' ▸ head)
    · obtain ⟨k, first, listedK⟩ := led.listed_target fresh orderly scope target
      exact .inr (fresh.listed_inj led.member led.found listedK listed' ▸ first)
  · rintro (first | first)
    · rw [head] at first
      cases first
      exact ⟨id, listed⟩
    · cases kind : sym.forward with
      | true =>
        obtain ⟨j, listed', _⟩ := second kind n first
        exact ⟨j, listed'⟩
      | false =>
        rw [led.find?_of_real fresh kind head listed] at first
        cases first
        exact ⟨id, listed⟩

end Led

/-! ### What a file says -/

section File

variable {d : Document} (member : d ∈ e.documents) {s : FileState}
  (found : e.index.file? d.path = some s)

include member found

/-- A document leads for the names of the definitions that it lists. -/
theorem Fresh.leads_of_listed {n id : Nat}
    (orderly : e.Orderly d.path.directory ((Grammar.parse d.text).tree.textOf n))
    (listed : s.record.symbols.get? n = some id) :
    d.Leads e.documents ((Grammar.parse d.text).tree.textOf n) := by
  obtain ⟨_, c, q, sym, _, _, live, alike, own⟩ := fresh.listed member found listed
  exact orderly sym (ScopeStore.mem_symbols.2 ⟨id, live⟩) alike.name.symm d member rfl own

/-- A file lists what counts for the names that its document leads for. -/
theorem Fresh.contains_symbols {n : Nat}
    (orderly : e.Orderly d.path.directory ((Grammar.parse d.text).tree.textOf n)) :
    s.record.symbols.contains n = true ↔
      d.Leads e.documents ((Grammar.parse d.text).tree.textOf n) ∧
        Grammar.Counts d.text ((Grammar.parse d.text).tree.textOf n) n := by
  have scope := (fresh.settled found).1.attached.home
  have led : Grammar.definersOf d.text ((Grammar.parse d.text).tree.textOf n) ≠ [] →
      d.Leads e.documents ((Grammar.parse d.text).tree.textOf n) → ∃ id sym, Led e d.path.directory
        s.scope ((Grammar.parse d.text).tree.textOf n) d s id sym := by
    intro definers leads
    obtain ⟨s', id, sym, led⟩ := fresh.led_of_leads orderly scope member rfl definers leads
    have file := led.found
    rw [found] at file
    cases file
    exact ⟨id, sym, led⟩
  constructor
  · intro listed
    obtain ⟨id, listed⟩ := Option.isSome_iff_exists.1 listed
    have leads := fresh.leads_of_listed member found orderly listed
    obtain ⟨_, _, led⟩ := led (List.ne_nil_of_mem (fresh.listed member found listed).1) leads
    exact ⟨leads, (led.contains_symbols fresh orderly scope rfl).1 (by
      rw [Table.contains, listed]; rfl)⟩
  · rintro ⟨leads, counts⟩
    have definers : Grammar.definersOf d.text ((Grammar.parse d.text).tree.textOf n) ≠ [] := by
      rcases counts with head | first
      · exact List.ne_nil_of_mem (List.mem_of_head? head)
      · exact List.ne_nil_of_mem (List.mem_of_find?_eq_some first)
    obtain ⟨_, _, led⟩ := led definers leads
    exact (led.contains_symbols fresh orderly scope rfl).2 counts

/-- A definition that a file lists leads where its name leads. -/
theorem Fresh.follow_listed {n id : Nat} (listed : s.record.symbols.get? n = some id)
    (orderly : e.Orderly d.path.directory ((Grammar.parse d.text).tree.textOf n)) :
    e.index.scopes.resolveTarget? s.scope ((Grammar.parse d.text).tree.textOf n) =
      some (e.index.scopes.follow id) := by
  have sound := fresh.consistent.sound
  have scope := (fresh.settled found).1.attached.home
  have leads := fresh.leads_of_listed member found orderly listed
  obtain ⟨s', id', sym, led⟩ := fresh.led_of_leads orderly scope member rfl
    (List.ne_nil_of_mem (fresh.listed member found listed).1) leads
  have file := led.found
  rw [found] at file
  cases file
  rw [ScopeStore.resolveTarget?, ScopeStore.resolve?_eq sound.layered scope, led.bound,
    Option.some_or, Option.map_some]
  rcases (led.seated fresh.consistent).2.1 n id listed rfl with rfl | target
  · rfl
  · obtain ⟨_, u, live, self, _⟩ := sound.aimed id' sym id led.live target
    rw [ScopeStore.follow_of_target sound.toCore led.live target,
      ScopeStore.follow_of_self sound.toCore live self]

end File

/-- Definitions that are not listed mean nothing, and references mean what their names mean. -/
theorem Fresh.follow_unlisted {p : Path} {s : FileState} (found : e.index.file? p = some s) {n : Nat}
    (unlisted : s.record.symbols.get? n = none) :
    (s.record.symbolAt? n).map e.index.scopes.follow =
      if s.Refers n then e.index.scopes.resolveTarget? s.scope (s.parsed.tree.textOf n)
      else none := by
  obtain ⟨settled, _⟩ := fresh.settled found
  rw [BindingRecord.symbolAt?, unlisted, Option.none_or]
  split
  · next refers => rw [fresh.follow_resolved found refers]
  · next silent =>
    cases noted : s.record.resolved.get? n with
    | none => rfl
    | some id => exact absurd (settled.marked.resolved n id noted) silent

/-- The record keeps the classes of the definitions that it lists. -/
theorem Fresh.get?_defs {p : Path} {s : FileState} (found : e.index.file? p = some s) (n : Nat) :
    s.record.defs.get? n = if s.record.symbols.contains n = true
      then s.dialect.definition? s.parsed.tree ∅ n else none := by
  have recorded := (fresh.settled found).1.attached.recorded
  cases listed : s.record.symbols.get? n with
  | some id =>
    obtain ⟨_, c, _, _, defines, noted, _⟩ := recorded.described n id listed
    rw [if_pos (by rw [Table.contains, listed]; rfl), noted, defines]
  | none =>
    rw [if_neg (by rw [Table.contains, listed]; simp)]
    cases noted : s.record.defs.get? n with
    | none => rfl
    | some c =>
      obtain ⟨id, listed'⟩ := recorded.defs n c noted
      rw [listed] at listed'
      cases listed'

/-- A reference is resolved if its name is. -/
theorem Fresh.contains_resolved {p : Path} {s : FileState} (found : e.index.file? p = some s)
    (n : Nat) : s.record.resolved.contains n = if s.Refers n
      then (e.index.scopes.resolveTarget? s.scope (s.parsed.tree.textOf n)).isSome else false := by
  obtain ⟨settled, _⟩ := fresh.settled found
  split
  · next refers =>
    rw [← fresh.follow_resolved found refers, Option.isSome_map]
    rfl
  · next silent =>
    cases noted : s.record.resolved.get? n with
    | none => rw [Table.contains, noted]; rfl
    | some id => exact absurd (settled.marked.resolved n id noted) silent

end Fresh

end Engine

end GrammarIndex
