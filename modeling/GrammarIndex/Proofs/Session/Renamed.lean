import GrammarIndex.Proofs.Engine.Rebound
import GrammarIndex.Proofs.Session.Opened

/-!
Renaming in a session, and binding the edited texts in another.

The edits of a renaming put the new name at the places where the symbol occurs, and nothing else
changes. If the new name is of the same kind and the directory of the symbol does not have it, a
session into which the edited texts are opened reads the same trees, every reference leads where it
led, and the symbol with the new name occurs where the old one did.
-/
namespace GrammarIndex

/-! ### The edits -/

namespace Engine

/-- The edits that are listed for a file are those for its places, in order. -/
theorem getD_renamed (name : String) (ls : List Location) (t : PathTable (List Edit)) (q : Path) :
    ((ls.foldl (fun edits l => edits.insert l.file ((edits.get? l.file).getD [] ++
        Edit.substitute l.span.start l.span.length name)) t).get? q).getD [] =
      (t.get? q).getD [] ++ ((ls.filter fun l => l.file.components = q.components).map
        (·.span)).flatMap fun span => Edit.substitute span.start span.length name := by
  induction ls generalizing t with
  | nil => simp
  | cons l ls ih =>
    rw [List.foldl_cons, ih, PathTable.get?_insert, List.filter_cons]
    by_cases here : l.file.components = q.components
    · rw [if_pos here.symm, if_pos (decide_eq_true here), PathTable.get?_congr t here]
      simp
    · rw [if_neg (Ne.symm here), if_neg (by simpa using here)]

/-- The edits that rename what is found at an offset. -/
theorem exists_edits_of_rename {e : Engine} {p : Path} {s : FileState}
    (found : e.index.file? p = some s) {offset target : Nat}
    (at_ : e.targetAt? s offset = some target) {sym : Symbol}
    (live : e.index.scopes.symbol? target = some sym) (real : sym.isBuiltin = false)
    {name : String} (valid : s.dialect.validateName sym.classification name = .ok ()) :
    ∃ edits, e.rename p offset name = .ok edits ∧ ∀ q : Path, (edits.get? q).getD [] =
      (e.respellings target name q.components).edits
        (e.respellings target name q.components).spans := by
  refine ⟨_, ?_, fun q => getD_renamed name (e.occurrences target) ∅ q⟩
  simp only [rename, boundFile, found, at_, live, real, valid, bind, Except.bind, pure, Except.pure]
  rfl

end Engine

namespace Session

open Engine

/-! ### Texts that are opened and bound -/

/-- A session into which texts were opened, and that was brought up to date. -/
def bound (config : Config) (opened : List (Path × String)) : Engine :=
  run config ((opened.map fun o => .didOpen o.1 o.2) ++ [.compile])

/-- Texts that were opened, edited. -/
def edited (opened : List (Path × String)) (edits : PathTable (List Edit)) : List (Path × String) :=
  opened.map fun o => (o.1, applyEdits o.2 ((edits.get? o.1).getD []))

theorem inPathOrder_edited (opened : List (Path × String)) (edits : PathTable (List Edit)) :
    inPathOrder (edited opened edits) = edited (inPathOrder opened) edits :=
  (map_sortOn (fun o : Path × String => (o.1, applyEdits o.2 ((edits.get? o.1).getD [])))
    Prod.fst opened).symm

/-- The documents of texts that are opened. -/
def documentsOf (opened : List (Path × String)) : List Document :=
  (inPathOrder opened).map fun o => ⟨o.1, o.2, true⟩

theorem mem_documentsOf {opened : List (Path × String)} {d : Document} :
    d ∈ documentsOf opened ↔ ∃ o ∈ opened, (⟨o.1, o.2, true⟩ : Document) = d := by
  simp only [documentsOf, List.mem_map, inPathOrder, mem_sortOn]

/-- Texts that are opened are bound all at once. -/
theorem atOnce_opened {opened : List (Path × String)}
    (distinct : opened.Pairwise fun o o' => o.1.components ≠ o'.1.components)
    (handled : ∀ o ∈ opened, Grammar.dialect.handles o.1 = true) (config : Config)
    (some_ : opened ≠ []) : AtOnce (documentsOf opened)
      (run config (opened.map fun o => .didOpen o.1 o.2)) (bound config opened) := by
  have consistent := consistent_run config (opened.map fun o => .didOpen o.1 o.2)
  have docs := documents_opened distinct config
  rw [bound, run_opened distinct config some_ handled, documentsOf, ← docs]
  refine atOnce_compiled consistent (fun p d held => ?_) ?_
  · have member := Workspace.mem_documents_of_find? consistent.tidy held
    obtain ⟨o, _, rfl⟩ := List.mem_map.1 ((congrArg (d ∈ ·) docs).mp member)
    rfl
  · obtain ⟨o, member⟩ := List.exists_mem_of_ne_nil opened some_
    rw [docs]
    exact List.ne_nil_of_mem (List.mem_map_of_mem (mem_sortOn.2 member))

/-- Edited texts are bound all at once, as the documents that the edits make. -/
theorem atOnce_edited {opened : List (Path × String)}
    (distinct : opened.Pairwise fun o o' => o.1.components ≠ o'.1.components)
    (handled : ∀ o ∈ opened, Grammar.dialect.handles o.1 = true) (config : Config)
    (some_ : opened ≠ []) {edits : PathTable (List Edit)} {r : Respellings}
    (texts : ∀ o ∈ opened, applyEdits o.2 ((edits.get? o.1).getD []) =
      (r o.1.components).respell o.2) :
    AtOnce ((documentsOf opened).map r.document)
      (run config ((edited opened edits).map fun o => .didOpen o.1 o.2))
      (bound config (edited opened edits)) := by
  have docs : documentsOf (edited opened edits) = (documentsOf opened).map r.document := by
    rw [documentsOf, inPathOrder_edited, edited, documentsOf, List.map_map, List.map_map]
    exact List.map_congr_left fun o inside =>
      congrArg (Document.mk o.1 · true) (texts o (mem_sortOn.1 inside))
  rw [← docs]
  have apart : (edited opened edits).Pairwise fun o o' => o.1.components ≠ o'.1.components :=
    List.pairwise_map.2 distinct
  have some' : edited opened edits ≠ [] := List.map_eq_nil_iff.not.2 some_
  refine atOnce_opened apart (fun o' inside => ?_) config some'
  obtain ⟨o, member, rfl⟩ := List.mem_map.1 inside
  exact handled o member

/-- Renaming what is found at an offset, to a valid name of its kind that its directory does not
have: the edited texts have the trees of the old ones, with the new name at the places of the
symbol; bound in a session of their own, every reference means what it meant, and the symbol with
the new name occurs where the old one did. -/
theorem rename_preserves_bindings (config : Config) (opened : List (Path × String))
    (distinct : opened.Pairwise fun o o' => o.1.components ≠ o'.1.components)
    (handled : ∀ o ∈ opened, Grammar.dialect.handles o.1 = true) {p : Path} {s : FileState}
    (found : (bound config opened).index.file? p = some s) {offset target : Nat}
    (asked : (bound config opened).targetAt? s offset = some target) {sym : Symbol}
    (live : (bound config opened).index.scopes.symbol? target = some sym)
    (real : sym.isBuiltin = false) {name : String}
    (valid : Grammar.validateName sym.classification name = .ok ())
    (kind : (Grammar.tokenize name).1.map (·.kind) = (Grammar.tokenize sym.name).1.map (·.kind))
    (unused : ∀ o ∈ opened, ∀ f, sym.file? = some f →
      o.1.directory.components = f.directory.components →
        ∀ t ∈ (Grammar.tokenize o.2).1, Grammar.isNameKind t.kind = true → t.text ≠ name) :
    let e := bound config opened
    let r := e.respellings target name
    ∃ edits, (ask (·.rename p offset name) e).2 = .ok edits ∧
      let e' := bound config (edited opened edits)
      (∀ o ∈ opened, ∃ s s', e.index.file? o.1 = some s ∧ e'.index.file? o.1 = some s' ∧
        s.parsed = Grammar.parse o.2 ∧
        s'.parsed = Grammar.parse (applyEdits o.2 ((edits.get? o.1).getD [])) ∧
        SameBinding r e e' o.1.components s s') ∧
      ∃ target' sym', e'.index.scopes.symbol? target' = some sym' ∧ sym'.name = name ∧
        sym'.identity = r.identity sym.identity ∧
        ∀ spot, spot ∈ (e'.occurrences target').map Location.spot ↔
          ∃ old ∈ (e.occurrences target).map Location.spot, spot = r.spot old := by
  intro e r
  have some_ : opened ≠ [] := by
    rintro rfl
    cases found
  have once := atOnce_opened distinct handled config some_
  have ren : Renaming _ _ e target sym name := once.renaming found asked live real valid kind
    fun d member f file here t listed => by
      obtain ⟨o, inside, rfl⟩ := mem_documentsOf.1 member
      exact unused o inside f file here t listed
  have dialect : s.dialect = Grammar.dialect := by
    obtain ⟨_, _, _, read⟩ := once.held p s found
    exact read.dialect
  have valid' : s.dialect.validateName sym.classification name = .ok () := by
    rw [dialect]
    exact valid
  obtain ⟨edits, proposed, listed⟩ := exists_edits_of_rename found asked live real valid'
  refine ⟨edits, ?_, ?_⟩
  · rw [ask, ensureCompiled_of_fresh once.fresh]
    exact proposed
  · have texts : ∀ o ∈ opened, applyEdits o.2 ((edits.get? o.1).getD []) =
        (r o.1.components).respell o.2 := by
      intro o inside
      have member := mem_documentsOf.2 ⟨o, inside, rfl⟩
      rw [listed]
      exact (ren.fits member).applyEdits_edits (ren.sorted member)
    have again := atOnce_edited distinct handled config some_ texts
    intro e'
    refine ⟨fun o inside => ?_, ?_⟩
    · have member := mem_documentsOf.2 ⟨o, inside, rfl⟩
      obtain ⟨s, found, read⟩ := once.indexed _ member
      obtain ⟨s', found', read'⟩ := again.indexed _ (List.mem_map_of_mem member)
      refine ⟨s, s', found, found', read.parsed, ?_, ren.sameBinding again member found found'⟩
      rw [texts o inside]
      exact read'.parsed
    · obtain ⟨dir, g', target', leads⟩ := ren.exists_leads again
      exact ⟨target', _, leads.live, ren.name_symbol g', r.identity_symbol g' sym,
        ren.mem_occurrences_iff again leads⟩

theorem rename_preserves_bindings_announced : ∃ edits target sym,
    (ask (·.rename (.of "g/a.g4") 18 "NAME") (bound {} announced)).2 = .ok edits ∧
      (bound {} (edited announced edits)).index.scopes.symbol? target = some sym ∧
      sym.name = "NAME" ∧ (bound {} (edited announced edits)).occurrences target ≠ [] := by
  have distinct : announced.Pairwise fun o o' => o.1.components ≠ o'.1.components := by
    decide +kernel
  have handled : ∀ o ∈ announced, Grammar.dialect.handles o.1 = true := by decide +kernel
  have free : ∀ o ∈ announced, ∀ t ∈ (Grammar.tokenize o.2).1, t.text ≠ "NAME" := by
    decide +kernel
  have asked : (((bound {} announced).index.file? (.of "g/a.g4")).any fun s =>
      ((bound {} announced).targetAt? s 18).any fun target =>
        ((bound {} announced).index.scopes.symbol? target).any fun sym =>
          decide (sym.name = "ID" ∧ sym.isBuiltin = false ∧ sym.classification = .terminal)) =
      true := by
    decide +kernel
  obtain ⟨s, found, asked⟩ := (Option.any_eq_true _ _).1 asked
  obtain ⟨target, asked, checked⟩ := (Option.any_eq_true _ _).1 asked
  obtain ⟨sym, live, checked⟩ := (Option.any_eq_true _ _).1 checked
  obtain ⟨old, real, class_⟩ := of_decide_eq_true checked
  obtain ⟨edits, answer, _, target', sym', live', named, _, occurs⟩ :=
    rename_preserves_bindings {} announced distinct handled found asked live real
      (show Grammar.validateName sym.classification "NAME" = .ok () by rw [class_]; rfl)
      (by rw [old]; decide +kernel) fun o member _ _ _ t listed _ => free o member t listed
  refine ⟨edits, target', sym', answer, live', named, fun none_ => ?_⟩
  obtain ⟨n, member, id, at_, leads⟩ := exists_of_targetAt? asked
  have spot := (occurs _).2 ⟨_, mem_occurrences.2 ⟨_, s, n, found, member, by
    rw [at_, Option.map_some, leads], rfl⟩, rfl⟩
  rw [none_] at spot
  cases spot

end Session

end GrammarIndex
