import GrammarIndex.Proofs.Engine.References
import GrammarIndex.Proofs.Session.History

/-!
Documents that are opened into an empty session.

Whatever the order in which they are opened, the documents of a directory are taken in path order.
A reference leads to the first real definition of its name in the directory, by path and then by
place in the text, or to the first announcement if there is no real definition; it is reported as
undefined if there is neither and the name is not built in.
-/
namespace GrammarIndex

/-! ### What the documents say -/

/-- A definition in a text that was opened, and whether it only announces the name. -/
structure Definition where
  location : Location
  announces : Bool
  deriving DecidableEq

/-- Texts in the order of their paths. -/
def inPathOrder (opened : List (Path × String)) : List (Path × String) :=
  sortOn Prod.fst opened

/-- The definitions of a name in the texts of a directory, by path and then by place. -/
def definitionsAmong (opened : List (Path × String)) (directory : List Component) (x : String) :
    List Definition :=
  (inPathOrder opened).flatMap fun o =>
    if o.1.directory.components = directory then
      (Grammar.definersOf o.2 x).map fun n =>
        ⟨⟨o.1, (Grammar.parse o.2).tree.spanOf n⟩, Grammar.isForward (Grammar.parse o.2).tree n⟩
    else []

/-- The definition that a name means: the first real one, or the first of all. -/
def meantAmong (opened : List (Path × String)) (directory : List Component) (x : String) :
    Option Location :=
  let all := definitionsAmong opened directory x
  ((all.find? (!·.announces)).or all.head?).map (·.location)

/-! ### What the session holds -/

namespace Session

open Engine

section

variable {opened : List (Path × String)}
  (distinct : opened.Pairwise fun o o' => o.1.components ≠ o'.1.components)

include distinct

/-- Texts with different paths are found by their paths. -/
theorem eq_of_distinct {o o' : Path × String} (member : o ∈ opened) (member' : o' ∈ opened)
    (same : o.1.components = o'.1.components) : o = o' := by
  induction opened with
  | nil => cases member
  | cons first rest ih =>
    obtain ⟨apart, distinctRest⟩ := List.pairwise_cons.1 distinct
    rcases List.mem_cons.1 member with rfl | later <;>
      rcases List.mem_cons.1 member' with rfl | later'
    · rfl
    · exact absurd same (apart o' later')
    · exact absurd same.symm (apart o later)
    · exact ih distinctRest later later'

/-- Documents with different paths that are opened are there as they were opened. -/
theorem document?_opened {e : Engine} (consistent : e.Consistent)
    (absent : ∀ o ∈ opened, e.document? o.1 = none) (q : Path) :
    ((opened.map fun o => Request.didOpen o.1 o.2).foldl serve e).document? q =
      ((opened.find? fun o => decide (q.components = o.1.components)).map
        fun o => (⟨o.1, o.2, true⟩ : Document)).or (e.document? q) := by
  induction opened generalizing e with
  | nil => rfl
  | cons o opened ih =>
    obtain ⟨apart, distinctRest⟩ := List.pairwise_cons.1 distinct
    have view : ∀ q, (e.openDocument o.1 o.2).document? q =
        if q.components = o.1.components then some ⟨o.1, o.2, true⟩ else e.document? q := by
      intro q
      refine (Workspace.find?_write consistent.tidy o.1 o.2 q).trans ?_
      have none_ : e.workspace.find? o.1 = none := absent o (by simp)
      rw [Workspace.written, none_]
      rfl
    have later := ih distinctRest (consistent_openDocument consistent o.1 o.2) (fun o' member => by
      rw [view, if_neg (apart o' member).symm]
      exact absent o' (by simp [member]))
    rw [List.map_cons, List.foldl_cons]
    refine later.trans ?_
    rw [view, List.find?_cons]
    by_cases same : q.components = o.1.components
    · have away : opened.find? (fun o' => decide (q.components = o'.1.components)) = none := by
        refine List.find?_eq_none.2 fun o' member => ?_
        simpa [same] using apart o' member
      rw [away]
      simp [same]
    · simp [same]

/-- The documents of a session into which texts were opened, in path order. -/
theorem documents_opened (config : Config) :
    (run config (opened.map fun o => .didOpen o.1 o.2)).documents =
      (inPathOrder opened).map fun o => ⟨o.1, o.2, true⟩ := by
  have consistent := consistent_run config (opened.map fun o => .didOpen o.1 o.2)
  have view := document?_opened distinct (consistent_new config) (fun _ _ => rfl)
  have members : ∀ d, d ∈ (run config (opened.map fun o => .didOpen o.1 o.2)).documents ↔
      d ∈ (inPathOrder opened).map fun o => (⟨o.1, o.2, true⟩ : Document) := by
    intro d
    have held : (run config (opened.map fun o => .didOpen o.1 o.2)).workspace.find? d.path =
        (opened.find? fun o => decide (d.path.components = o.1.components)).map
          fun o => (⟨o.1, o.2, true⟩ : Document) := (view d.path).trans Option.or_none
    rw [documents, Workspace.mem_documents_iff consistent.tidy, held, inPathOrder]
    simp only [List.mem_map, mem_sortOn, Option.map_eq_some_iff]
    constructor
    · rintro ⟨o, found, made⟩
      exact ⟨o, List.mem_of_find?_eq_some found, made⟩
    · rintro ⟨o, member, rfl⟩
      refine ⟨o, ?_, rfl⟩
      -- No other text has this path.
      cases found : opened.find? fun o' => decide (o.1.components = o'.1.components) with
      | none => exact absurd (List.find?_eq_none.1 found o member) (by simp)
      | some o' =>
        have same : o.1.components = o'.1.components := by simpa using List.find?_some found
        rw [eq_of_distinct distinct member (List.mem_of_find?_eq_some found) same]
  have apart : (inPathOrder opened).Pairwise fun o o' => o.1.components ≠ o'.1.components :=
    (sortOn_perm _ opened).symm.pairwise distinct Ne.symm
  refine List.Perm.eq_of_pairwise ?_ (Workspace.sorted_documents _) ?_
    ((List.perm_ext_iff_of_nodup ?_ ?_).2 members)
  · intro d d' member member' lower upper
    have held := (Workspace.mem_documents_iff consistent.tidy).1 member
    have held' := (Workspace.mem_documents_iff consistent.tidy).1 ((members d').2 member')
    rw [Workspace.find?_congr _ (Path.ordered_antisymm lower upper), held'] at held
    exact (Option.some.inj held).symm
  · exact List.pairwise_map.2 (pairwise_sortOn Prod.fst opened)
  · exact (Workspace.pairwise_documents consistent.tidy).imp fun apart same => apart (by rw [same])
  · refine List.pairwise_map.2 (apart.imp fun other same => other ?_)
    rw [(Document.mk.inj same).1]

/-- The first run has to bind all of them. -/
theorem dirtyDocuments_opened (config : Config) :
    (run config (opened.map fun o => .didOpen o.1 o.2)).dirtyDocuments =
      (run config (opened.map fun o => .didOpen o.1 o.2)).documents := by
  refine List.filter_eq_self.2 fun d listed => ?_
  rw [documents_opened distinct] at listed
  obtain ⟨o, _, rfl⟩ := List.mem_map.1 listed
  rfl

theorem dirtyDocuments_opened_ne_nil (config : Config) (some_ : opened ≠ []) :
    (run config (opened.map fun o => .didOpen o.1 o.2)).dirtyDocuments ≠ [] := by
  obtain ⟨o, member⟩ := List.exists_mem_of_ne_nil opened some_
  rw [dirtyDocuments_opened distinct, documents_opened distinct]
  exact List.ne_nil_of_mem (List.mem_map.2 ⟨o, mem_sortOn.2 member, rfl⟩)

/-- With a dialect for every text, the first run brings the session up to date. -/
theorem run_opened (config : Config) (some_ : opened ≠ [])
    (handled : ∀ o ∈ opened, Grammar.dialect.handles o.1 = true) :
    run config ((opened.map fun o => .didOpen o.1 o.2) ++ [.compile]) =
      (run config (opened.map fun o => .didOpen o.1 o.2)).compiled := by
  have consistent := consistent_run config (opened.map fun o => .didOpen o.1 o.2)
  have all := dirtyDocuments_opened distinct config
  have docs := documents_opened distinct config
  have dirty := dirtyDocuments_opened_ne_nil distinct config some_
  have ran : run config ((opened.map fun o => .didOpen o.1 o.2) ++ [.compile]) =
      (Session.compile (run config (opened.map fun o => .didOpen o.1 o.2))).1 := by
    simp only [run, List.foldl_append]
    rfl
  generalize run config (opened.map fun o => .didOpen o.1 o.2) = e at consistent all docs dirty ran ⊢
  have known : Compile.dialectsOf Grammar.registry e.dirtyDocuments =
      .ok (e.dirtyDocuments.map fun d => (d, Grammar.dialect)) := by
    refine Compile.dialectsOf_handled fun d listed => ?_
    rw [all, docs] at listed
    obtain ⟨o, inside, rfl⟩ := List.mem_map.1 listed
    exact handled o (mem_sortOn.1 inside)
  have success : e.compile = (e.compiled, .ok (OrderedSet.toList e.rebound.bound)) := by
    rw [compile_eq consistent, known]
    exact if_neg (by simpa using dirty)
  rw [ran, Session.compile, guarded, success]

/-- Every name stands as the texts bring it in, in path order. -/
theorem standing_opened (config : Config) (some_ : opened ≠ []) (x : String) (dir : Path) (g : Nat)
    (home : (run config (opened.map fun o => .didOpen o.1 o.2)).compiled.index.scopes.scopeFor? dir =
      some g) :
    (run config (opened.map fun o => .didOpen o.1 o.2)).compiled.index.scopes.standing g x =
      (definitionsOf ((inPathOrder opened).map fun o => ⟨o.1, o.2, true⟩) dir g x).foldl
        Standing.hear none := by
  have consistent := consistent_run config (opened.map fun o => .didOpen o.1 o.2)
  rw [← documents_opened distinct config]
  refine standing_compiled consistent (fun d listed _ _ => ?_)
    (dirtyDocuments_opened_ne_nil distinct config some_) home
  rw [← dirtyDocuments_opened distinct] at listed
  exact ((mem_dirtyDocuments consistent).1 listed).2

end

/-! ### What the definitions come to -/

/-- The definitions that a text brings in stand where its definers stand. -/
theorem map_symbolAt {text : String} {p : Path} {g : Nat} {l : List Nat}
    (defines : ∀ n ∈ l,
      (Grammar.dialect.definition? (Grammar.parse text).tree ∅ n).isSome = true) :
    (l.filterMap (Binding.symbolAt Grammar.dialect (Grammar.parse text).tree p g)).map
        (fun s => (s.site.map fun site => (⟨site.file, site.span⟩ : Location), s.forward)) =
      l.map fun n => (some ⟨p, (Grammar.parse text).tree.spanOf n⟩,
        Grammar.isForward (Grammar.parse text).tree n) := by
  induction l with
  | nil => rfl
  | cons n l ih =>
    obtain ⟨c, class_⟩ := Option.isSome_iff_exists.1 (defines n (by simp))
    rw [List.filterMap_cons, Binding.symbolAt, class_, Option.map_some, List.map_cons, List.map_cons,
      ih fun m member => defines m (by simp [member])]
    rfl

theorem isSome_of_mem_definersOf {text x : String} {n : Nat}
    (member : n ∈ Grammar.definersOf text x) :
    (Grammar.dialect.definition? (Grammar.parse text).tree ∅ n).isSome = true := by
  have kept := (List.mem_filter.1 member).2
  simp only [Bool.and_eq_true] at kept
  exact kept.1

/-- The symbols that the documents bring in, as definitions. -/
theorem map_definitionsOf (opened : List (Path × String)) (dir : Path) (g : Nat) (x : String) :
    (definitionsOf ((inPathOrder opened).map fun o => ⟨o.1, o.2, true⟩) dir g x).map
        (fun s => (s.site.map fun site => (⟨site.file, site.span⟩ : Location), s.forward)) =
      (definitionsAmong opened dir.components x).map fun d => (some d.location, d.announces) := by
  unfold definitionsOf definitionsAmong
  rw [List.flatMap_map, List.map_flatMap, List.map_flatMap]
  congr 1
  funext o
  split
  · rw [map_symbolAt fun n => isSome_of_mem_definersOf, List.map_map]
    rfl
  · rfl

/-- The standing that comes of the definitions means what they mean. -/
theorem location_of_heard (opened : List (Path × String)) (dir : Path) (g : Nat) (x : String) :
    (((((definitionsOf ((inPathOrder opened).map fun o => ⟨o.1, o.2, true⟩) dir g x).foldl
        Standing.hear none).map Standing.meant).bind (·.site)).map
          fun site => (⟨site.file, site.span⟩ : Location)) =
      meantAmong opened dir.components x := by
  have same := map_definitionsOf opened dir g x
  rw [Standing.meant_foldl_hear, meantAmong]
  generalize definitionsOf ((inPathOrder opened).map fun o => ⟨o.1, o.2, true⟩) dir g x = symbols
    at same
  generalize definitionsAmong opened dir.components x = definitions at same
  have real := congrArg (List.find? (!·.2)) same
  have first := congrArg List.head? same
  rw [List.find?_map, List.find?_map] at real
  rw [List.head?_map, List.head?_map] at first
  have chosen : ((symbols.find? (!·.forward)).or symbols.head?).map
      (fun s => (s.site.map fun site => (⟨site.file, site.span⟩ : Location), s.forward)) =
      ((definitions.find? (!·.announces)).or definitions.head?).map
        fun d => (some d.location, d.announces) := by
    rw [Option.map_or, Option.map_or, first]
    exact congrArg (Option.or · _) real
  have located := congrArg (Option.bind · Prod.fst) chosen
  simp only [Option.bind_map] at located
  rw [Option.map_bind]
  refine located.trans ?_
  exact Option.map_eq_bind.symm

/-- A name is heard of if a text of the directory defines it. -/
theorem heard_eq_none_iff (opened : List (Path × String)) (dir : Path) (g : Nat) (x : String) :
    (definitionsOf ((inPathOrder opened).map fun o => ⟨o.1, o.2, true⟩) dir g x).foldl
        Standing.hear none = none ↔ definitionsAmong opened dir.components x = [] := by
  have same := congrArg List.length (map_definitionsOf opened dir g x)
  rw [List.length_map, List.length_map] at same
  rw [← List.length_eq_zero_iff, ← same, List.length_eq_zero_iff]
  cases definitionsOf ((inPathOrder opened).map fun o => ⟨o.1, o.2, true⟩) dir g x with
  | nil => simp
  | cons first rest =>
    rw [Standing.foldl_hear_none]
    simp

/-- For texts opened into an empty session and bound once: what is found at a reference, and when it
is reported as undefined, by the texts of its directory alone. -/
theorem reference_in_opened (config : Config) (opened : List (Path × String))
    (distinct : opened.Pairwise fun o o' => o.1.components ≠ o'.1.components)
    (handled : ∀ o ∈ opened, Grammar.dialect.handles o.1 = true) {p : Path} {text : String}
    (member : (p, text) ∈ opened) {n : Nat} {c : Classification}
    (terminal : n ∈ (Grammar.parse text).tree.terminals)
    (reference : Grammar.dialect.reference? (Grammar.parse text).tree ∅ n = some c) :
    let e := run config ((opened.map fun o => .didOpen o.1 o.2) ++ [.compile])
    let x := (Grammar.parse text).tree.textOf n
    let span := (Grammar.parse text).tree.spanOf n
    (ask (·.definitions p span.start) e).2 =
        .ok (meantAmong opened p.directory.components x).toList ∧
      ∃ ds, (ask (·.diagnostics p) e).2 = .ok ds ∧ ∀ message,
        ⟨.warning, span, message⟩ ∈ ds ↔
          message = "undefined " ++ c.label ++ " '" ++ x ++ "'" ∧
            definitionsAmong opened p.directory.components x = [] ∧
            ∀ b ∈ Grammar.builtins, b.1 ≠ x := by
  intro e x span
  have some_ : opened ≠ [] := List.ne_nil_of_mem member
  have consistent := consistent_run config (opened.map fun o => .didOpen o.1 o.2)
  have docs := documents_opened distinct config
  have stands := standing_opened distinct config some_ x
  have done : e = _ := run_opened distinct config some_ handled
  generalize run config (opened.map fun o => .didOpen o.1 o.2) = e₀ at consistent docs stands done
  have held₀ : e₀.document? p = some ⟨p, text, true⟩ := by
    refine (Workspace.mem_documents_iff consistent.tidy (d := ⟨p, text, true⟩)).1 ?_
    refine (congrArg (_ ∈ ·) docs).mpr (List.mem_map.2 ⟨(p, text), ?_, rfl⟩)
    exact mem_sortOn.2 member
  have fresh := fresh_compiled consistent
  have held := document?_compiled consistent p
  rw [held₀, Option.map_some] at held
  obtain ⟨s, found⟩ := Option.isSome_iff_exists.1 (fresh.consistent.indexed p _ held rfl)
  obtain ⟨parsed, refers, class_⟩ := fresh.refers_of_reference found held terminal reference
  have home := (fresh.settled found).1.attached.home
  replace stands := stands _ _ home
  have name : s.parsed.tree.textOf n = x := by rw [parsed]
  have place : s.parsed.tree.spanOf n = span := by rw [parsed]
  simp only [ask, done, ensureCompiled_of_fresh fresh]
  constructor
  · have answer := fresh.definitions_start found refers
    rw [place, name, stands, location_of_heard] at answer
    exact answer
  · refine ⟨s.diagnostics, ?_, fun message => ?_⟩
    · rw [Engine.diagnostics, boundFile, Index.file?, found]
      rfl
    · have sound := fresh.consistent.sound
      have warned := fresh.warning_iff found refers class_ message
      rw [place, name, ScopeStore.resolve?_eq sound.layered home, Option.or_eq_none_iff,
        ← ScopeStore.standing_eq_none_iff sound.toCore, stands, heard_eq_none_iff,
        fresh.consistent.based.names, lookup?_baseStore_eq_none_iff] at warned
      exact warned

/-- A name that one text announces and two others of its directory define, with a like-named
definition elsewhere. -/
def announced : List (Path × String) :=
  [(.of "g/c.g4", "ID : 'c' ;"), (.of "a.g4", "ID : 'a' ;"), (.of "g/b.g4", "ID : 'b' ;"),
    (.of "g/a.g4", "tokens { ID }\nr : ID ;")]

theorem reference_in_opened_announced :
    (announced.Pairwise fun o o' => o.1.components ≠ o'.1.components) ∧
      (∀ o ∈ announced, Grammar.dialect.handles o.1 = true) ∧
      10 ∈ (Grammar.parse "tokens { ID }\nr : ID ;").tree.terminals ∧
      (ask (·.definitions (.of "g/a.g4") 18)
          (run {} ((announced.map fun o => .didOpen o.1 o.2) ++ [.compile]))).2 =
        .ok [⟨.of "g/b.g4", ⟨0, 2⟩⟩] := by
  have distinct : announced.Pairwise fun o o' => o.1.components ≠ o'.1.components := by
    decide +kernel
  have handled : ∀ o ∈ announced, Grammar.dialect.handles o.1 = true := by decide +kernel
  have terminal : 10 ∈ (Grammar.parse "tokens { ID }\nr : ID ;").tree.terminals := by
    decide +kernel
  have reference : (Grammar.dialect.reference?
      (Grammar.parse "tokens { ID }\nr : ID ;").tree ∅ 10).isSome = true := by decide +kernel
  obtain ⟨c, class_⟩ := Option.isSome_iff_exists.1 reference
  have answer := (reference_in_opened {} announced distinct handled (p := .of "g/a.g4")
    (by simp [announced]) terminal class_).1
  have start : ((Grammar.parse "tokens { ID }\nr : ID ;").tree.spanOf 10).start = 18 := by
    decide +kernel
  have meant : meantAmong announced (Path.of "g/a.g4").directory.components
      ((Grammar.parse "tokens { ID }\nr : ID ;").tree.textOf 10) =
        some ⟨.of "g/b.g4", ⟨0, 2⟩⟩ := by
    decide +kernel
  refine ⟨distinct, handled, terminal, ?_⟩
  rw [start, meant] at answer
  exact answer

end Session

end GrammarIndex
