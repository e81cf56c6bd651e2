import GrammarIndex.Proofs.Engine.Coherent
import GrammarIndex.Proofs.Engine.Occurrences
import GrammarIndex.Proofs.Session.History

/-!
Answers and texts do not drift apart.

A range that an answer reports is the range of a leaf or of a comment. These were read from the text
that the document holds now, so the range lies in this text and holds what the leaf or the comment
says. Only complaints point at what is not there: a note of something missing is an empty range.
-/
namespace GrammarIndex

/-! ### Ranges of a text -/

namespace Grammar

/-- A leaf or a comment of a text stands at a range, and the range holds its text. -/
structure Legible (text : String) (span : Span) : Prop where
  ordered : span.start ≤ span.stop
  within : span.stop ≤ text.length
  held : ∃ held : String, held.toList = stretch text span ∧
    ((∃ n, (parse text).tree.text? n = some held ∧ (parse text).tree.spanOf n = span) ∨
      ∃ c ∈ (parse text).comments, c.text = held ∧ c.span = span)

/-- A note of something missing stands at an empty range of a text. -/
structure Absent (text : String) (span : Span) : Prop where
  empty : span.start = span.stop
  within : span.stop ≤ text.length
  note : ∃ n what, (parse text).tree.kind? n = some (.error ("missing " ++ what)) ∧
    (parse text).tree.spanOf n = span

theorem legible_of_terminal (text : String) {n : Nat}
    (terminal : n ∈ (parse text).tree.terminals) :
    Legible text ((parse text).tree.spanOf n) := by
  obtain ⟨token, held, kind, filled, within, chars⟩ := stretch_terminal text terminal
  have leaf : (parse text).tree.text? n = some held := by
    rw [SyntaxTree.text?, kind]
    rfl
  exact ⟨Nat.le_of_lt filled, within, held, chars, .inl ⟨n, leaf, rfl⟩⟩

theorem legible_or_absent_of_error (text : String) {n : Nat}
    (listed : n ∈ (parse text).errors) :
    Legible text ((parse text).tree.spanOf n) ∨ Absent text ((parse text).tree.spanOf n) := by
  obtain ⟨message, kind⟩ : ∃ message, (parse text).tree.kind? n = some (.error message) :=
    mem_errorsOf.1 listed
  have leaf : (parse text).tree.text? n = some message := by
    rw [SyntaxTree.text?, kind]
    rfl
  obtain ⟨ordered, within⟩ := span_of_leaf text leaf
  rcases text_of_leaf text leaf with ⟨_, same, _⟩ | ⟨empty, ⟨what, rfl⟩, _⟩
  · exact .inl ⟨ordered, within, message, same, .inl ⟨n, leaf, rfl⟩⟩
  · refine .inr ⟨?_, within, n, what, kind, rfl⟩
    simpa [Span.isEmpty] using empty

theorem legible_of_comment (text : String) {c : Comment} (listed : c ∈ (parse text).comments) :
    Legible text c.span := by
  obtain ⟨p, member, comment⟩ := List.mem_filterMap.1 listed
  have filled := ((ordered_piecesFrom 0 false text.toList).1 p member).2
  obtain ⟨within, same⟩ := stretch_comment listed
  refine ⟨?_, within, c.text, same, .inr ⟨c, listed, rfl, rfl⟩⟩
  unfold Piece.comment? at comment
  split at comment
  · cases comment
    exact Nat.le_of_lt filled
  · cases comment

end Grammar

/-! ### What answers report -/

namespace Engine

/-- The file that a question is asked about. -/
def Query.path : Query → Path
  | .definitions p _ | .references p _ | .highlights p _ | .hover p _ | .completion p _
  | .rename p _ _ | .diagnostics p | .documentSymbols p | .classifyRange p _ _
  | .nextDefinition p _ _ => p

/-- The ranges that an answer reports. Where it names no file, it is about the one asked for. -/
def Answer.reported (file : List Component) : Answer → List Spot
  | .spots ls => ls
  | .quickInfo info => info.toList.map fun i => (file, i.span)
  | .names _ => []
  | .edits files => files.entries.flatMap fun f =>
    (f.2.filter (·.kind == .delete)).map fun e => (f.1, ⟨e.start, e.stop⟩)
  | .diagnostics ds => ds.map fun d => (file, d.span)
  | .outline symbols => symbols.map fun s => (file, s.span)
  | .classified spans => spans.map fun c => (file, c.span)
  | .start _ => []

/-- Every deletion of a renaming is one of the places that are renamed. -/
theorem place_of_deletion (name : String) (ls : List Location) {todo : List Location}
    (within : ∀ l ∈ todo, l ∈ ls) {t : PathTable (List Edit)}
    (known : ∀ p edits, t.get? p = some edits → ∀ edit ∈ edits, edit.kind = .delete →
      ∃ l ∈ ls, l.file.components = p.components ∧ edit = .delete l.span.start l.span.length) :
    ∀ p edits, (todo.foldl (fun edits l => edits.insert l.file ((edits.get? l.file).getD [] ++
        Edit.substitute l.span.start l.span.length name)) t).get? p = some edits →
      ∀ edit ∈ edits, edit.kind = .delete →
        ∃ l ∈ ls, l.file.components = p.components ∧ edit = .delete l.span.start l.span.length := by
  induction todo generalizing t with
  | nil => exact known
  | cons l todo ih =>
    refine ih (fun l' member => within l' (by simp [member])) ?_
    intro p edits found edit member deletes
    rw [PathTable.get?_insert] at found
    split at found
    · next same =>
      cases found
      rcases List.mem_append.1 member with before | new
      · cases old : t.get? l.file with
        | none =>
          rw [old] at before
          cases before
        | some edits =>
          rw [old] at before
          obtain ⟨l', listed, spelled, place⟩ := known l.file edits old edit before deletes
          exact ⟨l', listed, spelled.trans same.symm, place⟩
      · simp only [Edit.substitute, List.mem_cons, List.not_mem_nil, or_false] at new
        rcases new with rfl | rfl
        · exact ⟨l, within l (by simp), same.symm, rfl⟩
        · cases deletes
    · exact known p edits found edit member deletes

/-- A range that is legible in the text that its file holds. -/
def Located (e : Engine) (spot : Spot) : Prop :=
  ∃ p d, p.components = spot.1 ∧ e.document? p = some d ∧ Grammar.Legible d.text spot.2

section Fresh

variable {before e : Engine} (fresh : Fresh before e)

include fresh

theorem Fresh.located_of_terminal {f : Path} {s : FileState} (found : e.index.file? f = some s)
    {n : Nat} (terminal : n ∈ s.parsed.tree.terminals) :
    e.Located (f.components, s.parsed.tree.spanOf n) := by
  obtain ⟨_, d, held, read⟩ := fresh.settled found
  rw [read.parsed] at terminal ⊢
  exact ⟨f, d, rfl, held, Grammar.legible_of_terminal d.text terminal⟩

theorem Fresh.located_of_occurrences {target : Nat} {l : Location}
    (member : l ∈ e.occurrences target) : e.Located l.spot := by
  obtain ⟨⟨f, s⟩, entry, inside⟩ := List.mem_flatMap.1 (Location.mem_of_canonical member)
  obtain ⟨n, occurs, rfl⟩ := List.mem_map.1 inside
  have found : e.index.file? f = some s := Table.get?_of_mem entry
  exact fresh.located_of_terminal found
    (fresh.terminal_of_occurs found (List.mem_filter.1 occurs).1)

theorem Fresh.located_of_definitions {p : Path} {offset : Nat} {ls : List Location}
    (ok : e.definitions p offset = .ok ls) : ∀ l ∈ ls, e.Located l.spot := by
  obtain ⟨s, _, rest⟩ := ok_of_bind ok
  cases rest
  intro l member
  rw [Option.mem_toList, Option.map_eq_some_iff] at member
  obtain ⟨site, here, rfl⟩ := member
  obtain ⟨t, _, here⟩ := Option.bind_eq_some_iff.1 here
  obtain ⟨sym, live, here⟩ := Option.bind_eq_some_iff.1 here
  have file : sym.file? = some site.file := by
    rw [Symbol.file?, here]
    rfl
  obtain ⟨f, s', d, n, origin⟩ := fresh.origin live file
  have place := Option.some.inj (here.symm.trans origin.site)
  rw [place]
  exact fresh.located_of_terminal origin.found origin.terminal

theorem Fresh.located_of_references {p : Path} {offset : Nat} {ls : List Location}
    (ok : e.references p offset = .ok ls) : ∀ l ∈ ls, e.Located l.spot := by
  obtain ⟨s, _, rest⟩ := ok_of_bind ok
  split at rest
  · cases rest
    exact fun l member => (List.not_mem_nil member).elim
  · cases rest
    exact fun l member => fresh.located_of_occurrences member

theorem Fresh.located_of_hover {p : Path} {offset : Nat} {info : Option QuickInfo}
    (ok : e.hover p offset = .ok info) : ∀ i ∈ info, e.Located (p.components, i.span) := by
  obtain ⟨s, bound, rest⟩ := ok_of_bind ok
  have found := file?_of_boundFile bound
  split at rest
  · cases rest
    exact fun i member => by cases member
  · next n here =>
    cases rest
    intro i member
    obtain ⟨text, _, rfl⟩ := Option.map_eq_some_iff.1 member
    exact fresh.located_of_terminal found (fresh.terminal_of_occurs found (occurs_of_nodeAt? here))

theorem Fresh.located_of_rename {p : Path} {offset : Nat} {name : String}
    {edits : PathTable (List Edit)} (ok : e.rename p offset name = .ok edits) {q : Path}
    {es : List Edit} (entry : edits.get? q = some es) {edit : Edit} (member : edit ∈ es)
    (deletes : edit.kind = .delete) : e.Located (q.components, ⟨edit.start, edit.stop⟩) := by
  obtain ⟨s, _, rest⟩ := ok_of_bind ok
  split at rest
  · cases rest
    cases entry
  · next target _ =>
    split at rest
    · cases rest
      cases entry
    · split at rest
      · cases rest
      · obtain ⟨_, _, rest⟩ := ok_of_bind rest
        cases rest
        obtain ⟨l, listed, spelled, rfl⟩ := place_of_deletion name (e.occurrences target)
          (fun _ member => member) (fun _ _ none_ => by cases none_) q es entry edit member deletes
        obtain ⟨p', d, path, held, legible⟩ := fresh.located_of_occurrences listed
        have stop : l.span.start + l.span.length = l.span.stop :=
          Nat.add_sub_cancel' legible.ordered
        refine ⟨p', d, path.trans spelled, held, ?_⟩
        show Grammar.Legible d.text ⟨l.span.start, l.span.start + l.span.length⟩
        rw [stop]
        exact legible

theorem Fresh.located_of_diagnostics {p : Path} {ds : List Diagnostic}
    (ok : e.diagnostics p = .ok ds) {d : Diagnostic} (member : d ∈ ds) :
    ∃ doc, e.document? p = some doc ∧
      (Grammar.Legible doc.text d.span ∨ Grammar.Absent doc.text d.span) := by
  obtain ⟨s, bound, rfl⟩ := ok_of_map ok
  have found := file?_of_boundFile bound
  obtain ⟨settled, doc, held, read⟩ := fresh.settled found
  refine ⟨doc, held, ?_⟩
  rw [FileState.diagnostics, List.mem_mergeSort, List.mem_append] at member
  rcases member with error | undefined
  · obtain ⟨n, listed, here⟩ := List.mem_filterMap.1 error
    have listed' : n ∈ (Grammar.parse doc.text).errors := by
      rw [settled.marked.errors, read.parsed] at listed
      exact OrderedSet.mem_toList_ofList.1 listed
    split at here
    · cases here
      rw [read.parsed]
      exact Grammar.legible_or_absent_of_error doc.text listed'
    · cases here
  · obtain ⟨⟨n, c⟩, entry, rfl⟩ := List.mem_map.1 undefined
    have noted := Table.get?_of_mem (List.mem_filter.1 entry).1
    rw [settled.marked.refs] at noted
    split at noted
    · next terminal =>
      rw [read.parsed] at terminal ⊢
      exact .inl (Grammar.legible_of_terminal doc.text terminal)
    · cases noted

theorem Fresh.located_of_outline {p : Path} {symbols : List DocumentSymbol}
    (ok : e.documentSymbols p = .ok symbols) :
    ∀ s ∈ symbols, e.Located (p.components, s.span) := by
  obtain ⟨s, bound, rfl⟩ := ok_of_map ok
  have found := file?_of_boundFile bound
  intro symbol member
  rw [FileState.outline, List.mem_mergeSort] at member
  obtain ⟨⟨n, c⟩, entry, rfl⟩ := List.mem_map.1 member
  have occurs : n ∈ s.record.occurrences :=
    List.mem_append.2 (.inl (List.mem_map.2 ⟨(n, c), (List.mem_filter.1 entry).1, rfl⟩))
  exact fresh.located_of_terminal found (fresh.terminal_of_occurs found occurs)

theorem Fresh.located_of_classified {p : Path} {start stop : Nat} {spans : List ClassifiedSpan}
    (ok : e.classifyRange p start stop = .ok spans) :
    ∀ c ∈ spans, e.Located (p.components, c.span) := by
  obtain ⟨s, bound, rfl⟩ := ok_of_map ok
  have found := file?_of_boundFile bound
  obtain ⟨settled, doc, held, read⟩ := fresh.settled found
  intro c member
  rw [FileState.classified, List.mem_mergeSort, List.mem_filter, List.mem_append] at member
  rcases member.1 with tag | comment
  · obtain ⟨⟨n, k⟩, entry, rfl⟩ := List.mem_map.1 tag
    have noted := Table.get?_of_mem entry
    rw [settled.marked.tags] at noted
    split at noted
    · next terminal => exact fresh.located_of_terminal found terminal
    · cases noted
  · obtain ⟨⟨span, k⟩, entry, rfl⟩ := List.mem_map.1 comment
    rw [settled.marked.comments, read.parsed] at entry
    obtain ⟨c, listed, same⟩ := List.mem_map.1 entry
    cases same
    exact ⟨p, doc, rfl, held, Grammar.legible_of_comment doc.text listed⟩

/-- What an answer reports is legible in the text that its file holds, or a note of something
missing. -/
theorem Fresh.located_of_answer {q : Query} {answer : Answer} (ok : e.answer q = .ok answer)
    {spot : Spot} (member : spot ∈ answer.reported q.path.components) :
    ∃ p d, p.components = spot.1 ∧ e.document? p = some d ∧
      (Grammar.Legible d.text spot.2 ∨
        (∃ asked, q = .diagnostics asked) ∧ Grammar.Absent d.text spot.2) := by
  have plain : e.Located spot → ∃ p d, p.components = spot.1 ∧ e.document? p = some d ∧
      (Grammar.Legible d.text spot.2 ∨
        (∃ asked, q = .diagnostics asked) ∧ Grammar.Absent d.text spot.2) := by
    rintro ⟨p, d, path, held, legible⟩
    exact ⟨p, d, path, held, .inl legible⟩
  cases q with
  | definitions p offset =>
    obtain ⟨ls, found, rfl⟩ := ok_of_map ok
    obtain ⟨l, listed, rfl⟩ := List.mem_map.1 member
    exact plain (fresh.located_of_definitions found l listed)
  | references p offset =>
    obtain ⟨ls, found, rfl⟩ := ok_of_map ok
    obtain ⟨l, listed, rfl⟩ := List.mem_map.1 member
    exact plain (fresh.located_of_references found l listed)
  | highlights p offset =>
    obtain ⟨ls, found, rfl⟩ := ok_of_map ok
    obtain ⟨all, used, kept⟩ := ok_of_bind found
    cases kept
    obtain ⟨l, listed, rfl⟩ := List.mem_map.1 member
    exact plain (fresh.located_of_references used l (List.mem_filter.1 listed).1)
  | hover p offset =>
    obtain ⟨info, found, rfl⟩ := ok_of_map ok
    obtain ⟨i, listed, rfl⟩ := List.mem_map.1 member
    exact plain (fresh.located_of_hover found i (Option.mem_toList.1 listed))
  | completion p offset =>
    obtain ⟨names, _, rfl⟩ := ok_of_map ok
    cases member
  | rename p offset name =>
    obtain ⟨edits, found, rfl⟩ := ok_of_map ok
    obtain ⟨⟨k, es⟩, entry, inside⟩ := List.mem_flatMap.1 member
    obtain ⟨edit, listed, rfl⟩ := List.mem_map.1 inside
    obtain ⟨file, spelled, here⟩ := PathTable.get?_byComponents.1 (Table.get?_of_mem entry)
    obtain ⟨among, deletes⟩ := List.mem_filter.1 listed
    have located := fresh.located_of_rename found here among (beq_iff_eq.1 deletes)
    rw [spelled] at located
    exact plain located
  | diagnostics p =>
    obtain ⟨ds, found, rfl⟩ := ok_of_map ok
    obtain ⟨d, listed, rfl⟩ := List.mem_map.1 member
    obtain ⟨doc, held, either⟩ := fresh.located_of_diagnostics found listed
    exact ⟨p, doc, rfl, held, either.imp_right fun absent => ⟨⟨p, rfl⟩, absent⟩⟩
  | documentSymbols p =>
    obtain ⟨symbols, found, rfl⟩ := ok_of_map ok
    obtain ⟨s, listed, rfl⟩ := List.mem_map.1 member
    exact plain (fresh.located_of_outline found s listed)
  | classifyRange p start stop =>
    obtain ⟨spans, found, rfl⟩ := ok_of_map ok
    obtain ⟨c, listed, rfl⟩ := List.mem_map.1 member
    exact plain (fresh.located_of_classified found c listed)
  | nextDefinition p offset forward =>
    obtain ⟨start, _, rfl⟩ := ok_of_map ok
    cases member

end Fresh

end Engine

/-! ### Sessions -/

namespace Session

open Engine

/-- The index and the texts never drift apart. In every state that operations lead to, what the
index holds for a clean document was read from its text by the dialect of its path, and what is
indexed has a document. And with the index brought up to date, every range that an answer reports
lies in the text that its file holds now, and holds what the leaf or comment there says; only a
complaint may be about an empty range, where something is missing. -/
theorem reported_in_current_text :
    (∀ registry config operations,
      (∀ p d, (reach registry config operations).document? p = some d → d.dirty = false →
        ∃ s, (reach registry config operations).index.file? p = some s ∧
          registry.find? p = some s.dialect ∧ s.dialect.parse d.text = .ok s.parsed) ∧
      ∀ p s, (reach registry config operations).index.file? p = some s →
        ∃ d, (reach registry config operations).document? p = some d) ∧
    ∀ config operations e,
      ensureCompiled (reach Grammar.registry config operations) = (e, .ok ()) →
      ∀ q answer, e.answer q = .ok answer → ∀ spot ∈ answer.reported q.path.components,
        ∃ p d, p.components = spot.1 ∧ e.document? p = some d ∧
          (Grammar.Legible d.text spot.2 ∨
            (∃ asked, q = .diagnostics asked) ∧ Grammar.Absent d.text spot.2) := by
  constructor
  · intro registry config operations
    have coherent := coherent_reach registry config operations
    refine ⟨fun p d held clean => ?_, coherent.backed⟩
    obtain ⟨dialect, parsed, taken, parse, reading⟩ := coherent.read p d held clean
    obtain ⟨s, found, same⟩ := Option.map_eq_some_iff.1 reading
    cases same
    rw [registry_reach] at taken
    exact ⟨s, found, taken, parse⟩
  · intro config operations e success q answer ok spot member
    have fresh := fresh_of_ensureCompiled (consistent_after config operations) success
    exact fresh.located_of_answer ok member

theorem ensureCompiled_of_isOk {e : Engine} (good : (ensureCompiled e).2.isOk = true) :
    ensureCompiled e = ((ensureCompiled e).1, .ok ()) := by
  generalize ensureCompiled e = out at good
  obtain ⟨e', result⟩ := out
  cases result with
  | error err => cases good
  | ok _ => rfl

/-- Two grammars, one of which has a rule without an end. -/
def unfinished : List Operation :=
  [.openDocument (.of "a.g4") "r : ID // note", .compile, .openDocument (.of "b.g4") "ID : 'x' ;"]

theorem reported_in_current_text_unfinished :
    let e := (ensureCompiled (reach Grammar.registry {} unfinished)).1
    ensureCompiled (reach Grammar.registry {} unfinished) = (e, .ok ()) ∧
      (∃ p d, p.components = (Path.of "b.g4").components ∧ e.document? p = some d ∧
        Grammar.Legible d.text ⟨0, 2⟩) ∧
      ∃ p d, p.components = (Path.of "a.g4").components ∧ e.document? p = some d ∧
        (Grammar.Legible d.text ⟨14, 14⟩ ∨
          (∃ asked, Query.diagnostics (.of "a.g4") = .diagnostics asked) ∧
            Grammar.Absent d.text ⟨14, 14⟩) := by
  intro e
  have success := ensureCompiled_of_isOk
    (show (ensureCompiled (reach Grammar.registry {} unfinished)).2.isOk = true by decide +kernel)
  have current := reported_in_current_text.2 {} unfinished e success
  have answered : ∀ (q : Query) (spots : List Spot),
      (e.answer q).toOption.map (·.reported q.path.components) = some spots →
        ∃ answer, e.answer q = .ok answer ∧ answer.reported q.path.components = spots := by
    intro q spots told
    cases given : e.answer q with
    | error err =>
      rw [given] at told
      cases told
    | ok answer =>
      rw [given] at told
      exact ⟨answer, rfl, Option.some.inj told⟩
  obtain ⟨defined, given, spots⟩ := answered (.definitions (.of "a.g4") 4)
    [((Path.of "b.g4").components, ⟨0, 2⟩)] (by decide +kernel)
  obtain ⟨complaints, given', spots'⟩ := answered (.diagnostics (.of "a.g4"))
    [((Path.of "a.g4").components, ⟨14, 14⟩)] (by decide +kernel)
  refine ⟨success, ?_, current _ complaints given' (_, ⟨14, 14⟩) (by simp [spots'])⟩
  obtain ⟨p, d, path, held, legible | ⟨⟨asked, other⟩, _⟩⟩ :=
    current _ defined given ((Path.of "b.g4").components, ⟨0, 2⟩) (by simp [spots])
  · exact ⟨p, d, path, held, legible⟩
  · cases other

/-- A rule that is only a name. Its missing colon is complained about at the end of the text, and
the note that stands there is not part of the text. -/
theorem missing_not_in_text :
    let e := (ensureCompiled (reach Grammar.registry {} [.openDocument (.of "a.g4") "a"])).1
    ensureCompiled (reach Grammar.registry {} [.openDocument (.of "a.g4") "a"]) = (e, .ok ()) ∧
      (e.document? (.of "a.g4")).map (·.text) = some "a" ∧
      ∃ n, (e.answer (.diagnostics (.of "a.g4"))).toOption.map
          (·.reported (Path.of "a.g4").components) =
            some [((Path.of "a.g4").components, (Grammar.parse "a").tree.spanOf n)] ∧
        (Grammar.parse "a").tree.text? n = some "missing ':'" ∧
        Grammar.stretch "a" ((Grammar.parse "a").tree.spanOf n) ≠ "missing ':'".toList := by
  refine ⟨ensureCompiled_of_isOk (by decide +kernel), by decide +kernel, 3, ?_, ?_, ?_⟩ <;>
    decide +kernel

end Session

end GrammarIndex
