import GrammarIndex.Proofs.Session.History

/-!
An edit reaches the files that use the edited one.

A run binds every user of a file that it binds. A file is known as a user of each file that one of
its references was resolved into, so the users of a file are bound when it is edited. What is not
known are users that came about later, where a reference was resolved to an announcement and the
definition was found afterwards; and an editor that gives back an edit of the engine itself does not
start anything.
-/
namespace GrammarIndex

namespace Compile

/-- A run binds the users of each file that it binds. -/
theorem users_runRounds {base : ScopeStore} {x : Index} {first : List Path}
    (midway : Midway base x ∅ first) {p q : Path}
    (bound : (runRounds (x.files.size + 1) ⟨x, ∅⟩ first).bound.contains p = true)
    (uses : x.graph.Refers q p) (present : x.files.contains q = true) :
    (runRounds (x.files.size + 1) ⟨x, ∅⟩ first).bound.contains q = true := by
  -- The users of what is bound are bound or come next.
  obtain ⟨_, _, _, closed⟩ := runRounds_induction (Q := fun x' bound' round' =>
      x'.graph = x.graph ∧ (∀ q, x'.reading? q = x.reading? q) ∧
        ∀ p q, bound'.contains p = true → x.graph.Refers q p → x.files.contains q = true →
          bound'.contains q = true ∨ ∃ q' ∈ round', q.components = q'.components)
    (fun {x' bound' round'} midway' holds => by
      obtain ⟨graph, reading, users⟩ := holds
      have done := midway'.roundDone
      refine ⟨done.graph.trans graph, fun q => (done.reading q).trans (reading q), ?_⟩
      intro p q bound uses present
      rcases (PathSet.contains_addAll bound' round' p).1 bound with was | ⟨p', listed, spelled⟩
      · refine .inl ((PathSet.contains_addAll bound' round' q).2 ?_)
        exact users p q was uses present
      · cases absent : Table.contains (runRound ⟨x', bound'⟩ round').1.bound q with
        | true => exact .inl rfl
        | false =>
          have same := congrArg Option.isSome (reading q)
          simp only [Index.reading?, Option.isSome_map] at same
          obtain ⟨s, found⟩ := Option.isSome_iff_exists.1 ((done.contains q).trans (same.trans present))
          have uses' : (define (attach x' round').1 round').1.graph.Refers q p' := by
            rw [done.graph, graph]
            exact uses.congr rfl spelled
          exact .inr (mem_nextRound found absent (.inl ⟨p', listed, uses'⟩)))
    _ midway (waitingCount_lt_size x ∅) ⟨rfl, fun _ => rfl, fun _ _ none_ => by cases none_⟩
  exact (closed p q bound uses present).resolve_right (by simp)

end Compile

namespace Engine

/-- A run binds the dirty documents. -/
theorem rebound_of_dirty {e : Engine} (consistent : e.Consistent) {p : Path} {d : Document}
    (held : e.document? p = some d) (dirty : d.dirty = true) :
    e.rebound.bound.contains p = true := by
  obtain ⟨member, same⟩ := dirtyDocuments_of_dirty consistent held dirty
  obtain ⟨_, _, added⟩ := Compile.upToDate_bindAll (midway_read consistent)
  rw [PathSet.contains_congr _ same]
  exact added d.path (List.mem_map.2 ⟨d, member, rfl⟩)

/-- A run binds the users of the files that it binds. -/
theorem rebound_of_refers {e : Engine} (consistent : e.Consistent) {p q : Path}
    (bound : e.rebound.bound.contains p = true) (uses : e.index.graph.Refers q p)
    (present : e.index.files.contains q = true) : e.rebound.bound.contains q = true := by
  refine Compile.users_runRounds (midway_read consistent) bound uses ?_
  rcases get?_read consistent q with ⟨_, _, _, _, found⟩ | ⟨_, _, kept⟩
  · rw [Table.contains, found]
    rfl
  · rw [Table.contains, kept]
    exact present

/-- What is found at an offset of a file is what the file recorded there, and not a definition that
an announcement came to stand for. -/
def Direct (e : Engine) (p : Path) (offset : Nat) : Prop :=
  ∀ s, e.index.file? p = some s →
    e.targetAt? s offset = (s.nodeAt? offset).bind s.record.symbolAt?

instance (e : Engine) (p : Path) (offset : Nat) : Decidable (e.Direct p offset) :=
  decidable_of_iff
    ((e.index.file? p).all (fun s =>
      decide (e.targetAt? s offset = (s.nodeAt? offset).bind s.record.symbolAt?)) = true) <| by
    simp only [Direct, Option.all_eq_true, decide_eq_true_eq]

/-- A file whose reference leads into another file is known as its user. -/
theorem Fresh.refers_of_definitions {before e : Engine} (fresh : Fresh before e) {p : Path}
    {offset : Nat} (direct : e.Direct p offset) {ls : List Location}
    (answer : e.definitions p offset = .ok ls) {l : Location} (listed : l ∈ ls)
    (other : l.file.components ≠ p.components) :
    (∃ d, e.document? l.file = some d) ∧ e.index.files.contains p = true ∧
      e.index.graph.Refers p l.file := by
  cases found : e.index.file? p with
  | none =>
    simp only [Engine.definitions, boundFile, found, bind, Except.bind] at answer
    cases answer
  | some s =>
    have present : e.index.files.contains p = true := by
      rw [Table.contains, show e.index.files.get? p = some s from found]
      rfl
    simp only [Engine.definitions, boundFile, found, bind, Except.bind, pure, Except.pure,
      Except.ok.injEq] at answer
    rw [← answer, Option.mem_toList, Option.map_eq_some_iff] at listed
    obtain ⟨site, at_, rfl⟩ := listed
    obtain ⟨r, target, site_⟩ := Option.bind_eq_some_iff.1 at_
    obtain ⟨sym, live, site_⟩ := Option.bind_eq_some_iff.1 site_
    rw [direct s found] at target
    obtain ⟨n, _, noted⟩ := Option.bind_eq_some_iff.1 target
    obtain ⟨settled, _⟩ := fresh.settled found
    have file : sym.file? = some site.file := by
      rw [Symbol.file?, site_]
      rfl
    obtain ⟨s', found'⟩ := Option.isSome_iff_exists.1
      (fresh.consistent.filed r sym site.file live file)
    refine ⟨fresh.consistent.backed site.file s' found', present, ?_⟩
    rcases Option.or_eq_some_iff.1 noted with own | ⟨_, resolved⟩
    · -- A definition is one of the file's own.
      obtain ⟨_, _, q, sym', _, _, spelled, live', alike⟩ :=
        settled.attached.recorded.described n r own
      rw [live] at live'
      cases live'
      have own : sym.OwnedBy p := alike.ownedBy.1 (Symbol.ownedBy_iff.2 ⟨q, rfl, spelled⟩)
      obtain ⟨f, file', spelled'⟩ := Symbol.ownedBy_iff.1 own
      rw [file] at file'
      cases file'
      exact absurd spelled' other
    · have refers := settled.marked.resolved n r resolved
      rcases settled.resolved n refers with ⟨_, unnoted⟩ | ⟨id, r', _, noted', reaches⟩
      · rw [resolved] at unnoted
        cases unnoted
      · rw [resolved] at noted'
        cases noted'
        refine (reaches.known r (.inr rfl) site.file ?_).resolve_left (Ne.symm other)
        rw [live, Option.bind_some, file]

end Engine

namespace Session

open Engine

/-- In a session that was just bound: when a definition that a file found in another file is edited,
the next run binds both files, provided that the file recorded the definition itself and that the
edit is news to the engine. -/
theorem edit_reaches_user (config : Config) (history : List Request) {e : Engine}
    {paths : List Path} (done : compile (run config history) = (e, .ok paths))
    (handled : ∀ d ∈ e.documents, Grammar.dialect.handles d.path = true) {a b : Path} {offset : Nat}
    {ls : List Location} (answer : e.definitions b offset = .ok ls) {l : Location} (listed : l ∈ ls)
    (defined : l.file.components = a.components) (other : a.components ≠ b.components)
    (direct : e.Direct b offset) (text : String)
    (news : (e.notifyChange a text).2.needsRebind = true) :
    ∃ e' paths', compile (e.notifyChange a text).1 = (e', .ok paths') ∧
      (∃ p ∈ paths', a.components = p.components) ∧ ∃ p ∈ paths', b.components = p.components := by
  have fresh := fresh_of_compile (consistent_run config history) (compile_eq_ok.1 done)
  obtain ⟨⟨d, held⟩, present, uses⟩ :=
    fresh.refers_of_definitions direct answer listed (defined ▸ other)
  replace held : e.document? a = some d :=
    (Workspace.find?_congr e.workspace defined.symm).trans held
  have consistent := consistent_notifyChange fresh.consistent a text
  have view := document?_notifyChange fresh.consistent news a
  rw [if_pos rfl] at view
  have dirty := dirty_written e.workspace a text
  have kept : (e.notifyChange a text).1.index = e.index := rfl
  obtain ⟨e', paths', success⟩ := exists_compile consistent
    (handled_notifyChange fresh.consistent handled held text)
  have boundA := rebound_of_dirty consistent view dirty
  have boundB := rebound_of_refers consistent boundA (kept ▸ uses.congr rfl defined)
    (kept ▸ present)
  rcases cases_of_compile consistent success with ⟨none_, _⟩ | ⟨_, _, rfl⟩
  · exact absurd none_ (List.ne_nil_of_mem (dirtyDocuments_of_dirty consistent view dirty).1)
  · exact ⟨e', _, compile_eq_ok.2 success, PathSet.contains_iff_mem_toList.1 boundA,
      PathSet.contains_iff_mem_toList.1 boundB⟩

/-- A file and a user of it, which were bound. -/
def used : List Request :=
  [.didOpen (.of "a.g4") "ID : 'x' ;", .didOpen (.of "b.g4") "r : ID ;"]

/-- The definition is taken out of the file. -/
theorem edit_reaches_user_used : ∃ e paths e' paths',
    compile (run {} used) = (e, .ok paths) ∧
      e.definitions (.of "b.g4") 4 = .ok [⟨.of "a.g4", ⟨0, 2⟩⟩] ∧
      e.Direct (.of "b.g4") 4 ∧ (e.notifyChange (.of "a.g4") "").2.needsRebind = true ∧
      compile (e.notifyChange (.of "a.g4") "").1 = (e', .ok paths') ∧
      (∃ p ∈ paths', (Path.of "a.g4").components = p.components) ∧
      ∃ p ∈ paths', (Path.of "b.g4").components = p.components := by
  obtain ⟨paths, success⟩ := compile_of_isOk (e := run {} used) (by decide +kernel)
  have handled : ∀ d ∈ (run {} used).compile.1.documents,
      Grammar.dialect.handles d.path = true := by decide +kernel
  have found : ((run {} used).compile.1.definitions (.of "b.g4") 4).toOption =
      some [⟨.of "a.g4", ⟨0, 2⟩⟩] := by decide +kernel
  have direct : (run {} used).compile.1.Direct (.of "b.g4") 4 := by decide +kernel
  have news : ((run {} used).compile.1.notifyChange (.of "a.g4") "").2.needsRebind = true := by
    decide +kernel
  have answer : (run {} used).compile.1.definitions (.of "b.g4") 4 =
      .ok [⟨.of "a.g4", ⟨0, 2⟩⟩] := by
    cases answer : (run {} used).compile.1.definitions (.of "b.g4") 4 with
    | error reason => rw [answer] at found; cases found
    | ok ls => rw [answer] at found; cases found; rfl
  obtain ⟨e', paths', again, both⟩ := edit_reaches_user {} used (compile_eq_ok.2 success) handled
    answer (List.mem_singleton.2 rfl) (a := .of "a.g4") rfl (by decide +kernel) direct "" news
  exact ⟨_, paths, e', paths', compile_eq_ok.2 success, answer, direct, news, again, both⟩

/-- A use that was bound after the engine itself stored an edit of the definition. -/
def proposed : List Request :=
  used ++ [.applyProposal (Table.insert ∅ (.of "a.g4") "ID : 'y' ;")]

/-- A use of an announcement, and a definition that was found after it was bound. -/
def foundLater : List Request :=
  [.didOpen (.of "a.g4") "tokens { ID }", .didOpen (.of "b.g4") "r : ID ;", .compile,
    .didOpen (.of "c.g4") "ID : 'c' ;"]

/-- An edit of the engine that comes back from the editor binds nothing, and the user of an
announcement is not bound with the definition that it came to stand for. -/
theorem edit_unnoticed :
    (compile (run {} proposed)).2.isOk = true ∧ (compile (run {} foundLater)).2.isOk = true ∧
      ((compile (run {} proposed)).1.definitions (.of "b.g4") 4).toOption =
        some [⟨.of "a.g4", ⟨0, 2⟩⟩] ∧
      (compile
        ((compile (run {} proposed)).1.notifyChange (.of "a.g4") "ID : 'y' ;").1).2.toOption =
        some [] ∧
      ((compile (run {} foundLater)).1.definitions (.of "b.g4") 4).toOption =
        some [⟨.of "c.g4", ⟨0, 2⟩⟩] ∧
      (compile
        ((compile (run {} foundLater)).1.notifyChange (.of "c.g4") "ID : 'd' ;").1).2.toOption =
        some [.of "c.g4"] := by
  decide +kernel

end Session

end GrammarIndex
