import GrammarIndex.Proofs.Engine.Stirred
import GrammarIndex.Proofs.Session.History

/-!
Changes that change nothing.

A change to the text that a document already has makes the next run bind the document again, and
with it the files that use it or wait for its names. Only names that one of these files defines can
move. Where each of them belongs to the document that leads for it, all end where they were. Where
one is announced in one file and defined in another, or was taken by a file that does not lead for
it, the files come in another order than when the name was taken, and a change of nothing moves it.
-/
namespace GrammarIndex

namespace Engine

/-- A change to the present text leaves the documents with their texts. -/
theorem contents_notifyChange {e : Engine} (consistent : e.Consistent) {p : Path} {d : Document}
    (held : e.document? p = some d) :
    ∀ c, c ∈ (e.notifyChange p d.text).1.contents ↔ c ∈ e.contents := by
  refine contents_of_texts consistent.tidy (consistent_notifyChange consistent p d.text).tidy ?_
  intro q
  cases rebind : (e.notifyChange p d.text).2.needsRebind with
  | false =>
    rw [document?, workspace_notifyChange, rebind]
    rfl
  | true =>
    rw [document?_notifyChange consistent rebind]
    split
    · next same =>
      rw [show e.document? q = some d from (Workspace.find?_congr e.workspace same).trans held,
        Workspace.written, show e.workspace.find? p = some d from held]
      rfl
    · rfl

end Engine

namespace Session

open Engine

/-- In a session that was just bound: a change to the text that a document has, and another run,
leave every answer as it was, provided that each name that a file of this run defines belongs to the
document that leads for it. -/
theorem answers_after_same_text (config : Config) (history : List Request) {e : Engine}
    {paths : List Path} (done : compile (run config history) = (e, .ok paths))
    (handled : ∀ d ∈ e.documents, Grammar.dialect.handles d.path = true)
    {p : Path} {d : Document} (held : e.document? p = some d)
    (orderly : ∀ dir x, (e.notifyChange p d.text).1.Stirs dir x → e.Orderly dir x) :
    ∃ e' paths', compile (e.notifyChange p d.text).1 = (e', .ok paths') ∧
      ∀ q, (ask (·.answer q) e').2 = (ask (·.answer q) e).2 := by
  have fresh := fresh_of_compile (consistent_run config history) (compile_eq_ok.1 done)
  have consistent := consistent_notifyChange fresh.consistent p d.text
  have same := contents_notifyChange fresh.consistent held
  obtain ⟨e', paths', success⟩ := exists_compile consistent
    (handled_notifyChange fresh.consistent handled held d.text)
  have fresh' := fresh_of_compile consistent success
  have agree : Agree e e' := agree_of_unstirred fresh consistent rfl same success orderly
  refine ⟨e', paths', compile_eq_ok.2 success, fun q => ?_⟩
  simp only [ask, ensureCompiled_of_fresh fresh, ensureCompiled_of_fresh fresh']
  exact (agree.answer q).symm

/-- Two files that use each other, with a name that both define, and beside them an announcement
with its definition in another file. -/
def entwined : List Request :=
  [.didOpen (.of "b.g4") "x : y ;\ny : 'b' ;", .compile, .didOpen (.of "c.g4") "y : x ;",
    .didOpen (.of "a.g4") "tokens { ID }", .didOpen (.of "d.g4") "ID : 'd' ;"]

/-- The index is not orderly for the announced name, but no file of the run defines it. -/
theorem answers_after_same_text_entwined : ∃ e paths e' paths',
    compile (run {} entwined) = (e, .ok paths) ∧ ¬ e.Orderly (.of "") "ID" ∧
      (ask (·.answer (.references (.of "c.g4") 4)) e).2.isOk = true ∧
      compile (e.notifyChange (.of "b.g4") "x : y ;\ny : 'b' ;").1 = (e', .ok paths') ∧
      (ask (·.answer (.references (.of "c.g4") 4)) e').2 =
        (ask (·.answer (.references (.of "c.g4") 4)) e).2 := by
  obtain ⟨paths, success⟩ := compile_of_isOk (e := run {} entwined) (by decide +kernel)
  have handled : ∀ d ∈ (run {} entwined).compile.1.documents,
      Grammar.dialect.handles d.path = true := by decide +kernel
  have held : (run {} entwined).compile.1.document? (.of "b.g4") =
      some ⟨.of "b.g4", "x : y ;\ny : 'b' ;", false⟩ := by decide +kernel
  have orderly : ∀ dir x, ((run {} entwined).compile.1.notifyChange (.of "b.g4")
      "x : y ;\ny : 'b' ;").1.Stirs dir x → (run {} entwined).compile.1.Orderly dir x := by
    have defined : ∀ d ∈ ((run {} entwined).compile.1.notifyChange (.of "b.g4")
        "x : y ;\ny : 'b' ;").1.documents, (∃ r ∈ ((run {} entwined).compile.1.notifyChange
          (.of "b.g4") "x : y ;\ny : 'b' ;").1.rounds, Compile.Binds r d.path) →
        ∀ n ∈ Grammar.definers d.text, (run {} entwined).compile.1.Orderly d.path.directory
          ((Grammar.parse d.text).tree.textOf n) := by decide +kernel
    rintro dir x ⟨r, done, d, member, here, definers, binds⟩
    obtain ⟨n, definer⟩ := List.exists_mem_of_ne_nil _ definers
    obtain ⟨listed, name⟩ := Grammar.mem_definers_of_definersOf definer
    exact name ▸ (defined d member ⟨r, done, binds⟩ n listed).congr here
  obtain ⟨e', paths', again, same⟩ :=
    answers_after_same_text {} entwined (compile_eq_ok.2 success) handled held orderly
  exact ⟨_, paths, e', paths', compile_eq_ok.2 success, by decide +kernel, by decide +kernel, again,
    same _⟩

/-- An announcement with a use, and its definition in another file. -/
def announcedBeside : List Request :=
  [.didOpen (.of "a.g4") "tokens { ID }\nr : ID ;", .didOpen (.of "b.g4") "ID : 'x' ;"]

/-- The definition of an announced name is found at a use of it, and no longer once its file was
bound again. -/
theorem answer_moved_by_same_text :
    (compile (run {} announcedBeside)).2.toOption = some [.of "a.g4", .of "b.g4"] ∧
      ((compile (run {} announcedBeside)).1.document? (.of "b.g4")).map (·.text) =
        some "ID : 'x' ;" ∧
      (ask (·.definitions (.of "a.g4") 18) (compile (run {} announcedBeside)).1).2.toOption =
        some [⟨.of "b.g4", ⟨0, 2⟩⟩] ∧
      (ask (·.definitions (.of "a.g4") 18) (compile
        ((compile (run {} announcedBeside)).1.notifyChange (.of "b.g4") "ID : 'x' ;").1).1).2.toOption =
        some [⟨.of "a.g4", ⟨9, 11⟩⟩] := by
  decide +kernel

end Session

end GrammarIndex
