import GrammarIndex.Proofs.Engine.Unambiguous
import GrammarIndex.Session

/-!
Answers do not depend on what a session went through.

Every request keeps the invariant of the engine, so a question finds an index that is up to date
with the documents. Where names are unambiguous, such an index answers like one that is built from
these documents in a session of its own.
-/
namespace GrammarIndex

namespace Session

open Engine

/-- What an editor asks of a session. -/
inductive Request where
  | didOpen (p : Path) (text : String)
  | didChange (p : Path) (text : String)
  | didClose (p : Path)
  | compile
  | applyProposal (proposal : Proposal)
  | query (q : Query)

/-- The engine after a request. -/
def serve (e : Engine) : Request → Engine
  | .didOpen p text => e.openDocument p text
  | .didChange p text => (e.notifyChange p text).1
  | .didClose p => (e.closeDocument p).1
  | .compile => (compile e).1
  | .applyProposal proposal => (applyProposal proposal e).1
  | .query q => (ask (·.answer q) e).1

/-- The engine of a session for grammar files, after requests. -/
def run (config : Config) (requests : List Request) : Engine :=
  requests.foldl serve (new Grammar.registry config)

/-! ### The invariant -/

theorem consistent_guarded {α : Type} (step : Engine → Engine × Except Halt α) {e : Engine}
    (kept : (step e).1.Consistent) : (guarded step e).1.Consistent := by
  unfold guarded
  split
  · next found => rw [found] at kept; exact kept
  · next found => rw [found] at kept; exact kept
  · next found => rw [found] at kept; exact consistent_reset kept

theorem consistent_ensureCompiled {e : Engine} (consistent : e.Consistent) :
    (ensureCompiled e).1.Consistent := by
  unfold ensureCompiled
  split
  · exact consistent_guarded Engine.compile (consistent_compile consistent)
  · exact consistent

theorem consistent_ask {α : Type} {question : Engine → Except Error α} {e : Engine}
    (consistent : e.Consistent) : (ask question e).1.Consistent := by
  have kept := consistent_ensureCompiled consistent
  unfold ask
  split
  · next found => rw [found] at kept; exact kept
  · next found => rw [found] at kept; exact kept

theorem consistent_serve {e : Engine} (consistent : e.Consistent) (request : Request) :
    (serve e request).Consistent := by
  cases request with
  | didOpen p text => exact consistent_openDocument consistent p text
  | didChange p text => exact consistent_notifyChange consistent p text
  | didClose p => exact consistent_closeDocument consistent p
  | compile => exact consistent_guarded Engine.compile (consistent_compile consistent)
  | applyProposal proposal =>
    exact consistent_guarded (·.applyProposal proposal)
      (consistent_applyProposal consistent proposal)
  | query q => exact consistent_ask consistent

/-- The invariant holds after any requests. -/
theorem consistent_run (config : Config) (requests : List Request) :
    (run config requests).Consistent := by
  have steps : ∀ {e : Engine}, e.Consistent → (requests.foldl serve e).Consistent := by
    induction requests with
    | nil => exact fun consistent => consistent
    | cons request requests ih => exact fun consistent => ih (consistent_serve consistent request)
  exact steps (consistent_new config)

/-! ### Questions -/

theorem compile_eq_ok {e e' : Engine} {paths : List Path} :
    compile e = (e', .ok paths) ↔ e.compile = (e', .ok paths) := by
  unfold compile guarded
  cases e.compile with
  | mk after result =>
    cases result with
    | ok paths' => simp
    | error halt => cases halt <;> simp

/-- With a dialect for every document, a run succeeds. -/
theorem exists_compile {e : Engine} (consistent : e.Consistent)
    (handled : ∀ d ∈ e.documents, Grammar.dialect.handles d.path = true) :
    ∃ e' paths, e.compile = (e', .ok paths) := by
  refine compile_ok consistent fun p d held => ?_
  rw [← Grammar.dialect.handles_congr (Workspace.path_of_find? consistent.tidy held)]
  exact handled d (Workspace.mem_documents_of_find? consistent.tidy held)

/-- A question finds the index up to date, unless it cannot be brought up to date. -/
theorem fresh_of_ensureCompiled {e after : Engine} (consistent : e.Consistent)
    (success : ensureCompiled e = (after, .ok ())) : Fresh e after := by
  unfold ensureCompiled at success
  split at success
  · cases run : Session.compile e with
    | mk e' result =>
      rw [run] at success
      cases result with
      | error err => cases success
      | ok paths =>
        cases success
        exact fresh_of_compile consistent (compile_eq_ok.1 run)
  · next current =>
    cases success
    exact fresh_of_current consistent (Bool.eq_false_iff.2 current)

/-- With a dialect for every document, a question finds the index up to date. -/
theorem ensureCompiled_ok {e : Engine} (consistent : e.Consistent)
    (handled : ∀ d ∈ e.documents, Grammar.dialect.handles d.path = true) :
    ∃ after, ensureCompiled e = (after, .ok ()) ∧ Fresh e after := by
  have ready : ∃ after, ensureCompiled e = (after, .ok ()) := by
    unfold ensureCompiled
    split
    · obtain ⟨after, paths, success⟩ := exists_compile consistent handled
      exact ⟨after, by rw [compile_eq_ok.2 success]; rfl⟩
    · exact ⟨e, rfl⟩
  obtain ⟨after, success⟩ := ready
  exact ⟨after, success, fresh_of_ensureCompiled consistent success⟩

/-- What is up to date needs nothing done to it. -/
theorem ensureCompiled_of_fresh {before e : Engine} (fresh : Fresh before e) :
    ensureCompiled e = (e, .ok ()) := by
  have current : e.needsCompile = false := by
    rw [needsCompile, vanished_eq_nil fresh.consistent.backed, Bool.or_eq_false_iff]
    refine ⟨List.any_eq_false.2 fun d member => ?_, rfl⟩
    have held := (Workspace.mem_documents_iff fresh.consistent.tidy).1 member
    simp [fresh.clean d.path d held]
  rw [ensureCompiled, current]
  rfl

/-- A change of a document leaves every document with its dialect. -/
theorem handled_notifyChange {e : Engine} (consistent : e.Consistent)
    (handled : ∀ d ∈ e.documents, Grammar.dialect.handles d.path = true) {p : Path} {d₀ : Document}
    (held₀ : e.document? p = some d₀) (text : String) :
    ∀ d ∈ (e.notifyChange p text).1.documents, Grammar.dialect.handles d.path = true := by
  have consistent' := consistent_notifyChange consistent p text
  intro d member
  have held := (Workspace.mem_documents_iff consistent'.tidy).1 member
  obtain ⟨d', held'⟩ : ∃ d', e.document? d.path = some d' := by
    cases rebind : (e.notifyChange p text).2.needsRebind with
    | false =>
      rw [workspace_notifyChange, rebind] at held
      exact ⟨d, held⟩
    | true =>
      have view := document?_notifyChange consistent rebind d.path
      rw [show (e.notifyChange p text).1.document? d.path = some d from held] at view
      split at view
      · next same => exact ⟨d₀, (Workspace.find?_congr e.workspace same).trans held₀⟩
      · exact ⟨d, view.symm⟩
  rw [← Grammar.dialect.handles_congr (Workspace.path_of_find? consistent.tidy held')]
  exact handled d' (Workspace.mem_documents_of_find? consistent.tidy held')

theorem text_openDocument {e : Engine} (consistent : e.Consistent) (p : Path) (text : String)
    (q : Path) : ((e.openDocument p text).document? q).map (·.text) =
      if q.components = p.components then some text else (e.document? q).map (·.text) := by
  have view : (e.openDocument p text).document? q =
      if q.components = p.components then some (e.workspace.written p text) else e.document? q :=
    Workspace.find?_write consistent.tidy p text q
  rw [view]
  split
  · rw [Option.map_some, Workspace.written]
    split <;> rfl
  · rfl

/-- Documents that are opened one after the other: every path is there, with a text that was opened
under it, and nothing else. -/
theorem texts_opened {e : Engine} (consistent : e.Consistent) (opened : List (Path × String)) :
    (∀ q text, (((opened.map fun o => Request.didOpen o.1 o.2).foldl serve e).document? q).map
        (·.text) = some text →
      (e.document? q).map (·.text) = some text ∨
        ∃ o ∈ opened, o.1.components = q.components ∧ o.2 = text) ∧
    ∀ q, ((e.document? q).isSome = true ∨ ∃ o ∈ opened, o.1.components = q.components) →
      (((opened.map fun o => Request.didOpen o.1 o.2).foldl serve e).document? q).isSome = true := by
  induction opened generalizing e with
  | nil => simp
  | cons o opened ih =>
    have view := text_openDocument consistent o.1 o.2
    obtain ⟨back, stay⟩ := ih (consistent_openDocument consistent o.1 o.2)
    constructor
    · intro q text found
      rcases back q text found with before | ⟨o', member, same⟩
      · rw [view] at before
        split at before
        · next same =>
          exact .inr ⟨o, by simp, same.symm, Option.some.inj before⟩
        · exact .inl before
      · exact .inr ⟨o', by simp [member], same⟩
    · intro q either
      apply stay q
      have here : ((e.openDocument o.1 o.2).document? q).isSome = true ↔
          q.components = o.1.components ∨ (e.document? q).isSome = true := by
        rw [← Option.isSome_map, view]
        split <;> simp_all
      rw [here]
      rcases either with before | ⟨o', member, same⟩
      · exact .inl (.inr before)
      · rcases List.mem_cons.1 member with rfl | member
        · exact .inl (.inl same.symm)
        · exact .inr ⟨o', member, same⟩

/-- A session into which the documents of another are opened holds the same documents. -/
theorem contents_opened {e : Engine} (consistent : e.Consistent) (config : Config)
    {opened : List (Path × String)}
    (listed : ∀ c, c ∈ e.contents ↔ c ∈ opened.map fun o => (o.1.components, o.2)) :
    ∀ c, c ∈ e.contents ↔ c ∈ (run config (opened.map fun o => .didOpen o.1 o.2)).contents := by
  obtain ⟨back, stay⟩ := texts_opened (consistent_new config) opened
  have tidy := (consistent_run config (opened.map fun o => .didOpen o.1 o.2)).tidy
  have only : ∀ c, c ∈ (run config (opened.map fun o => .didOpen o.1 o.2)).contents →
      c ∈ e.contents := by
    intro c member
    obtain ⟨d, _, rfl⟩ := List.mem_map.1 member
    rcases back d.path d.text ((mem_contents_iff tidy).1 member) with none_ | ⟨o, inside, path, text⟩
    · cases none_
    · exact (listed _).2 (List.mem_map.2 ⟨o, inside, by rw [path, text]⟩)
  refine fun c => ⟨fun member => ?_, only c⟩
  obtain ⟨o, inside, rfl⟩ := List.mem_map.1 ((listed c).1 member)
  obtain ⟨d, held⟩ := Option.isSome_iff_exists.1 (stay o.1 (.inr ⟨o, inside, rfl⟩))
  -- Both texts stand for one document of the first session.
  have there : (o.1.components, d.text) ∈
      (run config (opened.map fun o => .didOpen o.1 o.2)).contents :=
    (mem_contents_iff tidy).2 (congrArg (Option.map Document.text) held)
  have one := (mem_contents_iff consistent.tidy).1 (only _ there)
  rw [(mem_contents_iff consistent.tidy).1 member] at one
  rw [Option.some.inj one]
  exact there

/-- Whatever a session went through, its answers are those of a session into which only its present
documents were opened, provided that every document is a grammar file and that no directory has two
definitions of one name. -/
theorem answers_independent_of_history (config config' : Config) (history : List Request)
    (opened : List (Path × String))
    (listed : ∀ c, c ∈ (run config history).contents ↔
      c ∈ opened.map fun o => (o.1.components, o.2))
    (handled : ∀ d ∈ (run config history).documents, Grammar.dialect.handles d.path = true)
    (unambiguous : (run config history).Unambiguous) (q : Query) :
    (ask (·.answer q) (run config history)).2 =
      (ask (·.answer q) (run config' (opened.map fun o => .didOpen o.1 o.2))).2 := by
  have consistent := consistent_run config history
  have consistent' := consistent_run config' (opened.map fun o => .didOpen o.1 o.2)
  have contents := contents_opened consistent config' listed
  generalize run config history = e at *
  generalize run config' (opened.map fun o => .didOpen o.1 o.2) = e' at *
  have handled' : ∀ d ∈ e'.documents, Grammar.dialect.handles d.path = true := by
    intro d' member
    obtain ⟨d, held, path, _⟩ := exists_document (fun c => (contents c).2) member
    rw [← Grammar.dialect.handles_congr path]
    exact handled d held
  obtain ⟨after, done, fresh⟩ := ensureCompiled_ok consistent handled
  obtain ⟨after', done', fresh'⟩ := ensureCompiled_ok consistent' handled'
  have kept := contents_fresh consistent fresh
  have agree : Agree after after' := by
    refine agree_of_fresh fresh fresh' (unambiguous.of_contents fun c => (kept c).1) fun c => ?_
    rw [kept, contents, contents_fresh consistent' fresh']
  simp only [ask, done, done']
  exact agree.answer q

/-- A file with two definitions of a name was asked about and closed, and another took its place. -/
def reopened : List Request :=
  [.didOpen (.of "a.g4") "y : x ; y : y ;", .query (.diagnostics (.of "a.g4")),
    .didClose (.of "a.g4"), .didOpen (.of "b.g4") "x : y ; y : x ;"]

theorem answers_independent_of_history_reopened :
    (∀ d ∈ (run {} reopened).documents, Grammar.dialect.handles d.path = true) ∧
      (run {} reopened).Unambiguous ∧
      (ask (·.answer (.references (.of "b.g4") 4)) (run {} reopened)).2.isOk = true ∧
      (ask (·.answer (.references (.of "b.g4") 4)) (run {} reopened)).2 =
        (ask (·.answer (.references (.of "b.g4") 4))
          (run {} [.didOpen (.of "b.g4/") "x : y ; y : x ;"])).2 := by
  have handled : ∀ d ∈ (run {} reopened).documents, Grammar.dialect.handles d.path = true := by
    decide +kernel
  have unambiguous : (run {} reopened).Unambiguous := by decide +kernel
  have contents : (run {} reopened).contents =
      [((Path.of "b.g4/").components, "x : y ; y : x ;")] := by decide +kernel
  refine ⟨handled, unambiguous, by decide +kernel, ?_⟩
  exact answers_independent_of_history {} {} reopened [(.of "b.g4/", "x : y ; y : x ;")]
    (fun c => by rw [contents]; rfl) handled unambiguous _

end Session

end GrammarIndex
