import GrammarIndex.Proofs.Engine.Reachable
import GrammarIndex.Proofs.Engine.Undo

/-!
What holds of every state, whatever the dialects are.

Three things are kept by all operations. A clean document has been read: the index holds what the
dialect of its path makes of its text. An indexed path has a document. And a marker waits for the
text that is stored for its path. So an operation that fails can be told to have changed nothing,
and a notification that is taken for an echo to have brought nothing new.
-/
namespace GrammarIndex

/-! ### What was read stays -/

namespace Compile

theorem reading?_attachOne (acc : Index × ScopedNames) (p q : Path) :
    (attachOne acc p).1.reading? q = acc.1.reading? q := by
  unfold attachOne
  split
  · rfl
  · next s found =>
    exact Index.reading?_insert acc.1
      { s with scope := (Binding.initScope acc.1.scopes p).2.1, record := {} } found rfl _ _ q

theorem reading?_defineOne (acc : Index × ScopedNames) (p q : Path) :
    (defineOne acc p).1.reading? q = acc.1.reading? q := by
  unfold defineOne
  split
  · rfl
  · next s found =>
    exact Index.reading?_insert acc.1 { s with
      record := (Binding.bindDefinitions acc.1.scopes s.dialect s.parsed p s.scope s.record).2 }
      found rfl _ _ q

/-- What is kept for one file is kept for all of them. -/
theorem reading?_foldl {step : Index × ScopedNames → Path → Index × ScopedNames} {q : Path}
    (kept : ∀ acc p, (step acc p).1.reading? q = acc.1.reading? q) (round : List Path)
    (acc : Index × ScopedNames) : (round.foldl step acc).1.reading? q = acc.1.reading? q := by
  induction round generalizing acc with
  | nil => rfl
  | cons p round ih => exact (ih (step acc p)).trans (kept acc p)

theorem reading?_runRound (p : Progress) (round : List Path) (q : Path) :
    (runRound p round).1.index.reading? q = p.index.reading? q := by
  show (define (attach p.index round).1 round).1.reading? q = _
  rw [define_eq, attach_eq]
  exact (reading?_foldl (fun acc p => reading?_defineOne acc p q) round _).trans
    (reading?_foldl (fun acc p => reading?_attachOne acc p q) round _)

theorem reading?_runRounds (limit : Nat) (p : Progress) (round : List Path) (q : Path) :
    (runRounds limit p round).index.reading? q = p.index.reading? q := by
  induction limit generalizing p round with
  | zero => rfl
  | succ limit ih =>
    rw [runRounds]
    split
    · rfl
    · exact (ih _ _).trans (reading?_runRound p round q)

theorem reading?_resolveAll (x : Index) (todo : List Path) (q : Path) :
    (resolveAll x todo).reading? q = x.reading? q := by
  induction todo generalizing x with
  | nil => rfl
  | cons p todo ih =>
    rw [resolveAll_cons, ih]
    split
    · rfl
    · next s found => exact Index.reading?_insert x (resolvedState x p s) found rfl _ _ q

/-- Binding changes nothing of what was read. -/
theorem reading?_bindAll (x : Index) (dirty : List Path) (q : Path) :
    (bindAll x dirty).index.reading? q = x.reading? q :=
  (reading?_resolveAll _ _ q).trans (reading?_runRounds _ _ _ q)

/-! ### Reading documents -/

/-- What is there for a path after documents were read. -/
theorem reading?_readAll {known : List (Document × Dialect)} {x x' : Index}
    (distinct : known.Pairwise fun k k' => k.1.path.components ≠ k'.1.path.components)
    (success : readAll x known = .ok x') (p : Path) :
    (∀ k ∈ known, p.components = k.1.path.components →
        ∃ parsed, k.2.parse k.1.text = .ok parsed ∧ x'.reading? p = some (k.2, parsed)) ∧
      ((∀ k ∈ known, p.components ≠ k.1.path.components) → x'.reading? p = x.reading? p) := by
  induction known generalizing x with
  | nil =>
    cases success
    simp
  | cons k known ih =>
    obtain ⟨apart, distinctRest⟩ := List.pairwise_cons.1 distinct
    obtain ⟨d, dialect⟩ := k
    rw [readAll, List.foldlM_cons] at success
    cases parse : dialect.parse d.text with
    | error message => simp [parse, bind, Except.bind] at success
    | ok parsed =>
      simp only [parse, bind, Except.bind] at success
      obtain ⟨hit, miss⟩ := ih distinctRest success
      constructor
      · intro k' member same
        rcases List.mem_cons.1 member with rfl | member
        · refine ⟨parsed, parse, ?_⟩
          rw [miss fun k'' member' same' => apart k'' member' (same.symm.trans same'),
            Index.reading?, PathTable.get?_insert, if_pos same]
          rfl
        · exact hit k' member same
      · intro away
        rw [miss fun k' member => away k' (by simp [member]), Index.reading?, Index.reading?,
          PathTable.get?_insert, if_neg (away (d, dialect) (by simp))]

end Compile

theorem Index.get?_forget (x : Index) (p q : Path) :
    (x.forget p).1.files.get? q = if q.components = p.components then none else x.files.get? q := by
  unfold forget
  split
  · next absent =>
    split
    · next same => rw [PathTable.get?_congr x.files same, absent]
    · rfl
  · exact PathTable.get?_erase x.files p q

/-- The index holds what the dialect of a path reads from a text. -/
def Index.Reads (registry : Registry) (x : Index) (p : Path) (text : String) : Prop :=
  ∃ dialect parsed, registry.find? p = some dialect ∧ dialect.parse text = .ok parsed ∧
    x.reading? p = some (dialect, parsed)

/-! ### The invariant -/

namespace Workspace

theorem text_written (w : Workspace) (p : Path) (text : String) :
    (w.written p text).text = text := by
  unfold written
  split <;> rfl

/-- Marks say nothing about texts. -/
theorem text_setDirty {w : Workspace} (tidy : w.Tidy) (dirty : Bool) (paths : List Path)
    (q : Path) : ((w.setDirty dirty paths).find? q).map (·.text) = (w.find? q).map (·.text) := by
  rw [find?_setDirty tidy]
  split
  · rw [Option.map_map]
    rfl
  · rfl

end Workspace

namespace Engine

/-- Documents, markers and what was read fit together. -/
structure Coherent (e : Engine) : Prop where
  tidy : e.workspace.Tidy
  filled : e.workspace.Filled
  backed : ∀ p s, e.index.files.get? p = some s → ∃ d, e.document? p = some d
  read : ∀ p d, e.document? p = some d → d.dirty = false →
    e.index.Reads e.registry p d.text
  awaited : ∀ p text, e.echoes.get? p = some text → (e.document? p).map (·.text) = some text

theorem coherent_new (registry : Registry) (config : Config) : (new registry config).Coherent where
  tidy := Workspace.tidy_empty
  filled _ _ found := by cases found
  backed _ _ found := by cases found
  read _ _ found := by cases found
  awaited _ _ found := by cases found

/-- With the same index, only the documents and the markers matter. -/
theorem Coherent.of_documents {e e' : Engine} (coherent : e.Coherent)
    (registry : e'.registry = e.registry) (index : e'.index = e.index)
    (tidy : e'.workspace.Tidy) (filled : e'.workspace.Filled)
    (kept : ∀ p d', e'.document? p = some d' → d'.dirty = false → e.document? p = some d')
    (stay : ∀ p d, e.document? p = some d → ∃ d', e'.document? p = some d')
    (awaited : ∀ p text, e'.echoes.get? p = some text →
      (e'.document? p).map (·.text) = some text) : e'.Coherent where
  tidy := tidy
  filled := filled
  backed p s found := by
    rw [index] at found
    obtain ⟨d, held⟩ := coherent.backed p s found
    exact stay p d held
  read p d held clean := by
    rw [registry, index]
    exact coherent.read p d (kept p d held clean) clean
  awaited := awaited

/-- Writing a text, where a marker of the path waits for this text if there is one. -/
theorem coherent_write {e : Engine} (coherent : e.Coherent) (p : Path) (text : String)
    {echoes : EchoTable}
    (here : ∀ q t, echoes.get? q = some t → q.components = p.components → t = text)
    (others : ∀ q, q.components ≠ p.components → echoes.get? q = e.echoes.get? q) :
    ({ e with echoes, workspace := e.workspace.write p text } : Engine).Coherent := by
  have view : ∀ q, ({ e with echoes, workspace := e.workspace.write p text } : Engine).document? q =
      if q.components = p.components then some (e.workspace.written p text) else e.document? q :=
    Workspace.find?_write coherent.tidy p text
  refine coherent.of_documents rfl rfl (Workspace.tidy_write coherent.tidy p text)
    (Workspace.filled_write coherent.tidy coherent.filled p text) ?_ ?_ ?_
  · intro q d found clean
    rw [view] at found
    split at found
    · cases found
      rw [dirty_written] at clean
      cases clean
    · exact found
  · intro q d found
    rw [view]
    split
    · exact ⟨_, rfl⟩
    · exact ⟨d, found⟩
  · intro q t marked
    rw [view]
    split
    · next same => rw [here q t marked same, Option.map_some, Workspace.text_written]
    · next other => exact coherent.awaited q t ((others q other).symm.trans marked)

theorem get?_disarm (t : EchoTable) (p q : Path) :
    (t.disarm p).get? q = if q.components = p.components then none else t.get? q :=
  PathTable.get?_erase t p q

theorem coherent_openDocument {e : Engine} (coherent : e.Coherent) (p : Path) (text : String) :
    (e.openDocument p text).Coherent := by
  refine coherent_write coherent p text ?_ ?_
  · intro q t marked same
    rw [get?_disarm, if_pos same] at marked
    cases marked
  · intro q other
    rw [get?_disarm, if_neg other]

theorem coherent_storeText {e : Engine} (coherent : e.Coherent) (p : Path) (text : String) :
    (e.storeText p text).Coherent := by
  refine coherent_write coherent p text ?_ ?_
  · intro q t marked same
    rw [EchoTable.arm, PathTable.get?_insert, if_pos same] at marked
    exact (Option.some.inj marked).symm
  · intro q other
    rw [EchoTable.arm, PathTable.get?_insert, if_neg other]

theorem coherent_storeTexts {e : Engine} (coherent : e.Coherent) (texts : List (Path × String)) :
    (texts.foldl (fun e r => e.storeText r.1 r.2) e).Coherent := by
  induction texts generalizing e with
  | nil => exact coherent
  | cons r texts ih => exact ih (coherent_storeText coherent r.1 r.2)

/-- A notification uses up the marker. The text that it waited for is not written again. -/
theorem notifyChange_eq (e : Engine) (p : Path) (text : String) :
    e.notifyChange p text =
      if e.echoes.get? p = some text then ({ e with echoes := e.echoes.disarm p }, .suppressed)
      else (e.openDocument p text, if e.echoes.get? p = none then .fresh else .mismatched) := by
  unfold notifyChange EchoTable.notify
  cases marker : e.echoes.get? p with
  | none => rfl
  | some expected =>
    by_cases same : text = expected
    · subst same
      simp [Notification.needsRebind]
    · simp [same, Ne.symm same, Notification.needsRebind, openDocument]

theorem coherent_notifyChange {e : Engine} (coherent : e.Coherent) (p : Path) (text : String) :
    (e.notifyChange p text).1.Coherent := by
  rw [notifyChange_eq]
  split
  · refine coherent.of_documents rfl rfl coherent.tidy coherent.filled (fun _ _ held _ => held)
      (fun _ d held => ⟨d, held⟩) fun q t marked => ?_
    rw [get?_disarm] at marked
    split at marked
    · cases marked
    · exact coherent.awaited q t marked
  · exact coherent_openDocument coherent p text

theorem coherent_closeDocument {e : Engine} (coherent : e.Coherent) (p : Path) :
    (e.closeDocument p).1.Coherent := by
  have removed := Workspace.tidy_remove coherent.tidy p
  have files := Index.get?_forget e.index p
  unfold closeDocument
  generalize e.index.forget p = out at files
  obtain ⟨x, affected⟩ := out
  simp only at files ⊢
  have text : ∀ q, q.components ≠ p.components →
      (((e.workspace.remove p).setDirty true affected.toList).find? q).map (·.text) =
        (e.document? q).map (·.text) := by
    intro q other
    rw [Workspace.text_setDirty removed, Workspace.find?_remove coherent.tidy, if_neg other]
    rfl
  refine ⟨Workspace.tidy_setDirty removed true _,
    Workspace.filled_setDirty removed (Workspace.filled_remove coherent.tidy p) true _, ?_, ?_, ?_⟩
  · intro q s found
    rw [files] at found
    split at found
    · cases found
    · next other =>
      obtain ⟨d, held⟩ := coherent.backed q s found
      have same := text q other
      rw [held] at same
      obtain ⟨d', held', _⟩ := Option.map_eq_some_iff.1 same
      exact ⟨d', held'⟩
  · intro q d held clean
    have held' : ((e.workspace.remove p).setDirty true affected.toList).find? q = some d := held
    rw [Workspace.find?_setDirty removed] at held'
    split at held'
    · obtain ⟨d₀, _, rfl⟩ := Option.map_eq_some_iff.1 held'
      cases clean
    · rw [Workspace.find?_remove coherent.tidy] at held'
      split at held'
      · cases held'
      · next other =>
        obtain ⟨dialect, parsed, taken, parse, reading⟩ := coherent.read q d held' clean
        refine ⟨dialect, parsed, taken, parse, ?_⟩
        rw [Index.reading?, files, if_neg other]
        exact reading
  · intro q t marked
    rw [get?_disarm] at marked
    split at marked
    · cases marked
    · next other => exact (text q other).trans (coherent.awaited q t marked)

theorem coherent_reset {e : Engine} (coherent : e.Coherent) : e.reset.Coherent where
  tidy := Workspace.tidy_setDirty coherent.tidy true _
  filled := Workspace.filled_setDirty coherent.tidy coherent.filled true _
  backed _ _ found := by cases found
  read p d held clean := by
    rw [dirty_reset coherent.tidy held] at clean
    cases clean
  awaited p text marked :=
    (Workspace.text_setDirty coherent.tidy true _ p).trans (coherent.awaited p text marked)

/-! ### Bringing the index up to date -/

/-- Once the dirty documents are read, every document is: the clean ones were before. -/
theorem reads_of_readAll {e : Engine} (coherent : e.Coherent) {known : List (Document × Dialect)}
    {x : Index} (dialects : Compile.dialectsOf e.registry e.dirtyDocuments = .ok known)
    (reading : Compile.readAll e.index known = .ok x) (p : Path) :
    (∀ d, e.document? p = some d → x.Reads e.registry p d.text) ∧
      ((x.reading? p).isSome = true → ∃ d, e.document? p = some d) := by
  obtain ⟨order, found⟩ := Compile.dialectsOf_found dialects
  have distinct : known.Pairwise fun k k' => k.1.path.components ≠ k'.1.path.components := by
    have apart : e.dirtyDocuments.Pairwise fun d d' => d.path.components ≠ d'.path.components :=
      (Workspace.pairwise_documents coherent.tidy).filter _
    rw [← order, List.pairwise_map] at apart
    exact apart
  have source : ∀ k ∈ known, p.components = k.1.path.components → e.document? p = some k.1 := by
    intro k member same
    have listed : k.1 ∈ e.dirtyDocuments := order ▸ List.mem_map.2 ⟨k, member, rfl⟩
    have held := (Workspace.mem_documents_iff coherent.tidy).1 (List.mem_filter.1 listed).1
    exact (Workspace.find?_congr e.workspace same).trans held
  obtain ⟨hit, miss⟩ := Compile.reading?_readAll distinct reading p
  by_cases listed : ∃ k ∈ known, p.components = k.1.path.components
  · obtain ⟨k, member, same⟩ := listed
    have held := source k member same
    refine ⟨fun d held' => ?_, fun _ => ⟨k.1, held⟩⟩
    rw [held] at held'
    cases held'
    obtain ⟨parsed, parse, here⟩ := hit k member same
    exact ⟨k.2, parsed, (e.registry.find?_congr same).trans (found k member), parse, here⟩
  · have kept := miss fun k member same => listed ⟨k, member, same⟩
    refine ⟨fun d held => ?_, fun some_ => ?_⟩
    · have clean : d.dirty = false := by
        cases dirty : d.dirty with
        | false => rfl
        | true =>
          -- A dirty document is among those that were read.
          have member : d ∈ e.dirtyDocuments :=
            List.mem_filter.2 ⟨Workspace.mem_documents_of_find? coherent.tidy held, dirty⟩
          rw [← order] at member
          obtain ⟨k, inside, rfl⟩ := List.mem_map.1 member
          exact absurd ⟨k, inside, (Workspace.path_of_find? coherent.tidy held).symm⟩ listed
      obtain ⟨dialect, parsed, taken, parse, here⟩ := coherent.read p d held clean
      exact ⟨dialect, parsed, taken, parse, kept.trans here⟩
    · rw [kept, Index.reading?, Option.isSome_map] at some_
      obtain ⟨s, here⟩ := Option.isSome_iff_exists.1 some_
      exact coherent.backed p s here

theorem coherent_compile {e : Engine} (coherent : e.Coherent) : e.compile.1.Coherent := by
  rcases compile_cases coherent.backed with
    ⟨_, run⟩ | ⟨_, run⟩ | ⟨known, x, bound, dialects, reading, run⟩
  · rw [run]
    exact coherent
  · rw [run]
    exact coherent
  · rw [run]
    have read := reads_of_readAll coherent dialects reading
    have texts := Workspace.text_setDirty coherent.tidy false bound
    have bound_ := Compile.reading?_bindAll x (e.dirtyDocuments.map (·.path))
    refine ⟨Workspace.tidy_setDirty coherent.tidy false bound,
      Workspace.filled_setDirty coherent.tidy coherent.filled false bound, ?_, ?_, ?_⟩
    · intro p s found
      have some_ : (x.reading? p).isSome = true := by
        rw [← bound_ p, Index.reading?, found]
        rfl
      obtain ⟨d, held⟩ := (read p).2 some_
      have same := texts p
      rw [show e.workspace.find? p = some d from held] at same
      obtain ⟨d', held', _⟩ := Option.map_eq_some_iff.1 same
      exact ⟨d', held'⟩
    · intro p d' held' _
      have same := texts p
      rw [show (e.workspace.setDirty false bound).find? p = some d' from held'] at same
      obtain ⟨d, held, text⟩ := Option.map_eq_some_iff.1 same.symm
      obtain ⟨dialect, parsed, taken, parse, here⟩ := (read p).1 d held
      rw [text] at parse
      exact ⟨dialect, parsed, taken, parse, (bound_ p).trans here⟩
    · exact fun p text marked => (texts p).trans (coherent.awaited p text marked)

/-! ### Proposals -/

/-- A proposal is turned down, cannot be bound and is taken back, breaks down with its texts stored,
or succeeds. -/
theorem applyProposal_cases {e : Engine} (coherent : e.Coherent) (proposal : Proposal) :
    (∃ halt, e.applyProposal proposal = (e, .error halt)) ∨
      ∃ changed : List (Path × String), ∃ result,
        e.applyProposal proposal =
          ((changed.foldl (fun e r => e.storeText r.1 r.2) e).compile.1, result) ∧
        ∀ err, result ≠ .error (.error err) := by
  unfold applyProposal
  split
  · next err _ => exact .inl ⟨.error err, rfl⟩
  · next edits _ =>
    split
    · exact .inl ⟨.error .noChanges, rfl⟩
    · simp only
      generalize (proposal.entries.filter fun r => edits.contains r.1) = changed
      have stored := coherent_storeTexts coherent changed
      split
      · next after paths run => exact .inr ⟨changed, .ok edits, by rw [run], by simp⟩
      · next after err run =>
        refine .inl ⟨.error err, ?_⟩
        rw [eq_of_compile_error stored.backed run,
          restore_storeTexts coherent.tidy coherent.filled changed]
      · next after message run =>
        exact .inr ⟨changed, .error (.crash message), by rw [run], by simp⟩

theorem coherent_applyProposal {e : Engine} (coherent : e.Coherent) (proposal : Proposal) :
    (e.applyProposal proposal).1.Coherent := by
  rcases applyProposal_cases coherent proposal with ⟨halt, run⟩ | ⟨changed, result, run, _⟩
  · rw [run]
    exact coherent
  · rw [run]
    exact coherent_compile (coherent_storeTexts coherent changed)

/-! ### Runs -/

/-- The engine after operations, from one without documents. -/
def reach (registry : Registry) (config : Config) (operations : List Operation) : Engine :=
  operations.foldl perform (new registry config)

theorem coherent_perform {e : Engine} (coherent : e.Coherent) (operation : Operation) :
    (e.perform operation).Coherent := by
  cases operation with
  | openDocument p text => exact coherent_openDocument coherent p text
  | notifyChange p text => exact coherent_notifyChange coherent p text
  | closeDocument p => exact coherent_closeDocument coherent p
  | applyProposal proposal => exact coherent_applyProposal coherent proposal
  | reset => exact coherent_reset coherent
  | compile => exact coherent_compile coherent

/-- The invariant holds after any operations. -/
theorem coherent_reach (registry : Registry) (config : Config) (operations : List Operation) :
    (reach registry config operations).Coherent := by
  have run : ∀ {e : Engine}, e.Coherent → (operations.foldl perform e).Coherent := by
    induction operations with
    | nil => exact fun coherent => coherent
    | cons operation operations ih =>
      exact fun coherent => ih (coherent_perform coherent operation)
  exact run (coherent_new registry config)

theorem registry_storeTexts (e : Engine) (texts : List (Path × String)) :
    (texts.foldl (fun e r => e.storeText r.1 r.2) e).registry = e.registry := by
  induction texts generalizing e with
  | nil => rfl
  | cons r texts ih => exact ih (e.storeText r.1 r.2)

theorem registry_compile {e : Engine} (coherent : e.Coherent) :
    e.compile.1.registry = e.registry := by
  rcases compile_cases coherent.backed with ⟨_, run⟩ | ⟨_, run⟩ | ⟨_, _, _, _, _, run⟩ <;> rw [run]

theorem registry_perform {e : Engine} (coherent : e.Coherent) (operation : Operation) :
    (e.perform operation).registry = e.registry := by
  cases operation with
  | openDocument p text => rfl
  | notifyChange p text => rfl
  | closeDocument p => rfl
  | applyProposal proposal =>
    show (e.applyProposal proposal).1.registry = _
    rcases applyProposal_cases coherent proposal with ⟨halt, run⟩ | ⟨changed, result, run, _⟩
    · rw [run]
    · rw [run]
      exact (registry_compile (coherent_storeTexts coherent changed)).trans
        (registry_storeTexts e changed)
  | reset => rfl
  | compile => exact registry_compile coherent

/-- The dialects are chosen once. -/
theorem registry_reach (registry : Registry) (config : Config) (operations : List Operation) :
    (reach registry config operations).registry = registry := by
  have run : ∀ {e : Engine}, e.Coherent → (operations.foldl perform e).registry = e.registry := by
    induction operations with
    | nil => exact fun _ => rfl
    | cons operation operations ih =>
      exact fun coherent => (ih (coherent_perform coherent operation)).trans
        (registry_perform coherent operation)
  exact run (coherent_new registry config)

/-! ### Failures -/

/-- Whether a step ended with this error. -/
instance {α : Type} (result : Except Halt α) (err : Error) :
    Decidable (result = .error (.error err)) :=
  match result with
  | .error (.error err') => decidable_of_iff (err' = err) (by simp)
  | .error (.crash _) => isFalse (by simp)
  | .ok _ => isFalse (by simp)

/-- In every state that operations lead to, bringing the index up to date and storing a proposal
leave the engine as it was if they return an error: the documents with their marks and projects, the
markers, and all of the index. -/
theorem unchanged_of_error (registry : Registry) (config : Config) (operations : List Operation) :
    (∀ err, (reach registry config operations).compile.2 = .error (.error err) →
        (reach registry config operations).compile.1 = reach registry config operations) ∧
      ∀ proposal err,
        ((reach registry config operations).applyProposal proposal).2 = .error (.error err) →
          ((reach registry config operations).applyProposal proposal).1 =
            reach registry config operations := by
  have coherent := coherent_reach registry config operations
  generalize reach registry config operations = e at coherent
  constructor
  · intro err failed
    exact eq_of_compile_error coherent.backed (Prod.ext rfl failed)
  · intro proposal err failed
    rcases applyProposal_cases coherent proposal with ⟨halt, run⟩ | ⟨changed, result, run, sound⟩
    · rw [run]
    · rw [run] at failed
      exact absurd failed (sound err)

/-- A grammar whose text was stored by the engine itself, and a file that no dialect takes. -/
def obstructed : List Operation :=
  [.openDocument (.of "a.g4") "x : y ;",
    .applyProposal (Table.insert ∅ (.of "a.g4") "x : z ;"),
    .openDocument (.of "notes.txt") "x"]

theorem unchanged_of_error_obstructed :
    let e := reach Grammar.registry {} obstructed
    let both : Proposal := (Table.insert ∅ (.of "a.g4") "x : w ;").insert (.of "b.g4") "w : x ;"
    e.echoes.armed = 1 ∧
      (e.compile.2 = .error (.error (.noDialect (.of "notes.txt"))) ∧ e.compile.1 = e) ∧
      ((e.applyProposal ∅).2 = .error (.error .noChanges) ∧ (e.applyProposal ∅).1 = e) ∧
      ((e.applyProposal (Table.insert ∅ (.of "new.txt") "x")).2 =
          .error (.error (.noDialect (.of "new.txt"))) ∧
        (e.applyProposal (Table.insert ∅ (.of "new.txt") "x")).1 = e) ∧
      (e.applyProposal both).2 = .error (.error (.noDialect (.of "notes.txt"))) ∧
        (e.applyProposal both).1 = e := by
  have compile := (unchanged_of_error Grammar.registry {} obstructed).1
  have apply_ := (unchanged_of_error Grammar.registry {} obstructed).2
  have fails : ∀ {P Q : Prop}, P → (P → Q) → P ∧ Q := fun p step => ⟨p, step p⟩
  refine ⟨by decide +kernel, fails ?_ (compile _), fails ?_ (apply_ _ _), fails ?_ (apply_ _ _),
    fails ?_ (apply_ _ _)⟩ <;> decide +kernel

/-! ### Echoes -/

/-- In every state that operations lead to, a marker waits for the text that is stored for its path.
So a notification leaves the text that it brings, whatever it turns out to be. It is taken for an
echo only if a marker is armed and the text is stored already, and then it changes nothing but the
marker. -/
theorem no_update_lost (registry : Registry) (config : Config) (operations : List Operation) :
    (∀ p expected, (reach registry config operations).echoes.state p = .awaiting expected →
        ((reach registry config operations).document? p).map (·.text) = some expected) ∧
      ∀ p text, ∀ e' outcome,
        (reach registry config operations).notifyChange p text = (e', outcome) →
          (e'.document? p).map (·.text) = some text ∧
          e'.echoes.state p = .clean ∧
          (∀ q, q.components ≠ p.components →
            e'.echoes.state q = (reach registry config operations).echoes.state q) ∧
          (outcome = .suppressed ↔
            (reach registry config operations).echoes.state p ≠ .clean ∧
              ((reach registry config operations).document? p).map (·.text) = some text) ∧
          (outcome = .suppressed → e' = { reach registry config operations with
            echoes := (reach registry config operations).echoes.disarm p }) := by
  have coherent := coherent_reach registry config operations
  generalize reach registry config operations = e at coherent
  have awaited : ∀ p expected, e.echoes.state p = .awaiting expected →
      (e.document? p).map (·.text) = some expected := by
    intro p expected armed
    unfold EchoTable.state at armed
    split at armed
    · next text marked =>
      rw [← EchoState.awaiting.inj armed]
      exact coherent.awaited p text marked
    · cases armed
  refine ⟨awaited, fun p text e' outcome notified => ?_⟩
  -- The marker is used up in any case, and only this one.
  have echoes : e'.echoes = e.echoes.disarm p := by
    rw [show e' = (e.notifyChange p text).1 from (congrArg Prod.fst notified).symm]
    rfl
  have used : e'.echoes.state p = .clean := by
    rw [echoes, EchoTable.state, get?_disarm, if_pos rfl]
  have others : ∀ q, q.components ≠ p.components → e'.echoes.state q = e.echoes.state q := by
    intro q other
    rw [echoes, EchoTable.state, get?_disarm, if_neg other]
    rfl
  rw [notifyChange_eq] at notified
  split at notified
  · next marked =>
    cases notified
    have stored := coherent.awaited p text marked
    refine ⟨stored, used, others, ⟨fun _ => ⟨?_, stored⟩, fun _ => rfl⟩, fun _ => rfl⟩
    rw [EchoTable.state, marked]
    exact EchoState.noConfusion
  · next unmarked =>
    have written : (e.openDocument p text).document? p = some (e.workspace.written p text) :=
      (Workspace.find?_write coherent.tidy p text p).trans (if_pos rfl)
    have told : outcome ≠ .suppressed := by
      cases notified
      split <;> exact Notification.noConfusion
    cases notified
    refine ⟨?_, used, others, ⟨fun same => absurd same told, ?_⟩, fun same => absurd same told⟩
    · rw [written, Option.map_some, Workspace.text_written]
    · rintro ⟨armed, stored⟩
      cases marker : e.echoes.get? p with
      | none => exact absurd (by rw [EchoTable.state, marker]) armed
      | some expected =>
        -- The marker would wait for another text than the one that is stored.
        rw [coherent.awaited p expected marker] at stored
        rw [marker, Option.some.inj stored] at unmarked
        exact absurd rfl unmarked

/-- The text of `a.g4` was stored by the engine, and its echo is still to come. -/
theorem no_update_lost_armed :
    let e := reach Grammar.registry {} obstructed
    e.echoes.state (.of "a.g4") = .awaiting "x : z ;" ∧
      (e.document? (.of "a.g4")).map (·.text) = some "x : z ;" ∧
      (e.notifyChange (.of "a.g4") "x : z ;").2 = .suppressed ∧
      (e.notifyChange (.of "a.g4") "x : z ;").1 =
        { e with echoes := e.echoes.disarm (.of "a.g4") } ∧
      (e.notifyChange (.of "a.g4") "x : y ;").2 = .mismatched ∧
      ((e.notifyChange (.of "a.g4") "x : y ;").1.document? (.of "a.g4")).map (·.text) =
        some "x : y ;" := by
  intro e
  obtain ⟨awaited, notified⟩ := no_update_lost Grammar.registry {} obstructed
  have armed : e.echoes.state (.of "a.g4") = .awaiting "x : z ;" := by decide +kernel
  have stored := awaited _ _ armed
  obtain ⟨_, _, _, echo, only⟩ := notified (.of "a.g4") "x : z ;" _ _ rfl
  have suppressed := echo.2 ⟨by rw [armed]; exact EchoState.noConfusion, stored⟩
  exact ⟨armed, stored, suppressed, only suppressed, by decide +kernel,
    (notified (.of "a.g4") "x : y ;" _ _ rfl).1⟩

end Engine

end GrammarIndex
