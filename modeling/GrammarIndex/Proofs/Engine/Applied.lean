import GrammarIndex.Proofs.Edit.Canonical
import GrammarIndex.Proofs.Engine.Coherent

/-!
What a proposal does when it is accepted.

The edits are computed against the texts that are stored before anything is written, and only texts
that differ get any. Then these texts are written, each with a marker, and a run binds what is
dirty, whether it was written now or before. A run changes neither texts nor markers, so what was
written is what is stored in the end.
-/
namespace GrammarIndex

namespace Compile

/-! ### What a run binds -/

/-- Rounds only add to what is bound. -/
theorem bound_runRounds (limit : Nat) {p : Progress} (round : List Path) {q : Path}
    (bound : p.bound.contains q = true) : (runRounds limit p round).bound.contains q = true := by
  induction limit generalizing p round with
  | zero => exact bound
  | succ limit ih =>
    rw [runRounds]
    split
    · exact bound
    · exact ih _ ((PathSet.contains_addAll p.bound round q).2 (.inl bound))

/-- The files that a run starts with are bound in its first round. -/
theorem bound_bindAll (x : Index) {dirty : List Path} {p : Path} (member : p ∈ dirty) :
    (bindAll x dirty).bound.contains p = true := by
  have some_ : ¬ dirty.isEmpty = true := fun none_ => by
    rw [List.isEmpty_iff.1 none_] at member
    cases member
  show (runRounds (x.files.size + 1) ⟨x, ∅⟩ dirty).bound.contains p = true
  rw [runRounds, if_neg some_]
  exact bound_runRounds _ _ ((PathSet.contains_addAll ∅ dirty p).2 (.inr ⟨p, member, rfl⟩))

/-! ### Why a run stops -/

theorem noDialect_of_dialectsOf {registry : Registry} {docs : List Document} {halt : Halt}
    (failed : dialectsOf registry docs = .error halt) :
    ∃ p, halt = .error (.noDialect p) := by
  induction docs with
  | nil => cases failed
  | cons d docs ih =>
    rw [dialectsOf, List.mapM_cons] at failed
    cases taken : registry.find? d.path with
    | none =>
      rw [taken] at failed
      cases failed
      exact ⟨d.path, rfl⟩
    | some dialect =>
      simp only [taken, bind, Except.bind] at failed
      split at failed
      · next halt' first =>
        cases failed
        exact ih first
      · cases failed

theorem crash_of_readAll {x : Index} {known : List (Document × Dialect)} {halt : Halt}
    (failed : readAll x known = .error halt) : ∃ message, halt = .crash message := by
  induction known generalizing x with
  | nil => cases failed
  | cons k known ih =>
    rw [readAll, List.foldlM_cons] at failed
    cases parse : k.2.parse k.1.text with
    | error message =>
      simp only [parse, bind, Except.bind] at failed
      cases failed
      exact ⟨message, rfl⟩
    | ok parsed =>
      simp only [parse, bind, Except.bind] at failed
      exact ih failed

end Compile

namespace Engine

/-- What a successful run does to documents and markers, whatever the dialects are. -/
structure Cleaned (before after : Engine) : Prop where
  clean : ∀ p d, after.document? p = some d → d.dirty = false
  texts : ∀ p, (after.document? p).map (·.text) = (before.document? p).map (·.text)
  echoes : after.echoes = before.echoes

theorem cleaned_of_compile {e after : Engine} {paths : List Path} (coherent : e.Coherent)
    (success : e.compile = (after, .ok paths)) : Cleaned e after := by
  have listed : ∀ {p d}, e.document? p = some d → d.dirty = true → d ∈ e.dirtyDocuments :=
    fun held dirty =>
      List.mem_filter.2 ⟨Workspace.mem_documents_of_find? coherent.tidy held, dirty⟩
  unfold compile at success
  rw [forgetVanished_eq coherent.backed] at success
  simp only [show e.documents.filter (·.dirty) = e.dirtyDocuments from rfl] at success
  split at success
  · next none_ =>
    cases success
    refine ⟨fun p d held => Bool.eq_false_iff.2 fun dirty => ?_, fun _ => rfl, rfl⟩
    have member := listed held dirty
    rw [List.isEmpty_iff.1 none_] at member
    cases member
  · split at success
    · cases success
    · next x _ =>
      cases success
      have marked := Workspace.find?_setDirty coherent.tidy false
        (OrderedSet.toList (Compile.bindAll x (e.dirtyDocuments.map (·.path))).bound)
      refine ⟨fun p d held => ?_, fun p => Workspace.text_setDirty coherent.tidy false _ p, rfl⟩
      have view := (marked p).symm.trans held
      split at view
      · obtain ⟨_, _, rfl⟩ := Option.map_eq_some_iff.1 view
        rfl
      · next absent =>
        refine Bool.eq_false_iff.2 fun dirty => absent ?_
        have bound := Compile.bound_bindAll x
          (List.mem_map.2 ⟨d, listed view dirty, rfl⟩ : d.path ∈ e.dirtyDocuments.map (·.path))
        obtain ⟨q, member, same⟩ := PathSet.contains_iff_mem_toList.1 bound
        exact ⟨q, member, (Workspace.path_of_find? coherent.tidy view).symm.trans same⟩

/-! ### Edits -/

/-- The stored text of a path; a path without a document counts as empty. -/
def storedText (e : Engine) (p : Path) : String := ((e.document? p).map (·.text)).getD ""

/-- Whether a text can be stored for a path. -/
def Storable (e : Engine) (p : Path) : Prop :=
  (e.document? p).isSome = true ∨ (e.registry.find? p).isSome = true

instance (e : Engine) (p : Path) : Decidable (e.Storable p) :=
  inferInstanceAs (Decidable (_ ∨ _))

theorem storedText_congr (e : Engine) {p q : Path} (same : p.components = q.components) :
    e.storedText p = e.storedText q := by
  rw [storedText, storedText, document?, document?, Workspace.find?_congr e.workspace same]

theorem storable_congr (e : Engine) {p q : Path} (same : p.components = q.components) :
    e.Storable p ↔ e.Storable q := by
  rw [Storable, Storable, document?, document?, Workspace.find?_congr e.workspace same,
    e.registry.find?_congr same]

/-- Add the edits for one text of a proposal. -/
def addEdits (e : Engine) (edits : PathTable (List Edit)) (r : Path × String) :
    Except Error (PathTable (List Edit)) :=
  if e.Storable r.1 then
    .ok (if r.2 = e.storedText r.1 then edits
      else edits.insert r.1 (editScript (e.storedText r.1) r.2))
  else .error (.noDialect r.1)

theorem proposalEdits_eq (e : Engine) (proposal : Proposal) :
    e.proposalEdits proposal = proposal.entries.foldlM e.addEdits ∅ := by
  have script : ∀ old new : String, (editScript old new).isEmpty = true ↔ new = old := by
    intro old new
    rw [List.isEmpty_iff, editScript_eq_nil_iff, eq_comm]
  unfold proposalEdits
  congr 1
  funext edits r
  obtain ⟨p, text⟩ := r
  cases held : e.document? p with
  | some d =>
    have storable : e.Storable p := .inl (by rw [held]; rfl)
    simp [addEdits, storable, storedText, held, script, pure, Except.pure, bind, Except.bind]
  | none =>
    cases taken : e.registry.find? p with
    | none =>
      have unstorable : ¬ e.Storable p := by simp [Storable, held, taken]
      simp [addEdits, unstorable, held, taken, bind, Except.bind]
    | some dialect =>
      have storable : e.Storable p := .inr (by rw [taken]; rfl)
      simp [addEdits, storable, storedText, held, taken, script, pure, Except.pure, bind,
        Except.bind]

/-- No two texts are for one path. -/
def Distinct (texts : List (Path × String)) : Prop :=
  texts.Pairwise fun r r' => r.1.components ≠ r'.1.components

theorem distinct_entries (proposal : Proposal) : Distinct proposal.entries := by
  refine proposal.sorted.imp fun lower same => ?_
  rw [(Path.compare_eq_iff _ _).2 same] at lower
  cases lower

/-- What is there for a path after the edits for texts were added. -/
theorem get?_addEdits {e : Engine} {texts : List (Path × String)}
    {acc edits : PathTable (List Edit)} (distinct : Distinct texts)
    (success : texts.foldlM e.addEdits acc = .ok edits) (q : Path) :
    (∀ r ∈ texts, q.components = r.1.components → e.Storable r.1 ∧
        edits.get? q = if r.2 = e.storedText r.1 then acc.get? q
          else some (editScript (e.storedText r.1) r.2)) ∧
      ((∀ r ∈ texts, q.components ≠ r.1.components) → edits.get? q = acc.get? q) := by
  induction texts generalizing acc with
  | nil =>
    cases success
    simp
  | cons r texts ih =>
    obtain ⟨apart, distinctRest⟩ := List.pairwise_cons.1 distinct
    rw [List.foldlM_cons, addEdits] at success
    split at success
    · next storable =>
      obtain ⟨hit, miss⟩ := ih distinctRest success
      constructor
      · intro r' member same
        rcases List.mem_cons.1 member with rfl | member
        · refine ⟨storable, (miss fun r'' later same' =>
            apart r'' later (same.symm.trans same')).trans ?_⟩
          split
          · rfl
          · rw [PathTable.get?_insert, if_pos same]
        · have other : q.components ≠ r.1.components := fun same' =>
            apart r' member (same'.symm.trans same)
          obtain ⟨storable', found⟩ := hit r' member same
          refine ⟨storable', found.trans ?_⟩
          split
          · split
            · rfl
            · rw [PathTable.get?_insert, if_neg other]
          · rfl
      · intro away
        rw [miss fun r' member => away r' (by simp [member])]
        split
        · rfl
        · rw [PathTable.get?_insert, if_neg (away r (by simp))]
    · cases success

theorem unstorable_of_addEdits {e : Engine} {texts : List (Path × String)}
    {acc : PathTable (List Edit)} {err : Error}
    (failed : texts.foldlM e.addEdits acc = .error err) :
    ∃ r ∈ texts, ¬ e.Storable r.1 ∧ err = .noDialect r.1 := by
  induction texts generalizing acc with
  | nil => cases failed
  | cons r texts ih =>
    rw [List.foldlM_cons, addEdits] at failed
    split at failed
    · obtain ⟨r', member, refused⟩ := ih failed
      exact ⟨r', by simp [member], refused⟩
    · next refused =>
      cases failed
      exact ⟨r, by simp, refused, rfl⟩

/-- A proposal whose edits are known can be stored, and the edits are those for the texts that
differ from what is stored. -/
theorem proposalEdits_ok {e : Engine} {proposal : Proposal} {edits : PathTable (List Edit)}
    (success : e.proposalEdits proposal = .ok edits) :
    (∀ p text, proposal.get? p = some text → e.Storable p) ∧
      ∀ p, edits.get? p = (proposal.get? p).bind fun text =>
        if text = e.storedText p then none else some (editScript (e.storedText p) text) := by
  rw [proposalEdits_eq] at success
  have view := get?_addEdits (distinct_entries proposal) success
  refine ⟨fun p text wanted => ?_, fun p => ?_⟩
  · obtain ⟨q, entry, same⟩ := Table.mem_of_get? wanted
    have spelled := (Path.compare_eq_iff p q).1 same
    exact (storable_congr e spelled).2 ((view p).1 (q, text) entry spelled).1
  · cases wanted : proposal.get? p with
    | none =>
      refine (view p).2 fun r entry same => ?_
      rw [PathTable.get?_congr proposal same, Table.get?_of_mem entry] at wanted
      cases wanted
    | some text =>
      obtain ⟨q, entry, same⟩ := Table.mem_of_get? wanted
      have spelled := (Path.compare_eq_iff p q).1 same
      rw [((view p).1 (q, text) entry spelled).2, Option.bind_some, storedText_congr e spelled]
      rfl

/-- A proposal whose edits cannot be computed has a path that nothing is known of. -/
theorem proposalEdits_error {e : Engine} {proposal : Proposal} {err : Error}
    (failed : e.proposalEdits proposal = .error err) :
    ∃ p text, proposal.get? p = some text ∧ ¬ e.Storable p ∧ err = .noDialect p := by
  rw [proposalEdits_eq] at failed
  obtain ⟨⟨p, text⟩, entry, refused, rfl⟩ := unstorable_of_addEdits failed
  exact ⟨p, text, Table.get?_of_mem entry, refused, rfl⟩

/-! ### Writing -/

/-- What is stored for a path after texts were stored. -/
theorem stored_storeTexts {e : Engine} (tidy : e.workspace.Tidy) {texts : List (Path × String)}
    (distinct : Distinct texts) (q : Path) :
    let written := texts.foldl (fun e r => e.storeText r.1 r.2) e
    (∀ r ∈ texts, q.components = r.1.components →
        (written.document? q).map (·.text) = some r.2 ∧ written.echoes.get? q = some r.2) ∧
      ((∀ r ∈ texts, q.components ≠ r.1.components) →
        written.document? q = e.document? q ∧ written.echoes.get? q = e.echoes.get? q) := by
  induction texts generalizing e with
  | nil => simp
  | cons r texts ih =>
    obtain ⟨apart, distinctRest⟩ := List.pairwise_cons.1 distinct
    have document : (e.storeText r.1 r.2).document? q =
        if q.components = r.1.components then some (e.workspace.written r.1 r.2)
        else e.document? q := Workspace.find?_write tidy r.1 r.2 q
    have marker : (e.storeText r.1 r.2).echoes.get? q =
        if q.components = r.1.components then some r.2 else e.echoes.get? q :=
      PathTable.get?_insert e.echoes r.1 q r.2
    obtain ⟨hit, miss⟩ := ih (e := e.storeText r.1 r.2)
      (Workspace.tidy_write tidy r.1 r.2) distinctRest
    rw [List.foldl_cons]
    constructor
    · intro r' member same
      rcases List.mem_cons.1 member with rfl | member
      · obtain ⟨kept, echoes⟩ := miss fun r'' later same' =>
          apart r'' later (same.symm.trans same')
        rw [kept, echoes, document, marker, if_pos same, if_pos same, Option.map_some,
          Workspace.text_written]
        exact ⟨rfl, rfl⟩
      · exact hit r' member same
    · intro away
      obtain ⟨kept, echoes⟩ := miss fun r' member => away r' (by simp [member])
      rw [kept, echoes, document, marker, if_neg (away r (by simp)), if_neg (away r (by simp))]
      exact ⟨rfl, rfl⟩

/-- What is stored for a path after the texts of a proposal that have edits were stored. -/
theorem stored_entries {e : Engine} (tidy : e.workspace.Tidy) (proposal : Proposal)
    (edits : PathTable (List Edit)) (p : Path) :
    let written := (proposal.entries.filter fun r => edits.contains r.1).foldl
      (fun e r => e.storeText r.1 r.2) e
    (∀ text, proposal.get? p = some text → edits.contains p = true →
        (written.document? p).map (·.text) = some text ∧ written.echoes.get? p = some text) ∧
      (edits.contains p = false →
        written.document? p = e.document? p ∧ written.echoes.get? p = e.echoes.get? p) := by
  obtain ⟨hit, miss⟩ := stored_storeTexts tidy
    ((distinct_entries proposal).filter fun r => edits.contains r.1) p
  constructor
  · intro text wanted has
    obtain ⟨q, entry, same⟩ := Table.mem_of_get? wanted
    have spelled := (Path.compare_eq_iff p q).1 same
    refine hit (q, text) (List.mem_filter.2 ⟨entry, ?_⟩) spelled
    rwa [Table.contains, ← PathTable.get?_congr edits spelled]
  · intro absent
    refine miss fun r inside same => ?_
    have has := (List.mem_filter.1 inside).2
    rw [Table.contains, ← PathTable.get?_congr edits same] at has
    rw [Table.contains, has] at absent
    cases absent

/-! ### Proposals -/

/-- What an accepted proposal has done. -/
structure Applied (before : Engine) (proposal : Proposal) (after : Engine)
    (edits : PathTable (List Edit)) : Prop where
  /-- Exactly the texts that differ have edits. -/
  changed : ∀ p, edits.contains p = true ↔
    ∃ text, proposal.get? p = some text ∧ text ≠ before.storedText p
  /-- The edits lead from the old text to the new one, which is stored, with its echo to come. -/
  stored : ∀ p script, edits.get? p = some script → ∃ text, proposal.get? p = some text ∧
    applyEdits (before.storedText p) script = text ∧
    (after.document? p).map (·.text) = some text ∧ after.echoes.state p = .awaiting text
  /-- Nothing else is written or awaited. -/
  others : ∀ p, edits.contains p = false →
    (after.document? p).map (·.text) = (before.document? p).map (·.text) ∧
    after.echoes.state p = before.echoes.state p
  /-- Everything is bound. -/
  clean : ∀ d ∈ after.documents, d.dirty = false

theorem applied_of_ok {e after : Engine} (coherent : e.Coherent) {proposal : Proposal}
    {edits : PathTable (List Edit)} (success : e.applyProposal proposal = (after, .ok edits)) :
    Applied e proposal after edits := by
  unfold applyProposal at success
  split at success
  · cases success
  next edits' computed =>
  split at success
  · cases success
  simp only at success
  have held := stored_entries coherent.tidy proposal edits'
  have stored := coherent_storeTexts coherent
    (proposal.entries.filter fun r => edits'.contains r.1)
  generalize (proposal.entries.filter fun r => edits'.contains r.1) = changed at *
  split at success
  case h_2 => cases success
  case h_3 => cases success
  next after' paths run =>
  cases success
  obtain ⟨clean, texts, echoes⟩ := cleaned_of_compile stored run
  obtain ⟨_, view⟩ := proposalEdits_ok computed
  refine ⟨fun p => ?_, fun p script found => ?_, fun p absent => ?_, fun d listed => ?_⟩
  · rw [Table.contains, view]
    cases proposal.get? p with
    | none => simp
    | some text => by_cases same : text = e.storedText p <;> simp [same]
  · have has : edits.contains p = true := by rw [Table.contains, found]; rfl
    rw [view] at found
    obtain ⟨text, wanted, script_⟩ := Option.bind_eq_some_iff.1 found
    split at script_
    · cases script_
    cases script_
    obtain ⟨written, marker⟩ := (held p).1 text wanted has
    refine ⟨text, wanted, applyEdits_editScript _ _, (texts p).trans written, ?_⟩
    rw [EchoTable.state, echoes, marker]
  · obtain ⟨kept, marker⟩ := (held p).2 absent
    rw [texts, kept, EchoTable.state, EchoTable.state, echoes, marker]
    exact ⟨rfl, rfl⟩
  · have tidy := (coherent_compile stored).tidy
    rw [run] at tidy
    exact clean d.path d ((Workspace.mem_documents_iff tidy).1 listed)

/-- A run stops at a file that no dialect takes, or at a breakdown of a dialect. -/
theorem halt_of_compile {e after : Engine} {halt : Halt}
    (failed : e.compile = (after, .error halt)) :
    (∃ p, halt = .error (.noDialect p)) ∨ ∃ message, halt = .crash message := by
  unfold compile at failed
  simp only at failed
  generalize e.forgetVanished = e at failed
  split at failed
  · cases failed
  split at failed
  case h_2 => cases failed
  next halt' computed =>
  cases failed
  cases dialects : Compile.dialectsOf after.registry (after.documents.filter (·.dirty)) with
  | error halt' =>
    rw [dialects] at computed
    cases computed
    exact .inl (Compile.noDialect_of_dialectsOf dialects)
  | ok known =>
    rw [dialects] at computed
    exact .inr (Compile.crash_of_readAll computed)

/-- A proposal is turned down for changing nothing exactly if all of it is stored already. -/
theorem noChanges_iff (e : Engine) (proposal : Proposal) :
    (e.applyProposal proposal).2 = .error (.error .noChanges) ↔
      ∀ p text, proposal.get? p = some text → e.Storable p ∧ text = e.storedText p := by
  unfold applyProposal
  cases computed : e.proposalEdits proposal with
  | error err =>
    obtain ⟨p, text, wanted, unstorable, rfl⟩ := proposalEdits_error computed
    simp only [Except.error.injEq, Halt.error.injEq, reduceCtorEq, false_iff]
    exact fun all => unstorable (all p text wanted).1
  | ok edits =>
    obtain ⟨storable, view⟩ := proposalEdits_ok computed
    have none_ : edits.isEmpty = true ↔
        ∀ p text, proposal.get? p = some text → text = e.storedText p := by
      rw [Table.isEmpty, List.isEmpty_iff]
      constructor
      · intro empty p text wanted
        by_contra differs
        have found := view p
        rw [wanted, Option.bind_some, if_neg differs] at found
        obtain ⟨_, entry, _⟩ := Table.mem_of_get? found
        rw [empty] at entry
        cases entry
      · intro same
        refine List.eq_nil_iff_forall_not_mem.2 fun entry listed => ?_
        have found := (view entry.1).symm.trans (Table.get?_of_mem listed)
        obtain ⟨text, wanted, script⟩ := Option.bind_eq_some_iff.1 found
        rw [if_pos (same _ text wanted)] at script
        cases script
    simp only
    split
    · next empty =>
      exact iff_of_true rfl fun p text wanted => ⟨storable p text wanted, none_.1 empty p text wanted⟩
    · next some_ =>
      refine iff_of_false (fun failed => ?_) fun all =>
        some_ (none_.2 fun p text wanted => (all p text wanted).2)
      split at failed
      · cases failed
      · next err run =>
        cases failed
        rcases halt_of_compile run with ⟨p, same⟩ | ⟨message, same⟩ <;> cases same
      · cases failed

/-- In every state that operations lead to, with whatever dialects: a proposal that is accepted has
been stored as it says, and a proposal is turned down for changing nothing exactly if all of it can
be stored and is stored already. -/
theorem proposal_stored (registry : Registry) (config : Config) (operations : List Operation)
    (proposal : Proposal) :
    (∀ after edits,
        (reach registry config operations).applyProposal proposal = (after, .ok edits) →
          Applied (reach registry config operations) proposal after edits) ∧
      (((reach registry config operations).applyProposal proposal).2 =
          .error (.error .noChanges) ↔
        ∀ p text, proposal.get? p = some text →
          (((reach registry config operations).document? p).isSome = true ∨
            (registry.find? p).isSome = true) ∧
          text = (reach registry config operations).storedText p) := by
  refine ⟨fun after edits => applied_of_ok (coherent_reach registry config operations), ?_⟩
  have registered := registry_reach registry config operations
  rw [noChanges_iff]
  simp only [Storable, registered]

/-- Two grammars that are bound, and one that is not yet. -/
def stocked : List Operation :=
  [.openDocument (.of "a.g4") "x : y ;", .openDocument (.of "b.g4") "y : x ;", .compile,
    .openDocument (.of "c.g4") "z : x ;"]

/-- Another text for one, the same text for another, and a file that is new. -/
def renewal : Proposal :=
  ((Table.insert ∅ (.of "a.g4") "x : z ;").insert (.of "b.g4") "y : x ;").insert (.of "n.g4")
    "n : x ;"

/-- The first and the last have edits, and what was not bound before is bound along. -/
theorem proposal_stored_stocked : ∃ after edits,
    (reach Grammar.registry {} stocked).applyProposal renewal = (after, .ok edits) ∧
      edits.contains (.of "a.g4") = true ∧ edits.contains (.of "b.g4") = false ∧
      (∃ script, edits.get? (.of "n.g4") = some script ∧ applyEdits "" script = "n : x ;") ∧
      (after.document? (.of "a.g4")).map (·.text) = some "x : z ;" ∧
      after.echoes.state (.of "n.g4") = .awaiting "n : x ;" ∧
      after.echoes.state (.of "b.g4") = .clean ∧ (∀ d ∈ after.documents, d.dirty = false) ∧
      ((reach Grammar.registry {} stocked).applyProposal ∅).2 = .error (.error .noChanges) := by
  have applied := (proposal_stored Grammar.registry {} stocked renewal).1
  have accepted : ((reach Grammar.registry {} stocked).applyProposal renewal).2.isOk = true := by
    decide +kernel
  cases run : (reach Grammar.registry {} stocked).applyProposal renewal with
  | mk after result =>
    rw [run] at accepted
    cases result with
    | error halt => cases accepted
    | ok edits =>
      have known := applied after edits run
      have old : ∀ p, (((renewal.get? p).map fun text =>
          decide (text ≠ (reach Grammar.registry {} stocked).storedText p)).getD false) =
            edits.contains p := by
        intro p
        rw [Bool.eq_iff_iff, known.changed]
        cases renewal.get? p <;> simp
      have differs : edits.contains (.of "a.g4") = true := (old _).symm.trans (by decide +kernel)
      have same : edits.contains (.of "b.g4") = false := (old _).symm.trans (by decide +kernel)
      have new : edits.contains (.of "n.g4") = true := (old _).symm.trans (by decide +kernel)
      obtain ⟨first, found⟩ := Option.isSome_iff_exists.1 differs
      obtain ⟨text, wanted, _, stored, _⟩ := known.stored _ first found
      obtain rfl : text = "x : z ;" := Option.some.inj (wanted.symm.trans (by decide +kernel))
      obtain ⟨script, found⟩ := Option.isSome_iff_exists.1 new
      obtain ⟨text, wanted, leads, _, marker⟩ := known.stored _ script found
      obtain rfl : text = "n : x ;" := Option.some.inj (wanted.symm.trans (by decide +kernel))
      have empty : (reach Grammar.registry {} stocked).storedText (.of "n.g4") = "" := by
        decide +kernel
      refine ⟨after, edits, rfl, differs, same, ⟨script, found, empty ▸ leads⟩, stored, marker,
        (known.others _ same).2.trans (by decide +kernel), known.clean, ?_⟩
      exact (proposal_stored Grammar.registry {} stocked ∅).2.2 fun p text wanted => by cases wanted

end Engine

end GrammarIndex
