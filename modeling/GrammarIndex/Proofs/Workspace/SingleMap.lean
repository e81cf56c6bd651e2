import GrammarIndex.Proofs.Workspace.Projects
import Mathlib.Data.List.Induction

/-!
A workspace as a single map.

Documents lie in a map of maps, and a path is searched project by project. After any operations a
path is in one project at most, so the project where it is met first is the only one, and the map of
maps is a single one from paths to documents with their projects.
-/
namespace GrammarIndex.Workspace

/-- What is done to the documents of a workspace. -/
inductive Operation where
  | add (project : String) (d : Document)
  | remove (p : Path)
  | setText (p : Path) (text : String)

/-- The workspace after an operation. -/
def perform (w : Workspace) : Operation → Workspace
  | .add project d => w.add project d
  | .remove p => w.remove p
  | .setText p text => w.modify p (·.setText text)

def performed (operations : List Operation) : Workspace := operations.foldl perform empty

namespace Operation

/-- What a single map holds for a path after an operation. -/
def put (p : Path) (e : Option (String × Document)) : Operation → Option (String × Document)
  | .add project d => if p.components = d.path.components then some (project, d) else e
  | .remove q => if p.components = q.components then none else e
  | .setText q text =>
    if p.components = q.components then e.map fun e => (e.1, e.2.setText text) else e

/-- An operation after which nothing is left of what was held for a path. -/
def Replaces (p : Path) : Operation → Prop
  | .add _ d => p.components = d.path.components
  | .remove q => p.components = q.components
  | .setText _ _ => False

/-- The text that an operation gives to the document with a path. -/
def text? (p : Path) : Operation → Option String
  | .setText q text => if p.components = q.components then some text else none
  | _ => none

end Operation

/-- What a single map holds for a path after operations. -/
def held (operations : List Operation) (p : Path) : Option (String × Document) :=
  operations.foldl (Operation.put p) none

/-- The document that was added last for a path and not removed since, with the texts that it was
given since. -/
def LastAdded (operations : List Operation) (p : Path) (project : String) (d : Document) : Prop :=
  ∃ before added after, operations = before ++ .add project added :: after ∧
    p.components = added.path.components ∧ (∀ operation ∈ after, ¬ operation.Replaces p) ∧
    d = (after.filterMap (·.text? p)).foldl Document.setText added

/-! ### The last document -/

/-- One operation more. -/
theorem lastAdded_concat (operations : List Operation) (operation : Operation) (p : Path)
    (project : String) (d : Document) : LastAdded (operations ++ [operation]) p project d ↔
      (operation = .add project d ∧ p.components = d.path.components) ∨
        ¬ operation.Replaces p ∧ ∃ d₀, LastAdded operations p project d₀ ∧
          d = (operation.text? p).elim d₀ d₀.setText := by
  constructor
  · rintro ⟨before, added, after, whole, same, kept, rfl⟩
    rcases List.eq_nil_or_concat after with rfl | ⟨after, last, rfl⟩
    · obtain ⟨_, last⟩ := List.append_inj' whole rfl
      exact .inl ⟨List.head_eq_of_cons_eq last, same⟩
    · rw [List.concat_eq_append, ← List.cons_append, ← List.append_assoc] at whole
      obtain ⟨rfl, last_⟩ := List.append_inj' whole rfl
      cases last_
      rw [List.concat_eq_append] at kept ⊢
      refine .inr ⟨kept operation (by simp), _, ⟨before, added, after, rfl, same,
        fun earlier member => kept earlier (List.mem_append_left _ member), rfl⟩, ?_⟩
      rw [List.filterMap_append, List.foldl_append]
      cases text : operation.text? p <;> simp [text]
  · rintro (⟨rfl, same⟩ | ⟨keeps, d₀, ⟨before, added, after, rfl, same, kept, rfl⟩, rfl⟩)
    · exact ⟨operations, d, [], rfl, same, by simp, rfl⟩
    · refine ⟨before, added, after ++ [operation], by simp, same, fun later member => ?_, ?_⟩
      · rcases List.mem_append.1 member with member | member
        · exact kept later member
        · rw [List.mem_singleton.1 member]
          exact keeps
      · rw [List.filterMap_append, List.foldl_append]
        cases text : operation.text? p <;> simp [text]

theorem held_concat (operations : List Operation) (operation : Operation) (p : Path) :
    held (operations ++ [operation]) p = operation.put p (held operations p) := by
  rw [held, List.foldl_append]
  rfl

/-- The single map holds what was added last. -/
theorem held_eq_some_iff (operations : List Operation) (p : Path) (project : String)
    (d : Document) : held operations p = some (project, d) ↔ LastAdded operations p project d := by
  induction operations using List.reverseRecOn generalizing project d with
  | nil => simp [held, LastAdded]
  | append_singleton operations operation ih =>
    rw [lastAdded_concat, held_concat]
    simp only [← ih]
    cases operation with
    | add project' d' =>
      by_cases same : p.components = d'.path.components
      · simp only [Operation.put, Operation.Replaces, same, if_true, not_true, false_and, or_false,
          Option.some.injEq, Prod.mk.injEq, Operation.add.injEq]
        constructor
        · rintro ⟨rfl, rfl⟩
          exact ⟨⟨rfl, rfl⟩, rfl⟩
        · exact And.left
      · have put : Operation.put p (held operations p) (.add project' d') = held operations p :=
          if_neg same
        rw [put]
        refine ⟨fun found => .inr ⟨same, d, found, rfl⟩, ?_⟩
        rintro (⟨added, here⟩ | ⟨_, d₀, found, rfl⟩)
        · cases added
          exact absurd here same
        · exact found
    | remove q =>
      by_cases same : p.components = q.components <;>
        simp [Operation.put, Operation.Replaces, Operation.text?, same]
    | setText q text =>
      by_cases same : p.components = q.components
      · simp only [Operation.put, Operation.Replaces, Operation.text?, same, if_true,
          Option.map_eq_some_iff, reduceCtorEq, false_and, false_or, not_false_eq_true, true_and,
          Option.elim_some, Prod.exists, Prod.mk.injEq]
        constructor
        · rintro ⟨project', d₀, found, rfl, rfl⟩
          exact ⟨d₀, found, rfl⟩
        · rintro ⟨d₀, found, rfl⟩
          exact ⟨project, d₀, found, rfl, rfl⟩
      · simp [Operation.put, Operation.Replaces, Operation.text?, same]

/-! ### The single map -/

/-- A workspace that holds what a single map does, every document under its own path. -/
structure Holds (w : Workspace) (held : Path → Option (String × Document)) : Prop where
  tidy : w.Tidy
  filled : w.Filled
  entries : ∀ name p, w.held? name p =
    (held p).bind fun e => if name = e.1 then some (e.2.path, e.2) else none

theorem holds_empty : empty.Holds fun _ => none where
  tidy := tidy_empty
  filled name docs found := by cases found
  entries _ _ := rfl

theorem holds_perform {w : Workspace} {held : Path → Option (String × Document)}
    (holds : w.Holds held) (operation : Operation) :
    (w.perform operation).Holds fun p => operation.put p (held p) := by
  cases operation with
  | add project d =>
    refine ⟨tidy_add holds.tidy project d, filled_add holds.tidy project d, fun name p => ?_⟩
    rw [perform, held?_add holds.tidy, holds.entries, Operation.put]
    split <;> rfl
  | remove q =>
    refine ⟨tidy_remove holds.tidy q, filled_remove holds.tidy q, fun name p => ?_⟩
    rw [perform, held?_remove holds.tidy, holds.entries, Operation.put]
    split <;> rfl
  | setText q text =>
    refine ⟨tidy_modify holds.tidy (path_of_kept holds.tidy fun _ => rfl),
      filled_modify holds.tidy holds.filled q _, fun name p => ?_⟩
    rw [perform, held?_modify holds.tidy, holds.entries, Operation.put]
    split
    · cases held p with
      | none => rfl
      | some e =>
        simp only [Option.bind_some, Option.map_some]
        split <;> rfl
    · rfl

theorem holds_performed (operations : List Operation) :
    (performed operations).Holds (held operations) := by
  induction operations using List.reverseRecOn with
  | nil => exact holds_empty
  | append_singleton operations operation ih =>
    rw [performed, List.foldl_append, funext (held_concat operations operation)]
    exact holds_perform ih operation

/-- What a workspace shows of the single map that it is. -/
structure Refines (w : Workspace) (held : Path → Option (String × Document)) : Prop where
  /-- Documents are under their own paths, and a path is in one project at most. -/
  tidy : w.Tidy
  /-- No project is empty. -/
  filled : w.Filled
  document : ∀ p, w.find? p = (held p).map (·.2)
  project : ∀ p, w.projectOf? p = (held p).map (·.1)
  /-- Every document is listed, and nothing else is. -/
  listed : ∀ d, d ∈ w.documents ↔ ∃ p name, held p = some (name, d)
  /-- Documents come in strictly increasing path order, so no one comes twice. -/
  ascending : w.documents.Pairwise fun d d' => compare d.path d'.path = .lt
  size : w.size = w.documents.length
  /-- To drop or to change a document where it is met first is to do so in all projects. -/
  dropped : ∀ p, (w.remove p).projects =
    (w.projects.mapValues fun _ docs => docs.erase p).filter fun _ docs => !docs.isEmpty
  changed : ∀ p f, (w.modify p f).projects = w.projects.mapValues fun _ docs => docs.modify p f

theorem size_eq_length_documents (w : Workspace) : w.size = w.documents.length := by
  rw [documents, (sortOn_perm _ _).length_eq, size]
  induction w.projects.values with
  | nil => rfl
  | cons docs rest ih =>
    rw [List.foldr_cons, ih, List.flatMap_cons, List.length_append, Table.values, List.length_map,
      Table.size]

/-- The document that a project has for a path is the one that is held for it. -/
theorem Holds.within {w : Workspace} {held : Path → Option (String × Document)}
    (holds : w.Holds held) (p : Path) (name : String) (d : Document) :
    (∃ docs, w.projects.get? name = some docs ∧ docs.get? p = some d) ↔
      held p = some (name, d) := by
  have entry := holds.entries name p
  rw [held?] at entry
  constructor
  · rintro ⟨docs, project, here⟩
    rw [← Table.map_keyed?] at here
    obtain ⟨e, keyed, rfl⟩ := Option.map_eq_some_iff.1 here
    rw [project, Option.bind_some, keyed] at entry
    obtain ⟨⟨name', d⟩, found, same⟩ := Option.bind_eq_some_iff.1 entry.symm
    split at same
    · next names =>
      cases same
      rw [found, names]
    · cases same
  · intro found
    rw [found, Option.bind_some, if_pos rfl] at entry
    obtain ⟨docs, project, keyed⟩ := Option.bind_eq_some_iff.1 entry
    refine ⟨docs, project, ?_⟩
    rw [← Table.map_keyed?, keyed]
    rfl

theorem Holds.refines {w : Workspace} {held : Path → Option (String × Document)}
    (holds : w.Holds held) : w.Refines held := by
  have tidy := holds.tidy
  have document : ∀ p, w.find? p = (held p).map (·.2) := by
    intro p
    apply Option.ext
    intro d
    rw [find?_eq_some_iff tidy]
    simp only [holds.within, Option.map_eq_some_iff, Prod.exists, exists_eq_right]
  refine ⟨tidy, holds.filled, document, fun p => ?_, fun d => ?_, ?_, size_eq_length_documents w,
    projects_remove tidy, projects_modify tidy⟩
  · apply Option.ext
    intro name
    rw [projectOf?_eq_some_iff tidy]
    simp only [Table.contains, Option.isSome_iff_exists, Option.map_eq_some_iff, Prod.exists]
    constructor
    · rintro ⟨docs, project, d, here⟩
      exact ⟨name, d, (holds.within p name d).1 ⟨docs, project, here⟩, rfl⟩
    · rintro ⟨name, d, found, rfl⟩
      obtain ⟨docs, project, here⟩ := (holds.within p name d).2 found
      exact ⟨docs, project, d, here⟩
  · rw [mem_documents_iff tidy]
    constructor
    · intro found
      rw [document] at found
      obtain ⟨⟨name, d⟩, found, rfl⟩ := Option.map_eq_some_iff.1 found
      exact ⟨_, name, found⟩
    · rintro ⟨p, name, found⟩
      have here : w.find? p = some d := by rw [document, found]; rfl
      rw [find?_congr w (path_of_find? tidy here), here]
  · refine ((sorted_documents w).and (pairwise_documents tidy)).imp ?_
    rintro d d' ⟨ordered, apart⟩
    cases order : compare d.path d'.path with
    | lt => rfl
    | eq => exact absurd ((Path.compare_eq_iff _ _).1 order) apart
    | gt => exact absurd order ordered

/-- After any operations a workspace is a single map, which holds for every path the document that
was added last and not removed since, with the texts it was given since, and its project. -/
theorem refines_single_map (operations : List Operation) :
    (performed operations).Refines (held operations) ∧
      ∀ p project d, held operations p = some (project, d) ↔
        LastAdded operations p project d :=
  ⟨(holds_performed operations).refines, held_eq_some_iff operations⟩

/-- A document that is added again moves to its new project, and the one it leaves is gone. -/
example :
    let w := performed [.add "Misc" { path := .of "g/a.g4", text := "a : 'x' ;" },
      .add "Other" { path := .of "g/b.g4", text := "b : 'y' ;" },
      .add "Misc" { path := .of "g/b.g4", text := "b : 'z' ;" }, .setText (.of "g/b.g4") "b : ;"]
    w.projectNames = ["Misc"] ∧ w.size = 2 ∧
      (w.find? (.of "g/b.g4")).map (·.text) = some "b : ;" := by decide +kernel

end GrammarIndex.Workspace
