import GrammarIndex.Dependency
import GrammarIndex.Proofs.Table

/-!
The edges of the dependency graph.

Recording adds one edge, in both directions, and takes none away. Clearing a file takes away edges
of that file only: all that it keeps, and these are found in the other direction too.
-/
namespace GrammarIndex.DependencyGraph

/-- A file is known to refer into another. -/
def Refers (g : DependencyGraph) (file on : Path) : Prop :=
  (g.dependentsOf on).contains file = true

theorem Refers.congr {g : DependencyGraph} {file on file' on' : Path} (refers : g.Refers file on)
    (same : file.components = file'.components) (sameOn : on.components = on'.components) :
    g.Refers file' on' := by
  rw [Refers, dependentsOf, ← PathTable.get?_congr g.dependents sameOn,
    ← PathSet.contains_congr _ same]
  exact refers

/-- Members of the set under a key. -/
def Under (t : PathTable PathSet) (k member : Path) : Prop :=
  ((t.get? k).getD ∅).contains member = true

theorem under_link (t : PathTable PathSet) (k member q r : Path) :
    Under (link t k member) q r ↔
      (q.components = k.components ∧ r.components = member.components) ∨ Under t q r := by
  rw [Under, link, PathTable.get?_insert]
  by_cases same : q.components = k.components
  · rw [if_pos same, Option.getD_some, PathSet.contains_add, Under, PathTable.get?_congr t same]
    simp only [same, true_and]
  · simp only [same, if_false, false_and, false_or]
    rfl

theorem under_unlink (t : PathTable PathSet) (k member q r : Path) :
    Under (unlink t k member) q r ↔
      Under t q r ∧ ¬(q.components = k.components ∧ r.components = member.components) := by
  unfold unlink
  cases found : t.get? k with
  | none =>
    simp only [Under]
    constructor
    · intro present
      refine ⟨present, fun both => ?_⟩
      rw [PathTable.get?_congr t both.1, found] at present
      cases present
    · exact And.left
  | some set =>
    have rest : ∀ r : Path, (Table.erase set member).contains r = true ↔
        r.components ≠ member.components ∧ Table.contains set r = true :=
      PathSet.contains_erase set member
    by_cases same : q.components = k.components
    · have before : Under t q r ↔ Table.contains set r = true := by
        rw [Under, PathTable.get?_congr t same, found]
        rfl
      simp only [before, same, true_and]
      split
      · next empty =>
        -- An empty rest has no members.
        have none_ : ¬ (Table.erase set member).contains r = true := fun present => by
          rw [Table.isEmpty_eq_false_iff.2 ⟨r, present⟩] at empty
          cases empty
        rw [Under, PathTable.get?_erase, if_pos same, rest] at *
        constructor
        · intro present
          cases present
        · rintro ⟨present, other⟩
          exact absurd ⟨other, present⟩ none_
      · rw [Under, PathTable.get?_insert, if_pos same, Option.getD_some, rest]
        exact and_comm
    · simp only [same, false_and, not_false_eq_true, and_true]
      split
      · rw [Under, PathTable.get?_erase, if_neg same]
        rfl
      · rw [Under, PathTable.get?_insert, if_neg same]
        rfl

theorem under_foldl_unlink (file q r : Path) (targets : List Path) (t : PathTable PathSet) :
    Under (targets.foldl (fun t target => unlink t target file) t) q r ↔
      Under t q r ∧ ∀ target ∈ targets,
        ¬(q.components = target.components ∧ r.components = file.components) := by
  induction targets generalizing t with
  | nil => simp
  | cons target targets ih =>
    rw [List.foldl_cons, ih, under_unlink, List.forall_mem_cons, and_assoc]

/-- A file does not depend on itself. -/
theorem record_of_same {g : DependencyGraph} {file on : Path}
    (same : file.components = on.components) : g.record file on = g :=
  if_pos ((Path.same_iff file on).2 same)

theorem record_of_apart {g : DependencyGraph} {file on : Path}
    (apart : file.components ≠ on.components) :
    g.record file on = ⟨link g.dependencies file on, link g.dependents on file⟩ :=
  if_neg fun same => apart ((Path.same_iff file on).1 same)

/-- Recording adds the edge between two files. -/
theorem refers_record (g : DependencyGraph) (file on q r : Path) :
    (g.record file on).Refers q r ↔
      (file.components ≠ on.components ∧ r.components = on.components ∧
        q.components = file.components) ∨ g.Refers q r := by
  by_cases same : file.components = on.components
  · simp [record_of_same same, same]
  · rw [record_of_apart same]
    show Under (link g.dependents on file) r q ↔ _
    rw [under_link]
    simp only [ne_eq, same, not_false_eq_true, true_and]
    rfl

theorem contains_dependenciesOf_record (g : DependencyGraph) (file on p q : Path) :
    ((g.record file on).dependenciesOf p).contains q = true ↔
      (file.components ≠ on.components ∧ p.components = file.components ∧
        q.components = on.components) ∨ (g.dependenciesOf p).contains q = true := by
  by_cases same : file.components = on.components
  · simp [record_of_same same, same]
  · rw [record_of_apart same]
    show Under (link g.dependencies file on) p q ↔ _
    rw [under_link]
    simp only [ne_eq, same, not_false_eq_true, true_and]
    rfl

theorem contains_dependenciesOf_clear (g : DependencyGraph) (file p q : Path) :
    ((g.clear file).dependenciesOf p).contains q = true ↔
      p.components ≠ file.components ∧ (g.dependenciesOf p).contains q = true := by
  unfold clear
  cases found : g.dependencies.get? file with
  | none =>
    refine ⟨fun kept => ⟨fun same => ?_, kept⟩, And.right⟩
    rw [dependenciesOf, PathTable.get?_congr g.dependencies same, found] at kept
    cases kept
  | some targets =>
    rw [dependenciesOf, PathTable.get?_erase]
    by_cases same : p.components = file.components
    · rw [if_pos same]
      exact iff_of_false Bool.false_ne_true fun both => both.1 same
    · rw [if_neg same]
      exact (and_iff_right same).symm

/-- Clearing a file takes away edges that it is listed to have, and no other. -/
theorem refers_clear_of_found {g : DependencyGraph} {file : Path} {targets : PathSet}
    (found : g.dependencies.get? file = some targets) (p q : Path) :
    (g.clear file).Refers p q ↔ g.Refers p q ∧
      ¬((g.dependenciesOf file).contains q = true ∧ p.components = file.components) := by
  have cleared : (g.clear file).dependents =
      (OrderedSet.toList targets).foldl (fun t target => unlink t target file) g.dependents := by
    rw [clear, found]
  show Under (g.clear file).dependents q p ↔ _
  rw [cleared, under_foldl_unlink, dependenciesOf, found, Option.getD_some,
    PathSet.contains_iff_mem_toList]
  refine and_congr_right fun _ => ⟨?_, ?_⟩
  · rintro left ⟨⟨target, listed, spelled⟩, same⟩
    exact left target listed ⟨spelled, same⟩
  · rintro apart target listed ⟨spelled, same⟩
    exact apart ⟨⟨target, listed, spelled⟩, same⟩

theorem Refers.of_clear {g : DependencyGraph} {file p q : Path}
    (refers : (g.clear file).Refers p q) : g.Refers p q := by
  cases found : g.dependencies.get? file with
  | none => rwa [clear, found] at refers
  | some targets => exact ((refers_clear_of_found found p q).1 refers).1

/-- Clearing a file leaves the edges of all other files. -/
theorem refers_clear (g : DependencyGraph) {file q : Path} (other : q.components ≠ file.components)
    (r : Path) : (g.clear file).Refers q r ↔ g.Refers q r := by
  refine ⟨Refers.of_clear, fun refers => ?_⟩
  cases found : g.dependencies.get? file with
  | none => rwa [clear, found]
  | some targets =>
    exact (refers_clear_of_found found q r).2 ⟨refers, fun both => other both.2⟩

/-- Where every edge is kept with the file that it belongs to, clearing a file takes away all of its
edges. -/
theorem refers_clear_iff {g : DependencyGraph}
    (kept : ∀ p q, g.Refers p q → (g.dependenciesOf p).contains q = true) (file p q : Path) :
    (g.clear file).Refers p q ↔ p.components ≠ file.components ∧ g.Refers p q := by
  refine ⟨fun left => ⟨fun same => ?_, left.of_clear⟩,
    fun both => (g.refers_clear both.1 q).2 both.2⟩
  have own : (g.dependenciesOf file).contains q = true := by
    have kept := kept p q left.of_clear
    rwa [dependenciesOf, PathTable.get?_congr g.dependencies same] at kept
  cases found : g.dependencies.get? file with
  | none =>
    rw [dependenciesOf, found] at own
    cases own
  | some targets => exact ((refers_clear_of_found found p q).1 left).2 ⟨own, same⟩

end GrammarIndex.DependencyGraph
