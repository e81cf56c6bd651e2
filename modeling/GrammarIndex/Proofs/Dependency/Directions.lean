import GrammarIndex.Proofs.Dependency
import Mathlib.Data.Set.Card

/-!
The two directions of the dependency graph.

Every edge is kept twice, with the file that it belongs to and with the file that it leads to. After
any changes both hold the same edges: those that were recorded between two files and have not been
dropped with the edges of the first since. A key has an edge, so the keys are the files on some
edge, and the sets on one side have as many members as there are edges.
-/
namespace GrammarIndex.DependencyGraph

/-! ### Changes -/

/-- What can be asked of a graph. -/
inductive Change where
  | record (file on : Path)
  | clear (file : Path)
  | remove (file : Path)

namespace Change

/-- The graph after a change. A file that is removed loses its own edges and no other. -/
def apply (g : DependencyGraph) : Change → DependencyGraph
  | record file on => g.record file on
  | clear file => g.clear file
  | remove file => g.clear file

/-- The change notes an edge. -/
def Notes (file on : Path) : Change → Prop
  | record file' on' => file.components = file'.components ∧ on.components = on'.components
  | _ => False

/-- The change drops the edges of a file. -/
def Drops (file : Path) : Change → Prop
  | record .. => False
  | clear file' | remove file' => file.components = file'.components

end Change

/-- The graph that changes lead to. -/
def built (changes : List Change) : DependencyGraph := changes.foldl Change.apply empty

/-- An edge between two files that was noted and not dropped since. -/
def Recorded (changes : List Change) (file on : Path) : Prop :=
  file.components ≠ on.components ∧
    ∃ before note after, changes = before ++ note :: after ∧ note.Notes file on ∧
      ∀ c ∈ after, ¬c.Drops file

theorem built_concat (changes : List Change) (c : Change) :
    built (changes ++ [c]) = c.apply (built changes) := by
  rw [built, List.foldl_append]
  rfl

theorem not_recorded_nil (file on : Path) : ¬Recorded [] file on := by
  rintro ⟨_, before, note, after, split, _⟩
  cases before <;> cases split

/-- The last change notes an edge, or the edge was there before and is not dropped. -/
theorem recorded_concat (changes : List Change) (c : Change) (file on : Path) :
    Recorded (changes ++ [c]) file on ↔
      (file.components ≠ on.components ∧ c.Notes file on) ∨
        Recorded changes file on ∧ ¬c.Drops file := by
  constructor
  · rintro ⟨apart, before, note, after, split, noted, kept⟩
    rcases List.eq_nil_or_concat after with rfl | ⟨after, last, rfl⟩
    · obtain ⟨_, same⟩ := List.append_inj' split rfl
      cases same
      exact .inl ⟨apart, noted⟩
    · rw [List.concat_eq_append] at split kept
      rw [← List.cons_append, ← List.append_assoc] at split
      obtain ⟨rfl, same⟩ := List.append_inj' split rfl
      cases same
      refine .inr ⟨⟨apart, before, note, after, rfl, noted, fun c member => kept c ?_⟩, kept c ?_⟩
      · exact List.mem_append_left _ member
      · simp
  · rintro (⟨apart, noted⟩ | ⟨⟨apart, before, note, after, rfl, noted, kept⟩, stays⟩)
    · exact ⟨apart, changes, c, [], rfl, noted, by simp⟩
    · refine ⟨apart, before, note, after ++ [c], by simp, noted, fun c' member => ?_⟩
      rcases List.mem_append.1 member with old | new
      · exact kept c' old
      · rwa [List.mem_singleton.1 new]

/-! ### Sets that are not empty -/

/-- No key has an empty set. -/
def Filled (t : PathTable PathSet) : Prop := ∀ set ∈ t.values, set.isEmpty = false

theorem filled_link {t : PathTable PathSet} (filled : Filled t) (k member : Path) :
    Filled (link t k member) := by
  intro set listed
  obtain ⟨q, found⟩ := Table.mem_values_iff.1 listed
  rw [link, PathTable.get?_insert] at found
  split at found
  · cases found
    exact Table.isEmpty_eq_false_iff.2 ⟨member, (PathSet.contains_add ..).2 (.inl rfl)⟩
  · exact filled set (Table.mem_values_iff.2 ⟨q, found⟩)

theorem filled_erase {t : PathTable PathSet} (filled : Filled t) (k : Path) :
    Filled (t.erase k) := by
  intro set listed
  obtain ⟨q, found⟩ := Table.mem_values_iff.1 listed
  exact filled set (Table.mem_values_iff.2 ⟨q, (PathTable.get?_erase_eq_some.1 found).2⟩)

theorem filled_unlink {t : PathTable PathSet} (filled : Filled t) (k member : Path) :
    Filled (unlink t k member) := by
  unfold unlink
  split
  · exact filled
  · next s _ =>
    simp only
    split
    · exact filled_erase filled k
    · next rest =>
      intro set listed
      obtain ⟨q, found⟩ := Table.mem_values_iff.1 listed
      rw [PathTable.get?_insert] at found
      split at found
      · cases found
        exact Bool.eq_false_iff.2 rest
      · exact filled set (Table.mem_values_iff.2 ⟨q, found⟩)

/-- A key that is there has a member. -/
theorem contains_iff_under {t : PathTable PathSet} (filled : Filled t) {k : Path} :
    t.contains k = true ↔ ∃ member, Under t k member := by
  unfold Under
  rw [Table.contains]
  cases found : t.get? k with
  | none =>
    exact iff_of_false Bool.false_ne_true (not_exists.2 fun _ none_ => Bool.false_ne_true none_)
  | some set =>
    have some_ := filled set (Table.mem_values_iff.2 ⟨k, found⟩)
    exact iff_of_true rfl (Table.isEmpty_eq_false_iff.1 some_)

/-! ### Both directions -/

/-- Both directions hold these edges, and neither holds an empty set. -/
structure Holds (g : DependencyGraph) (edge : Path → Path → Prop) : Prop where
  outgoing : ∀ p q, Under g.dependencies p q ↔ edge p q
  incoming : ∀ p q, Under g.dependents q p ↔ edge p q
  filledOut : Filled g.dependencies
  filledIn : Filled g.dependents

theorem holds_empty : empty.Holds fun _ _ => False where
  outgoing _ _ := iff_of_false (by nofun) id
  incoming _ _ := iff_of_false (by nofun) id
  filledOut _ listed := by cases listed
  filledIn _ listed := by cases listed

variable {g : DependencyGraph} {edge : Path → Path → Prop}

theorem Holds.congr {edge' : Path → Path → Prop} (holds : g.Holds edge)
    (same : ∀ p q, edge p q ↔ edge' p q) : g.Holds edge' :=
  ⟨fun p q => (holds.outgoing p q).trans (same p q),
    fun p q => (holds.incoming p q).trans (same p q), holds.filledOut, holds.filledIn⟩

/-- Recording adds the edge on both sides. -/
theorem Holds.record (holds : g.Holds edge) (file on : Path) :
    (g.record file on).Holds fun p q =>
      (file.components ≠ on.components ∧ p.components = file.components ∧
        q.components = on.components) ∨ edge p q where
  outgoing p q :=
    (contains_dependenciesOf_record g file on p q).trans (or_congr_right (holds.outgoing p q))
  incoming p q := (refers_record g file on p q).trans
    (or_congr (and_congr_right fun _ => and_comm) (holds.incoming p q))
  filledOut := by
    unfold DependencyGraph.record
    split
    · exact holds.filledOut
    · exact filled_link holds.filledOut file on
  filledIn := by
    unfold DependencyGraph.record
    split
    · exact holds.filledIn
    · exact filled_link holds.filledIn on file

/-- Clearing a file takes its edges away on both sides, found through one side only. -/
theorem Holds.clear (holds : g.Holds edge) (file : Path) :
    (g.clear file).Holds fun p q => p.components ≠ file.components ∧ edge p q where
  outgoing p q :=
    (contains_dependenciesOf_clear g file p q).trans (and_congr_right fun _ => holds.outgoing p q)
  incoming p q :=
    (refers_clear_iff (fun p q refers => (holds.outgoing p q).2 ((holds.incoming p q).1 refers))
      file p q).trans (and_congr_right fun _ => holds.incoming p q)
  filledOut := by
    unfold DependencyGraph.clear
    split
    · exact holds.filledOut
    · exact filled_erase holds.filledOut file
  filledIn := by
    have unlinked : ∀ (l : List Path) (t : PathTable PathSet), Filled t →
        Filled (l.foldl (fun t target => unlink t target file) t) := by
      intro l
      induction l with
      | nil => exact fun _ filled => filled
      | cons target l ih => exact fun t filled => ih _ (filled_unlink filled target file)
    unfold DependencyGraph.clear
    split
    · exact holds.filledIn
    · exact unlinked _ _ holds.filledIn

/-- One change. -/
theorem Holds.apply (holds : g.Holds edge) (c : Change) :
    (c.apply g).Holds fun p q =>
      (p.components ≠ q.components ∧ c.Notes p q) ∨ edge p q ∧ ¬c.Drops p := by
  cases c with
  | record file on =>
    refine (holds.record file on).congr fun p q => or_congr ?_ (and_iff_left id).symm
    refine and_congr_left fun ⟨here, there⟩ => ?_
    rw [here, there]
  | clear file | remove file =>
    refine (holds.clear file).congr fun p q => ?_
    simp [Change.Notes, Change.Drops, and_comm]

/-- Any changes: the graph holds the edges that are recorded. -/
theorem holds_built (changes : List Change) : (built changes).Holds (Recorded changes) := by
  induction changes using List.reverseRecOn with
  | nil => exact holds_empty.congr fun p q => iff_of_false id (not_recorded_nil p q)
  | append_singleton changes c ih =>
    rw [built_concat]
    exact (ih.apply c).congr fun p q => (recorded_concat changes c p q).symm

/-! ### Counting -/

/-- The edges of one direction, as pairs of a key and a member. -/
def pairs (t : PathTable PathSet) : List (List Component × List Component) :=
  t.entries.flatMap fun e => (OrderedSet.toList e.2).map fun q => (e.1.components, q.components)

theorem length_pairs (t : PathTable PathSet) : (pairs t).length = linkCount t := by
  unfold pairs linkCount Table.values
  induction t.entries with
  | nil => rfl
  | cons e entries ih =>
    rw [List.flatMap_cons, List.length_append, ih, List.map_cons, List.foldr_cons]
    congr 1
    rw [List.length_map]
    exact List.length_map ..

/-- The members of a set are different files. -/
theorem nodup_components (s : PathSet) : ((OrderedSet.toList s).map (·.components)).Nodup :=
  List.pairwise_map.2 (PathSet.pairwise_toList s)

theorem nodup_pairs (t : PathTable PathSet) : (pairs t).Nodup := by
  refine List.nodup_flatMap.2 ⟨fun e _ => ?_, ?_⟩
  · have once := (nodup_components e.2).map (f := fun q => (e.1.components, q)) fun _ _ same =>
      (Prod.mk.inj same).2
    rwa [List.map_map] at once
  · refine t.sorted.imp fun {e e'} below => ?_
    intro pair here there
    obtain ⟨q, _, rfl⟩ := List.mem_map.1 here
    obtain ⟨q', _, same⟩ := List.mem_map.1 there
    rw [(Path.compare_eq_iff e.1 e'.1).2 (Prod.mk.inj same).1.symm] at below
    cases below

theorem mem_pairs {t : PathTable PathSet} {pair : List Component × List Component} :
    pair ∈ pairs t ↔ ∃ p q, Under t p q ∧ pair = (p.components, q.components) := by
  unfold pairs
  rw [List.mem_flatMap]
  constructor
  · rintro ⟨e, listed, here⟩
    obtain ⟨q, member, rfl⟩ := List.mem_map.1 here
    refine ⟨e.1, q, ?_, rfl⟩
    rw [Under, Table.get?_of_mem listed]
    exact PathSet.contains_iff_mem_toList.2 ⟨q, member, rfl⟩
  · rintro ⟨p, q, under, rfl⟩
    unfold Under at under
    cases found : t.get? p with
    | none => rw [found] at under; cases under
    | some set =>
      rw [found] at under
      obtain ⟨k, listed, same⟩ := Table.mem_of_get? found
      obtain ⟨r, member, spelled⟩ := PathSet.contains_iff_mem_toList.1 under
      refine ⟨(k, set), listed, List.mem_map.2 ⟨r, member, ?_⟩⟩
      rw [(Path.compare_eq_iff p k).1 same, spelled]

/-- A list that names each member of a set once has as many entries as the set has members. -/
theorem encard_of_nodup {α : Type} {l : List α} (once : l.Nodup) {s : Set α}
    (all : ∀ a, a ∈ l ↔ a ∈ s) : s.encard = l.length := by
  classical
  have same : s = ↑l.toFinset := Set.ext fun a => by rw [List.coe_toFinset, ← all]; rfl
  rw [same, Set.encard_coe_eq_coe_finsetCard, List.toFinset_card_of_nodup once]

theorem encard_members (s : PathSet) :
    {file | ∃ p, s.contains p = true ∧ file = p.components}.encard = s.size := by
  rw [encard_of_nodup (nodup_components s) fun file => ?_, List.length_map, OrderedSet.toList,
    Table.keys, List.length_map, Table.size]
  constructor
  · intro here
    obtain ⟨p, listed, rfl⟩ := List.mem_map.1 here
    exact ⟨p, PathSet.contains_iff_mem_toList.2 ⟨p, listed, rfl⟩, rfl⟩
  · rintro ⟨p, member, rfl⟩
    obtain ⟨q, listed, same⟩ := PathSet.contains_iff_mem_toList.1 member
    exact List.mem_map.2 ⟨q, listed, same.symm⟩

/-- There are as many edges as members on one side. -/
theorem Holds.encard_edges (holds : g.Holds edge) :
    {pair | ∃ p q, edge p q ∧ pair = (p.components, q.components)}.encard = g.edgeCount := by
  rw [encard_of_nodup (nodup_pairs g.dependencies) fun pair => ?_, length_pairs, edgeCount]
  rw [mem_pairs]
  simp only [holds.outgoing]
  rfl

/-- The keys of both sides are the files on some edge. -/
theorem Holds.encard_files (holds : g.Holds edge) :
    {file | ∃ p q, edge p q ∧ (file = p.components ∨ file = q.components)}.encard =
      g.fileCount := by
  rw [fileCount, ← encard_members]
  have listed : ∀ {t : PathTable PathSet} {p : Path},
      (∃ q ∈ t.keys, p.components = q.components) ↔ t.contains p = true := fun {t p} => by
    rw [Table.contains_iff]
    simp only [Path.compare_eq_iff]
  have keys : ∀ p, Table.contains (OrderedSet.addAll (OrderedSet.ofList g.dependencies.keys)
      g.dependents.keys) p = true ↔ (∃ q, edge p q) ∨ ∃ q, edge q p := by
    intro p
    rw [PathSet.contains_addAll, PathSet.contains_ofList, listed, listed,
      contains_iff_under holds.filledOut, contains_iff_under holds.filledIn]
    simp only [holds.outgoing, holds.incoming]
  simp only [keys]
  refine congrArg Set.encard (Set.ext fun file => ⟨?_, ?_⟩)
  · rintro ⟨p, q, here, rfl | rfl⟩
    · exact ⟨p, .inl ⟨q, here⟩, rfl⟩
    · exact ⟨q, .inr ⟨p, here⟩, rfl⟩
  · rintro ⟨p, ⟨q, here⟩ | ⟨q, here⟩, rfl⟩
    · exact ⟨p, q, here, .inl rfl⟩
    · exact ⟨q, p, here, .inr rfl⟩

/-- After any changes the two directions agree: a file depends on those that it is a dependent of,
not on itself, and neither direction keeps an empty set. The edges are those that were recorded and
not dropped since, and the counts are the number of edges and of files on some edge. -/
theorem directions_built (changes : List Change) :
    let g := built changes
    (∀ p q, (g.dependenciesOf p).contains q = true ↔ (g.dependentsOf q).contains p = true) ∧
      (∀ p, (g.dependenciesOf p).contains p = false) ∧
      ((∀ set ∈ g.dependencies.values, set.isEmpty = false) ∧
        ∀ set ∈ g.dependents.values, set.isEmpty = false) ∧
      (∀ p q, (g.dependenciesOf p).contains q = true ↔ Recorded changes p q) ∧
      {edge | ∃ p q, Recorded changes p q ∧ edge = (p.components, q.components)}.encard =
        g.edgeCount ∧
      {file | ∃ p q, Recorded changes p q ∧
        (file = p.components ∨ file = q.components)}.encard = g.fileCount := by
  intro g
  have holds : g.Holds (Recorded changes) := holds_built changes
  refine ⟨fun p q => (holds.outgoing p q).trans (holds.incoming p q).symm, fun p => ?_,
    ⟨holds.filledOut, holds.filledIn⟩, holds.outgoing, holds.encard_edges, holds.encard_files⟩
  exact Bool.eq_false_iff.2 fun own => ((holds.outgoing p p).1 own).1 rfl

end GrammarIndex.DependencyGraph
