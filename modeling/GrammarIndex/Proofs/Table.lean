import GrammarIndex.Path

/-!
Tables and sets through what is found in them.

Keys that compare equal find the same value. An entry is found under its key, and every value that
is found is an entry. Tables keyed by paths are stated through components, tables with lawful keys
through equality. Where the spelling of keys matters, a table is seen through its entries.
-/
namespace GrammarIndex

namespace Table

variable {κ α β : Type} [Ord κ]

section Trans

variable [Std.TransOrd κ]

theorem lookup_congr {k q : κ} (same : compare k q = .eq) (l : List (κ × α)) :
    lookup k l = lookup q l := by
  induction l with
  | nil => rfl
  | cons head tail ih =>
    obtain ⟨k', a⟩ := head
    simp only [lookup, Std.TransCmp.congr_left same, ih]

theorem get?_congr (t : Table κ α) {k q : κ} (same : compare k q = .eq) : t.get? k = t.get? q :=
  lookup_congr same t.entries

theorem lookup_of_mem {k : κ} {a : α} {l : List (κ × α)}
    (sorted : l.Pairwise fun x y => compare x.1 y.1 = .lt) (member : (k, a) ∈ l) :
    lookup k l = some a := by
  induction l with
  | nil => cases member
  | cons head tail ih =>
    obtain ⟨k', a'⟩ := head
    obtain ⟨below, tailSorted⟩ := List.pairwise_cons.1 sorted
    rcases List.mem_cons.1 member with same | member
    · cases same
      simp [lookup, Std.ReflCmp.compare_self]
    · have apart : compare k k' ≠ .eq := by
        have lower : compare k' k = .lt := below (k, a) member
        intro equal
        rw [Std.OrientedCmp.eq_symm equal] at lower
        cases lower
      simp [lookup, apart, ih tailSorted member]

/-- Every entry is found under its key. -/
theorem get?_of_mem {t : Table κ α} {k : κ} {a : α} (member : (k, a) ∈ t.entries) :
    t.get? k = some a :=
  lookup_of_mem t.sorted member

omit [Std.TransOrd κ] in
theorem mem_of_lookup {k : κ} {a : α} {l : List (κ × α)} (found : lookup k l = some a) :
    ∃ k', (k', a) ∈ l ∧ compare k k' = .eq := by
  induction l with
  | nil => cases found
  | cons head tail ih =>
    obtain ⟨k', a'⟩ := head
    simp only [lookup] at found
    split at found
    case isTrue same =>
      cases found
      exact ⟨k', by simp, same⟩
    case isFalse =>
      obtain ⟨q, member, same⟩ := ih found
      exact ⟨q, by simp [member], same⟩

omit [Std.TransOrd κ] in
/-- Every value that is found belongs to an entry. -/
theorem mem_of_get? {t : Table κ α} {k : κ} {a : α} (found : t.get? k = some a) :
    ∃ k', (k', a) ∈ t.entries ∧ compare k k' = .eq :=
  mem_of_lookup found

theorem mem_values_iff {t : Table κ α} {a : α} : a ∈ t.values ↔ ∃ k, t.get? k = some a := by
  constructor
  · intro member
    obtain ⟨⟨k, a'⟩, entry, rfl⟩ := List.mem_map.1 member
    exact ⟨k, get?_of_mem entry⟩
  · rintro ⟨k, found⟩
    obtain ⟨k', entry, _⟩ := mem_of_get? found
    exact List.mem_map.2 ⟨(k', a), entry, rfl⟩

theorem contains_iff {t : Table κ α} {k : κ} :
    t.contains k = true ↔ ∃ k' ∈ t.keys, compare k k' = .eq := by
  rw [contains, Option.isSome_iff_exists]
  constructor
  · rintro ⟨a, found⟩
    obtain ⟨k', entry, same⟩ := mem_of_get? found
    exact ⟨k', List.mem_map.2 ⟨(k', a), entry, rfl⟩, same⟩
  · rintro ⟨k', member, same⟩
    obtain ⟨⟨k'', a⟩, entry, rfl⟩ := List.mem_map.1 member
    exact ⟨a, by rw [get?_congr t same, get?_of_mem entry]⟩

theorem contains_of_mem_keys {t : Table κ α} {k : κ} (member : k ∈ t.keys) : t.contains k = true :=
  contains_iff.2 ⟨k, member, Std.ReflCmp.compare_self⟩

theorem isEmpty_eq_false_iff {t : Table κ α} :
    t.isEmpty = false ↔ ∃ k, t.contains k = true := by
  rw [isEmpty, List.isEmpty_eq_false_iff_exists_mem]
  constructor
  · rintro ⟨e, entry⟩
    exact ⟨e.1, contains_of_mem_keys (List.mem_map.2 ⟨e, entry, rfl⟩)⟩
  · rintro ⟨k, present⟩
    obtain ⟨k', member, _⟩ := contains_iff.1 present
    obtain ⟨e, entry, _⟩ := List.mem_map.1 member
    exact ⟨e, entry⟩

/-- A value put under a key that is there leaves the keys as they are spelled. -/
theorem keys_insert_of_contains {t : Table κ α} {k : κ} (a : α) (present : t.contains k = true) :
    (t.insert k a).keys = t.keys := by
  have step : ∀ l : List (κ × α), l.Pairwise (fun x y => compare x.1 y.1 = .lt) →
      (∃ e ∈ l, compare k e.1 = .eq) → (insertEntry k a l).map (·.1) = l.map (·.1) := by
    intro l
    induction l with
    | nil => rintro _ ⟨e, member, _⟩; cases member
    | cons head tail ih =>
      obtain ⟨k', a'⟩ := head
      intro sorted ⟨e, member, same⟩
      obtain ⟨below, tailSorted⟩ := List.pairwise_cons.1 sorted
      rw [insertEntry]
      split
      case h_1 lower =>
        rcases List.mem_cons.1 member with rfl | member
        · rw [lower] at same; cases same
        · have := Std.TransCmp.lt_trans lower (below e member)
          rw [same] at this; cases this
      case h_2 => rfl
      case h_3 upper =>
        rcases List.mem_cons.1 member with rfl | member
        · rw [upper] at same; cases same
        · simp [ih tailSorted ⟨e, member, same⟩]
  obtain ⟨k', member, same⟩ := contains_iff.1 present
  obtain ⟨e, entry, rfl⟩ := List.mem_map.1 member
  exact step t.entries t.sorted ⟨e, entry, same⟩

theorem contains_insert (t : Table κ α) (k q : κ) (a : α) :
    (t.insert k a).contains q = true ↔ compare q k = .eq ∨ t.contains q = true := by
  rw [contains, get?_insert]
  split <;> simp_all [contains]

omit [Std.TransOrd κ] in
/-- The keys are strictly increasing. -/
theorem pairwise_keys (t : Table κ α) : t.keys.Pairwise fun k q => compare k q = .lt :=
  List.pairwise_map.2 t.sorted

theorem nodup_entries (t : Table κ α) : t.entries.Nodup := by
  refine t.sorted.imp ?_
  intro a b lower same
  have equal : compare a.1 b.1 = .eq := by rw [same]; exact Std.ReflCmp.compare_self
  rw [equal] at lower
  cases lower

/-- A table is what it lists. -/
theorem ext_entries {t u : Table κ α} (same : ∀ e, e ∈ t.entries ↔ e ∈ u.entries) : t = u := by
  apply Table.ext
  have perm := (List.perm_ext_iff_of_nodup t.nodup_entries u.nodup_entries).2 same
  -- Both lists are strictly increasing, so their members stand in one order.
  refine perm.eq_of_pairwise ?_ t.sorted u.sorted
  intro a b _ _ lower upper
  rw [Std.OrientedCmp.gt_of_lt lower] at upper
  cases upper

/-! ### The spelling of keys -/

/-- The table whose values say how their key is spelled. -/
def spelled (t : Table κ α) : Table κ (κ × α) := t.mapValues fun k a => (k, a)

/-- The entry for a key, with the key as it is spelled there. -/
def keyed? (t : Table κ α) (k : κ) : Option (κ × α) := t.spelled.get? k

omit [Std.TransOrd κ] in
theorem map_keyed? (t : Table κ α) (k : κ) : (t.keyed? k).map (·.2) = t.get? k := by
  show (lookup k (t.entries.map fun e => (e.1, e))).map (·.2) = lookup k t.entries
  induction t.entries with
  | nil => rfl
  | cons e l ih =>
    simp only [List.map_cons, lookup]
    split
    · rfl
    · exact ih

theorem mem_entries_iff {t : Table κ α} {e : κ × α} : e ∈ t.entries ↔ t.keyed? e.1 = some e := by
  constructor
  · intro member
    exact get?_of_mem (t := t.spelled) (List.mem_map.2 ⟨e, member, rfl⟩)
  · intro found
    obtain ⟨k, member, _⟩ := mem_of_get? found
    obtain ⟨e', listed, same⟩ := List.mem_map.1 member
    cases same
    exact listed

/-- With the spelling of its keys, a table is what is found in it. -/
theorem ext_keyed? {t u : Table κ α} (same : ∀ k, t.keyed? k = u.keyed? k) : t = u := by
  apply ext_entries
  intro e
  rw [mem_entries_iff, mem_entries_iff, same]

theorem keyed?_congr (t : Table κ α) {k q : κ} (same : compare k q = .eq) :
    t.keyed? k = t.keyed? q :=
  t.spelled.get?_congr same

theorem keyed?_erase (t : Table κ α) (k q : κ) :
    (t.erase k).keyed? q = if compare q k = .eq then none else t.keyed? q := by
  have erased : (t.erase k).spelled = t.spelled.erase k := by
    apply Table.ext
    simp only [erase, filter, spelled, mapValues, List.filter_map]
    rfl
  rw [keyed?, erased, get?_erase]
  rfl

theorem keyed?_modify (t : Table κ α) (k q : κ) (f : α → α) :
    (t.modify k f).keyed? q =
      if compare q k = .eq then (t.keyed? q).map fun e => (e.1, f e.2) else t.keyed? q := by
  have changed : (t.modify k f).spelled = t.spelled.modify k fun e => (e.1, f e.2) := by
    apply Table.ext
    simp only [modify, spelled, mapValues, List.map_map]
    apply List.map_congr_left
    intro e _
    simp only [Function.comp_apply]
    split <;> rfl
  rw [keyed?, changed, get?_modify]
  rfl

omit [Std.TransOrd κ] in
theorem lookup_of_below {k : κ} {l : List (κ × α)} (below : ∀ e ∈ l, compare k e.1 = .lt) :
    lookup k l = none := by
  cases found : lookup k l with
  | none => rfl
  | some a =>
    obtain ⟨k', member, same⟩ := mem_of_lookup found
    rw [below (k', a) member] at same
    cases same

/-- Inserting under a key that is there keeps its spelling. -/
theorem spelled_insert (t : Table κ α) (k : κ) (a : α) :
    (t.insert k a).spelled = t.spelled.insert k (((t.keyed? k).map (·.1)).getD k, a) := by
  obtain ⟨l, sorted⟩ := t
  apply Table.ext
  show (insertEntry k a l).map (fun e => (e.1, e)) = insertEntry k
    (((lookup k (l.map fun e => (e.1, e))).map (·.1)).getD k, a) (l.map fun e => (e.1, e))
  induction l with
  | nil => rfl
  | cons e l ih =>
    obtain ⟨k', a'⟩ := e
    obtain ⟨below, rest⟩ := List.pairwise_cons.1 sorted
    simp only [List.map_cons, insertEntry, lookup]
    cases order : compare k k' with
    | lt =>
      have absent : lookup k (l.map fun e => (e.1, e)) = none := by
        apply lookup_of_below
        intro x member
        obtain ⟨e, listed, rfl⟩ := List.mem_map.1 member
        exact Std.TransCmp.lt_trans order (below e listed)
      simp [absent]
    | eq => simp
    | gt => simpa using ih rest

theorem keyed?_insert (t : Table κ α) (k q : κ) (a : α) :
    (t.insert k a).keyed? q =
      if compare q k = .eq then some (((t.keyed? k).map (·.1)).getD k, a) else t.keyed? q := by
  rw [keyed?, spelled_insert, get?_insert]
  rfl

end Trans

end Table

namespace OrderedSet

variable {κ : Type} [Ord κ] [Std.TransOrd κ]

theorem contains_addAll (s : OrderedSet κ) (l : List κ) (q : κ) :
    (addAll s l).contains q = true ↔ s.contains q = true ∨ ∃ k ∈ l, compare q k = .eq := by
  unfold addAll
  induction l generalizing s with
  | nil => simp
  | cons k rest ih =>
    rw [List.foldl_cons, ih, contains_add]
    simp only [Bool.or_eq_true, decide_eq_true_eq, List.mem_cons, exists_eq_or_imp]
    constructor
    · rintro ((same | present) | found)
      · exact .inr (.inl same)
      · exact .inl present
      · exact .inr (.inr found)
    · rintro (present | same | found)
      · exact .inl (.inr present)
      · exact .inl (.inl same)
      · exact .inr found

theorem contains_ofList (l : List κ) (q : κ) :
    (ofList l).contains q = true ↔ ∃ k ∈ l, compare q k = .eq := by
  rw [ofList, contains_addAll]
  simp [Table.contains]

/-- The members of a set, as spelled. -/
theorem contains_iff_mem_toList {s : OrderedSet κ} {q : κ} :
    s.contains q = true ↔ ∃ k ∈ s.toList, compare q k = .eq :=
  Table.contains_iff

theorem contains_erase (s : OrderedSet κ) (k q : κ) :
    (Table.erase s k).contains q = true ↔ compare q k ≠ .eq ∧ s.contains q = true := by
  rw [Table.contains, Table.get?_erase]
  split <;> simp_all [Table.contains]

end OrderedSet

/-! ### Lawful keys -/

namespace Table

variable {κ α : Type} [Ord κ] [Std.TransOrd κ] [Std.LawfulEqOrd κ] [DecidableEq κ]

theorem get?_insert_lawful (t : Table κ α) (k q : κ) (a : α) :
    (t.insert k a).get? q = if q = k then some a else t.get? q := by
  rw [get?_insert]
  simp only [Std.LawfulEqCmp.compare_eq_iff_eq]

theorem get?_erase_lawful (t : Table κ α) (k q : κ) :
    (t.erase k).get? q = if q = k then none else t.get? q := by
  rw [get?_erase]
  simp only [Std.LawfulEqCmp.compare_eq_iff_eq]

omit [DecidableEq κ] in
/-- With lawful keys, what is found is what is listed. -/
theorem get?_eq_some_iff {t : Table κ α} {k : κ} {a : α} :
    t.get? k = some a ↔ (k, a) ∈ t.entries := by
  constructor
  · intro found
    obtain ⟨k', entry, same⟩ := mem_of_get? found
    rw [Std.LawfulEqCmp.compare_eq_iff_eq] at same
    exact same ▸ entry
  · exact get?_of_mem

omit [DecidableEq κ] in
theorem mem_keys_iff {t : Table κ α} {k : κ} : k ∈ t.keys ↔ t.contains k = true := by
  rw [contains_iff]
  simp only [Std.LawfulEqCmp.compare_eq_iff_eq, exists_eq_right']

omit [DecidableEq κ] in
/-- With lawful keys, a table is what is found in it. -/
theorem ext_get? {t u : Table κ α} (same : ∀ k, t.get? k = u.get? k) : t = u := by
  apply ext_entries
  intro entry
  obtain ⟨k, a⟩ := entry
  rw [← get?_eq_some_iff, ← get?_eq_some_iff, same]

end Table

namespace OrderedSet

variable {κ : Type} [Ord κ] [Std.TransOrd κ] [Std.LawfulEqOrd κ]

/-- With lawful members, the set of a list lists what the list does. -/
theorem mem_toList_ofList {l : List κ} {k : κ} : k ∈ (ofList l).toList ↔ k ∈ l := by
  have listed := contains_ofList l k
  rw [contains_iff_mem_toList] at listed
  simpa only [Std.LawfulEqCmp.compare_eq_iff_eq, exists_eq_right'] using listed

/-- With lawful members, only membership matters to the set of a list. -/
theorem ofList_congr {l l' : List κ} (same : ∀ k, k ∈ l ↔ k ∈ l') : ofList l = ofList l' := by
  apply Table.ext_get?
  intro k
  have present : (ofList l).contains k = (ofList l').contains k := by
    rw [Bool.eq_iff_iff, contains_ofList, contains_ofList]
    simp only [Std.LawfulEqCmp.compare_eq_iff_eq, exists_eq_right', same]
  rw [Table.contains, Table.contains] at present
  cases left : Table.get? (ofList l) k with
  | some u =>
    rw [left] at present
    exact (Option.isSome_iff_exists.1 present.symm).elim fun _ found => found.symm
  | none =>
    rw [left] at present
    exact (Option.isNone_iff_eq_none.1 (Option.isSome_eq_false_iff.1 present.symm)).symm

end OrderedSet

/-! ### Paths -/

namespace PathTable

variable {α : Type}

theorem get?_congr (t : PathTable α) {p q : Path} (same : p.components = q.components) :
    t.get? p = t.get? q :=
  Table.get?_congr t ((Path.compare_eq_iff p q).2 same)

theorem get?_insert (t : PathTable α) (p q : Path) (a : α) :
    (t.insert p a).get? q = if q.components = p.components then some a else t.get? q := by
  rw [Table.get?_insert]
  simp only [Path.compare_eq_iff]

theorem get?_erase (t : PathTable α) (p q : Path) :
    (t.erase p).get? q = if q.components = p.components then none else t.get? q := by
  rw [Table.get?_erase]
  simp only [Path.compare_eq_iff]

theorem get?_erase_eq_some {t : PathTable α} {p q : Path} {a : α} :
    (t.erase p).get? q = some a ↔ q.components ≠ p.components ∧ t.get? q = some a := by
  rw [get?_erase]
  by_cases same : q.components = p.components <;> simp [same]

theorem contains_iff {t : PathTable α} {p : Path} :
    t.contains p = true ↔ ∃ q ∈ t.keys, p.components = q.components := by
  rw [Table.contains_iff]
  simp only [Path.compare_eq_iff]

theorem keyed?_congr (t : PathTable α) {p q : Path} (same : p.components = q.components) :
    t.keyed? p = t.keyed? q :=
  Table.keyed?_congr t ((Path.compare_eq_iff p q).2 same)

theorem keyed?_insert (t : PathTable α) (p q : Path) (a : α) :
    (t.insert p a).keyed? q = if q.components = p.components
      then some (((t.keyed? p).map (·.1)).getD p, a) else t.keyed? q := by
  rw [Table.keyed?_insert]
  simp only [Path.compare_eq_iff]

theorem keyed?_erase (t : PathTable α) (p q : Path) :
    (t.erase p).keyed? q = if q.components = p.components then none else t.keyed? q := by
  rw [Table.keyed?_erase]
  simp only [Path.compare_eq_iff]

theorem keyed?_modify (t : PathTable α) (p q : Path) (f : α → α) :
    (t.modify p f).keyed? q = if q.components = p.components
      then (t.keyed? q).map fun e => (e.1, f e.2) else t.keyed? q := by
  rw [Table.keyed?_modify]
  simp only [Path.compare_eq_iff]

/-- The table without the spelling of its keys. -/
def byComponents (t : PathTable α) : Table (List Component) α :=
  ⟨t.entries.map fun e => (e.1.components, e.2), List.pairwise_map.2 t.sorted⟩

theorem get?_byComponents {t : PathTable α} {k : List Component} {a : α} :
    t.byComponents.get? k = some a ↔ ∃ p, p.components = k ∧ t.get? p = some a := by
  rw [Table.get?_eq_some_iff, byComponents, List.mem_map]
  constructor
  · intro listed
    obtain ⟨⟨p, b⟩, entry, same⟩ := listed
    cases same
    exact ⟨p, rfl, Table.get?_of_mem entry⟩
  · intro held
    obtain ⟨p, spelled, found⟩ := held
    obtain ⟨q, entry, same⟩ := Table.mem_of_get? found
    exact ⟨(q, a), entry, by rw [← spelled, (Path.compare_eq_iff p q).1 same]⟩

/-- Up to spelling, a table is what is found in it. -/
theorem byComponents_congr {t u : PathTable α} (same : ∀ p, t.get? p = u.get? p) :
    t.byComponents = u.byComponents := by
  apply Table.ext_get?
  intro k
  apply Option.ext
  intro a
  rw [get?_byComponents, get?_byComponents]
  simp only [same]

theorem get?_mapValues {β : Type} (t : PathTable α) (f : α → β) (p : Path) :
    (t.mapValues fun _ a => f a).get? p = (t.get? p).map f :=
  Table.lookup_map (fun _ a => f a) p t.entries fun _ _ _ => rfl

end PathTable

namespace PathSet

theorem contains_congr (s : PathSet) {p q : Path} (same : p.components = q.components) :
    s.contains p = s.contains q := by
  rw [Table.contains, Table.contains, PathTable.get?_congr s same]

theorem contains_add (s : PathSet) (p q : Path) :
    (OrderedSet.add s p).contains q = true ↔
      q.components = p.components ∨ s.contains q = true := by
  rw [OrderedSet.contains_add]
  simp [Path.compare_eq_iff]

theorem contains_addAll (s : PathSet) (l : List Path) (q : Path) :
    (OrderedSet.addAll s l).contains q = true ↔
      s.contains q = true ∨ ∃ p ∈ l, q.components = p.components := by
  rw [OrderedSet.contains_addAll]
  simp only [Path.compare_eq_iff]

theorem contains_ofList (l : List Path) (q : Path) :
    (OrderedSet.ofList l).contains q = true ↔ ∃ p ∈ l, q.components = p.components := by
  rw [OrderedSet.contains_ofList]
  simp only [Path.compare_eq_iff]

theorem contains_iff_mem_toList {s : PathSet} {q : Path} :
    s.contains q = true ↔ ∃ p ∈ OrderedSet.toList s, q.components = p.components := by
  rw [OrderedSet.contains_iff_mem_toList]
  simp only [Path.compare_eq_iff]

theorem contains_erase (s : PathSet) (p q : Path) :
    (Table.erase s p).contains q = true ↔
      q.components ≠ p.components ∧ s.contains q = true := by
  rw [OrderedSet.contains_erase, Ne, Path.compare_eq_iff]

/-- No two members of a set are spellings of one path. -/
theorem pairwise_toList (s : PathSet) :
    (OrderedSet.toList s).Pairwise fun p q => p.components ≠ q.components := by
  refine (Table.pairwise_keys s).imp fun lower same => ?_
  rw [(Path.compare_eq_iff _ _).2 same] at lower
  cases lower

end PathSet

end GrammarIndex
