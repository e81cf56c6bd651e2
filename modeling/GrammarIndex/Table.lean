/-!
Finite maps as association lists in strictly increasing key order.

The order comes from `compare`, and two keys that compare equal are one key: a table keeps the
spelling under which the key first came in. Sortedness is part of the type, so every operation
re-establishes it once and no caller has to. The main statements say what `get?` sees after
`insert`, `erase` and `filterKeys`.
-/
namespace GrammarIndex

/-- A finite map; `entries` lists it in strictly increasing key order. -/
structure Table (κ α : Type) [Ord κ] where
  entries : List (κ × α)
  sorted : entries.Pairwise fun a b => compare a.1 b.1 = .lt

/-- A finite set in strictly increasing order. -/
abbrev OrderedSet (κ : Type) [Ord κ] := Table κ Unit

namespace Table

variable {κ α β : Type} [Ord κ]

/-- The entry list with `k` bound to `a`; a key already there keeps its spelling. -/
def insertEntry (k : κ) (a : α) : List (κ × α) → List (κ × α)
  | [] => [(k, a)]
  | (k', a') :: rest =>
    match compare k k' with
    | .lt => (k, a) :: (k', a') :: rest
    | .eq => (k', a) :: rest
    | .gt => (k', a') :: insertEntry k a rest

/-- The value of the first entry whose key compares equal to `k`. -/
def lookup (k : κ) : List (κ × α) → Option α
  | [] => none
  | (k', a) :: rest => if compare k k' = .eq then some a else lookup k rest

theorem compare_lt_of_mem_insertEntry [Std.TransOrd κ] {k₀ k : κ} {a : α} {l : List (κ × α)}
    (below : ∀ e ∈ l, compare k₀ e.1 = .lt) (first : compare k₀ k = .lt) :
    ∀ e ∈ insertEntry k a l, compare k₀ e.1 = .lt := by
  induction l with
  | nil => simpa [insertEntry] using first
  | cons head tail ih =>
    obtain ⟨k', a'⟩ := head
    have here : compare k₀ k' = .lt := below (k', a') (by simp)
    have rest := ih (fun e member => below e (by simp [member]))
    unfold insertEntry
    split
    · intro e member
      rcases List.mem_cons.1 member with rfl | member
      · exact first
      · exact below e member
    · intro e member
      rcases List.mem_cons.1 member with rfl | member
      · exact here
      · exact below e (by simp [member])
    · intro e member
      rcases List.mem_cons.1 member with rfl | member
      · exact here
      · exact rest e member

theorem sorted_insertEntry [Std.TransOrd κ] (k : κ) (a : α) {l : List (κ × α)}
    (sorted : l.Pairwise fun x y => compare x.1 y.1 = .lt) :
    (insertEntry k a l).Pairwise fun x y => compare x.1 y.1 = .lt := by
  induction l with
  | nil => simp [insertEntry]
  | cons head tail ih =>
    obtain ⟨k', a'⟩ := head
    have ⟨below, tailSorted⟩ := List.pairwise_cons.1 sorted
    unfold insertEntry
    split
    case h_1 lower =>
      refine List.pairwise_cons.2 ⟨fun e member => ?_, sorted⟩
      rcases List.mem_cons.1 member with rfl | member
      · exact lower
      · exact Std.TransCmp.lt_trans lower (below e member)
    case h_2 => exact List.pairwise_cons.2 ⟨below, tailSorted⟩
    case h_3 upper =>
      exact List.pairwise_cons.2
        ⟨compare_lt_of_mem_insertEntry below (Std.OrientedCmp.lt_of_gt upper), ih tailSorted⟩

/-- The table with no entry. -/
def empty : Table κ α := ⟨[], List.Pairwise.nil⟩

instance : EmptyCollection (Table κ α) := ⟨empty⟩

instance : Inhabited (Table κ α) := ⟨empty⟩

def get? (t : Table κ α) (k : κ) : Option α := lookup k t.entries

def contains (t : Table κ α) (k : κ) : Bool := (t.get? k).isSome

def keys (t : Table κ α) : List κ := t.entries.map (·.1)

def values (t : Table κ α) : List α := t.entries.map (·.2)

def size (t : Table κ α) : Nat := t.entries.length

def isEmpty (t : Table κ α) : Bool := t.entries.isEmpty

def insert [Std.TransOrd κ] (t : Table κ α) (k : κ) (a : α) : Table κ α :=
  ⟨insertEntry k a t.entries, sorted_insertEntry k a t.sorted⟩

/-- Keep the entries that satisfy `p`. -/
def filter (t : Table κ α) (p : κ → α → Bool) : Table κ α :=
  ⟨t.entries.filter fun e => p e.1 e.2, t.sorted.sublist List.filter_sublist⟩

def erase (t : Table κ α) (k : κ) : Table κ α := t.filter fun k' _ => compare k k' != .eq

/-- Replace every value, given its key. -/
def mapValues (t : Table κ α) (f : κ → α → β) : Table κ β :=
  ⟨t.entries.map fun e => (e.1, f e.1 e.2), by
    refine List.pairwise_map.2 ?_
    exact t.sorted⟩

/-- Change the value under `k`, if there is one. -/
def modify (t : Table κ α) (k : κ) (f : α → α) : Table κ α :=
  t.mapValues fun k' a => if compare k k' = .eq then f a else a

def ofList [Std.TransOrd κ] (l : List (κ × α)) : Table κ α :=
  l.foldl (fun t e => t.insert e.1 e.2) empty

@[ext] theorem ext {s t : Table κ α} (same : s.entries = t.entries) : s = t := by
  cases s; cases t; simp_all

@[simp] theorem get?_empty (k : κ) : (∅ : Table κ α).get? k = none := rfl

theorem lookup_insertEntry_eq [Std.TransOrd κ] {k q : κ} (a : α) (l : List (κ × α))
    (same : compare q k = .eq) : lookup q (insertEntry k a l) = some a := by
  induction l with
  | nil => simp [insertEntry, lookup, same]
  | cons head tail ih =>
    obtain ⟨k', a'⟩ := head
    unfold insertEntry
    split
    case h_1 => simp [lookup, same]
    case h_2 equal => simp [lookup, Std.TransCmp.eq_trans same equal]
    case h_3 upper =>
      have : compare q k' = .gt := by rw [Std.TransCmp.congr_left same, upper]
      simp [lookup, this, ih]

theorem lookup_insertEntry_ne [Std.TransOrd κ] {k q : κ} (a : α) (l : List (κ × α))
    (other : compare q k ≠ .eq) : lookup q (insertEntry k a l) = lookup q l := by
  induction l with
  | nil => simp [insertEntry, lookup, other]
  | cons head tail ih =>
    obtain ⟨k', a'⟩ := head
    unfold insertEntry
    split
    case h_1 => simp [lookup, other]
    case h_2 equal =>
      have : compare q k' ≠ .eq := fun found =>
        other (Std.TransCmp.eq_trans found (Std.OrientedCmp.eq_symm equal))
      simp [lookup, this]
    case h_3 => simp [lookup, ih]

/-- Looking up after an insertion. -/
theorem get?_insert [Std.TransOrd κ] (t : Table κ α) (k q : κ) (a : α) :
    (t.insert k a).get? q = if compare q k = .eq then some a else t.get? q := by
  split
  case isTrue same => exact lookup_insertEntry_eq a t.entries same
  case isFalse other => exact lookup_insertEntry_ne a t.entries other

theorem lookup_filter_of_keep [Std.TransOrd κ] {q : κ} {p : κ → α → Bool} (l : List (κ × α))
    (keep : ∀ k a, compare q k = .eq → p k a = true) :
    lookup q (l.filter fun e => p e.1 e.2) = lookup q l := by
  induction l with
  | nil => rfl
  | cons head tail ih =>
    obtain ⟨k, a⟩ := head
    by_cases same : compare q k = .eq
    · simp [lookup, same, keep k a same]
    · by_cases kept : p k a = true
      · simp [lookup, same, kept, ih]
      · simp [lookup, same, kept, ih]

theorem lookup_filter_of_drop {q : κ} {p : κ → α → Bool} (l : List (κ × α))
    (drop : ∀ k a, compare q k = .eq → p k a = false) :
    lookup q (l.filter fun e => p e.1 e.2) = none := by
  induction l with
  | nil => rfl
  | cons head tail ih =>
    obtain ⟨k, a⟩ := head
    by_cases kept : p k a = true
    · have other : compare q k ≠ .eq := fun same => by simp [drop k a same] at kept
      simp [lookup, kept, other, ih]
    · simp [kept, ih]

/-- Looking up after a removal. -/
theorem get?_erase [Std.TransOrd κ] (t : Table κ α) (k q : κ) :
    (t.erase k).get? q = if compare q k = .eq then none else t.get? q := by
  split
  case isTrue same =>
    refine lookup_filter_of_drop (p := fun k' _ => compare k k' != .eq) t.entries
      fun k' a found => ?_
    simp [Std.TransCmp.eq_trans (Std.OrientedCmp.eq_symm same) found]
  case isFalse other =>
    refine lookup_filter_of_keep (p := fun k' _ => compare k k' != .eq) t.entries
      fun k' a found => ?_
    have : compare k k' ≠ .eq := fun equal =>
      other (Std.TransCmp.eq_trans found (Std.OrientedCmp.eq_symm equal))
    simpa using this

theorem lookup_map (f : κ → α → β) (q : κ) (l : List (κ × α))
    (respects : ∀ k a, compare q k = .eq → f k a = f q a) :
    lookup q (l.map fun e => (e.1, f e.1 e.2)) = (lookup q l).map (f q) := by
  induction l with
  | nil => rfl
  | cons head tail ih =>
    obtain ⟨k, a⟩ := head
    by_cases same : compare q k = .eq
    · simp [lookup, same, respects k a same]
    · simp [lookup, same, ih]

/-- Looking up after a change in place. -/
theorem get?_modify [Std.TransOrd κ] (t : Table κ α) (k q : κ) (f : α → α) :
    (t.modify k f).get? q = if compare q k = .eq then (t.get? q).map f else t.get? q := by
  have step := lookup_map (fun k' a => if compare k k' = .eq then f a else a) q t.entries
    (fun k' a found => by simp only [Std.TransCmp.congr_right (a := k) found])
  show lookup q (t.entries.map _) = _
  rw [step]
  by_cases same : compare q k = .eq
  · simp [same, Std.OrientedCmp.eq_symm same, get?]
  · have : compare k q ≠ .eq := fun found => same (Std.OrientedCmp.eq_symm found)
    simp [same, this, get?]

end Table

namespace OrderedSet

variable {κ : Type} [Ord κ]

def add [Std.TransOrd κ] (s : OrderedSet κ) (k : κ) : OrderedSet κ :=
  if s.contains k then s else s.insert k ()

/-- Add every member of a list, in order. -/
def addAll [Std.TransOrd κ] (s : OrderedSet κ) (l : List κ) : OrderedSet κ :=
  l.foldl add s

def ofList [Std.TransOrd κ] (l : List κ) : OrderedSet κ := addAll ∅ l

def toList (s : OrderedSet κ) : List κ := s.keys

/-- Membership after adding one member. -/
theorem contains_add [Std.TransOrd κ] (s : OrderedSet κ) (k q : κ) :
    (s.add k).contains q = (decide (compare q k = .eq) || s.contains q) := by
  unfold add
  split
  case isTrue present =>
    by_cases same : compare q k = .eq
    · have : s.get? q = s.get? k := by
        have eqv : ∀ l : List (κ × Unit), Table.lookup q l = Table.lookup k l := by
          intro l
          induction l with
          | nil => rfl
          | cons head tail ih =>
            obtain ⟨k', u⟩ := head
            simp [Table.lookup, Std.TransCmp.congr_left same, ih]
        exact eqv s.entries
      simp [Table.contains, this, same] at present ⊢
      exact present
    · simp [same]
  case isFalse => by_cases same : compare q k = .eq <;> simp [Table.contains, Table.get?_insert, same]

end OrderedSet

end GrammarIndex
