import GrammarIndex.Text.Split

/-!
Pieces of a text.

Pieces without a separator in them come back from the text that joins them. What is left of a list
without its trailing run is the part up to the last member outside the run, so leaving the run out
once more changes nothing.
-/
namespace GrammarIndex.Text

theorem filter_dropTrailing {α : Type} (p : α → Bool) (l : List α) :
    (dropTrailing p l).filter (fun a => !p a) = l.filter fun a => !p a := by
  obtain ⟨tail, cut, all⟩ := dropTrailing_append_takeTrailing p l
  have gone : tail.filter (fun a => !p a) = [] := by
    rw [List.filter_eq_nil_iff]
    intro a member
    simp [all a member]
  conv => rhs; rw [cut, List.filter_append, gone, List.append_nil]

theorem getLast_dropTrailing {α : Type} (p : α → Bool) (l : List α) :
    ∀ a ∈ (dropTrailing p l).getLast?, p a = false := by
  induction l with
  | nil => simp [dropTrailing]
  | cons head tail ih =>
    rw [dropTrailing]
    split
    · by_cases trailing : p head = true
      · simp [trailing]
      · simp [trailing]
    · next kept =>
      cases rest : dropTrailing p tail with
      | nil => exact absurd rest kept
      | cons next rest' =>
        rw [rest] at ih
        simpa using ih

/-- What holds no separator goes in front of the first piece. -/
theorem split_append {sep : Char} {front : List Char} (clean : sep ∉ front) (rest : List Char) :
    split sep (front ++ rest) = (split sep rest).modifyHead (front ++ ·) := by
  induction front with
  | nil => cases pieces : split sep rest <;> simp [pieces]
  | cons c cs ih =>
    simp only [List.mem_cons, not_or] at clean
    rw [List.cons_append, split, if_neg (Ne.symm clean.1), ih clean.2]
    cases pieces : split sep rest with
    | nil => exact absurd pieces (split_ne_nil sep rest)
    | cons first others => rfl

/-- Pieces without a separator in them come back from the text that joins them. -/
theorem split_join {sep : Char} {pieces : List (List Char)} (some_ : pieces ≠ [])
    (clean : ∀ piece ∈ pieces, sep ∉ piece) : split sep (join sep pieces) = pieces := by
  induction pieces with
  | nil => exact absurd rfl some_
  | cons piece rest ih =>
    obtain ⟨first, others⟩ := List.forall_mem_cons.1 clean
    cases rest with
    | nil =>
      rw [join, ← List.append_nil piece, split_append first]
      simp [split]
    | cons next rest =>
      rw [join, split_append first, split, if_pos rfl, ih (by simp) others]
      simp

theorem clean_split {sep : Char} (cs : List Char) : ∀ piece ∈ split sep cs, sep ∉ piece := by
  induction cs with
  | nil => simp [split]
  | cons c cs ih =>
    rw [split]
    split
    · intro piece member
      rcases List.mem_cons.1 member with rfl | member
      · simp
      · exact ih piece member
    · next other =>
      cases pieces : split sep cs with
      | nil => exact absurd pieces (split_ne_nil sep cs)
      | cons first rest =>
        rw [pieces] at ih
        intro piece member
        rcases List.mem_cons.1 member with rfl | member
        · have := ih first (by simp)
          simp [this, Ne.symm other]
        · exact ih piece (by simp [member])

/-! ### Joining -/

section Joined

variable {sep : Char} {pieces : List (List Char)}

/-- An empty piece at the end adds a separator. -/
theorem join_append_nil (some_ : pieces ≠ []) :
    join sep (pieces ++ [[]]) = join sep pieces ++ [sep] := by
  induction pieces with
  | nil => exact absurd rfl some_
  | cons piece rest ih =>
    cases rest with
    | nil => rfl
    | cons next rest =>
      have behind := ih (by simp)
      simp only [List.cons_append] at behind ⊢
      rw [join, behind, join, List.append_assoc, List.cons_append]

/-- Leaving out characters, the separator among them, is done in each piece. -/
theorem filter_join {p : Char → Bool} (gone : p sep = false) :
    (join sep pieces).filter p = pieces.flatMap (·.filter p) := by
  induction pieces with
  | nil => rfl
  | cons piece rest ih =>
    cases rest with
    | nil => simp [join]
    | cons next rest =>
      rw [join, List.filter_append, List.filter_cons_of_neg (by simp [gone]), ih]
      rfl

/-- There is one piece more than there are separators. -/
theorem count_join (some_ : pieces ≠ []) (clean : ∀ piece ∈ pieces, sep ∉ piece) :
    (join sep pieces).count sep + 1 = pieces.length := by
  induction pieces with
  | nil => exact absurd rfl some_
  | cons piece rest ih =>
    obtain ⟨free, others⟩ := List.forall_mem_cons.1 clean
    cases rest with
    | nil => simp [join, List.count_eq_zero_of_not_mem free]
    | cons next rest =>
      have behind := ih (by simp) others
      rw [join, List.count_append, List.count_cons_self, List.count_eq_zero_of_not_mem free,
        List.length_cons]
      omega

end Joined

/-! ### Trailing runs -/

section Trailing

variable {α : Type} (p : α → Bool)

theorem dropTrailing_eq_nil_iff {l : List α} : dropTrailing p l = [] ↔ ∀ a ∈ l, p a = true := by
  induction l with
  | nil => simp [dropTrailing]
  | cons a rest ih =>
    rw [dropTrailing, List.forall_mem_cons, ← ih]
    cases dropTrailing p rest <;> cases p a <;> simp

/-- The run reaches into the front only if it takes all that is behind. -/
theorem dropTrailing_append (front back : List α) :
    dropTrailing p (front ++ back) =
      if dropTrailing p back = [] then dropTrailing p front else front ++ dropTrailing p back := by
  cases behind : dropTrailing p back with
  | nil =>
    rw [if_pos rfl]
    induction front with
    | nil => exact behind
    | cons a front ih => rw [List.cons_append, dropTrailing, ih, dropTrailing.eq_2]
  | cons b kept =>
    rw [if_neg (List.cons_ne_nil b kept)]
    induction front with
    | nil => exact behind
    | cons a front ih =>
      rw [List.cons_append, dropTrailing, ih]
      cases front <;> rfl

theorem dropTrailing_eq_self {l : List α} (last : ∀ a ∈ l.getLast?, p a = false) :
    dropTrailing p l = l := by
  rcases List.eq_nil_or_concat l with rfl | ⟨front, a, rfl⟩
  · rfl
  · have kept : p a = false := last a (by simp)
    rw [List.concat_eq_append, dropTrailing_append]
    simp [dropTrailing, kept]

@[simp] theorem dropTrailing_dropTrailing (l : List α) :
    dropTrailing p (dropTrailing p l) = dropTrailing p l :=
  dropTrailing_eq_self p (getLast_dropTrailing p l)

theorem length_dropTrailing_le (l : List α) : (dropTrailing p l).length ≤ l.length := by
  obtain ⟨tail, cut, _⟩ := dropTrailing_append_takeTrailing p l
  have size := congrArg List.length cut
  rw [List.length_append] at size
  omega

/-- A place is in front of the run if something outside the run stands there or behind. -/
theorem lt_length_dropTrailing_iff {l : List α} {i : Nat} (inside : i < l.length) :
    i < (dropTrailing p l).length ↔ ∃ a ∈ l.drop i, p a = false := by
  have split := dropTrailing_append p (l.take i) (l.drop i)
  rw [List.take_append_drop] at split
  have front := length_dropTrailing_le p (l.take i)
  rw [List.length_take_of_le (Nat.le_of_lt inside)] at front
  have gone := dropTrailing_eq_nil_iff p (l := l.drop i)
  rw [split]
  split
  · next none_ =>
    refine iff_of_false (by omega) ?_
    rintro ⟨a, member, outside⟩
    rw [gone.1 none_ a member] at outside
    cases outside
  · next some_ =>
    refine iff_of_true ?_ ?_
    · rw [List.length_append, List.length_take_of_le (Nat.le_of_lt inside)]
      have := List.length_pos_iff.2 some_
      omega
    · rw [gone] at some_
      simpa using some_

end Trailing

end GrammarIndex.Text
