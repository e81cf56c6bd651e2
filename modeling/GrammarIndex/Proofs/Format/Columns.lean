import GrammarIndex.Format
import GrammarIndex.Proofs.Text.Split

/-!
Formatting touches white space only.

A line keeps its characters up to the last one that is not blank, and each of them stands at the
column at which it stood with its tabs. So a formatted line is formatted already, a formatted text
has the lines of the text in their formatted form, and formatting it once more changes nothing.
-/
namespace GrammarIndex.Format

open Text (isBlank split join dropTrailing)

/-! ### Columns -/

/-- The column behind a character at `column`: a tab goes on to the next multiple of `size`. -/
def advance (size column : Nat) (c : Char) : Nat :=
  if c = '\t' then (column / size + 1) * size else column + 1

/-- The column behind a stretch of a line that starts at `column`. -/
def columnBehind (size column : Nat) (cs : List Char) : Nat := cs.foldl (advance size) column

/-- The spaces for a tab end at the next multiple. -/
theorem add_width (size column : Nat) (some_ : 0 < size) :
    column + (size - column % size) = (column / size + 1) * size := by
  have inside := Nat.mod_lt column some_
  have whole := Nat.div_add_mod column size
  rw [Nat.add_mul, Nat.mul_comm (column / size)]
  omega

@[simp] theorem expandTabs_zero (column : Nat) (cs : List Char) : expandTabs 0 column cs = cs := by
  induction cs generalizing column with
  | nil => rfl
  | cons c cs ih => simp [expandTabs, ih]

section Expanded

variable {size : Nat} (some_ : 0 < size)

theorem expandTabs_plain {c : Char} (plain : c ≠ '\t') (column : Nat) (cs : List Char) :
    expandTabs size column (c :: cs) = c :: expandTabs size (column + 1) cs := by
  simp [expandTabs, plain]

include some_

theorem expandTabs_tab (column : Nat) (cs : List Char) : expandTabs size column ('\t' :: cs) =
    List.replicate (size - column % size) ' ' ++
      expandTabs size (column + (size - column % size)) cs := by
  simp [expandTabs, some_]

/-- A stretch takes as many columns as its characters with the tabs. -/
theorem columnBehind_eq (column : Nat) (cs : List Char) :
    columnBehind size column cs = column + (expandTabs size column cs).length := by
  induction cs generalizing column with
  | nil => rfl
  | cons c cs ih =>
    rw [columnBehind, List.foldl_cons, ← columnBehind, ih]
    by_cases tab : c = '\t'
    · subst tab
      rw [expandTabs_tab some_, advance, if_pos rfl, ← add_width size column some_,
        List.length_append, List.length_replicate, Nat.add_assoc]
    · rw [expandTabs_plain tab, advance, if_neg tab, List.length_cons]
      omega

theorem expandTabs_append (column : Nat) (cs cs' : List Char) :
    expandTabs size column (cs ++ cs') =
      expandTabs size column cs ++ expandTabs size (columnBehind size column cs) cs' := by
  induction cs generalizing column with
  | nil => rfl
  | cons c cs ih =>
    rw [columnBehind, List.foldl_cons, ← columnBehind, List.cons_append]
    by_cases tab : c = '\t'
    · subst tab
      rw [expandTabs_tab some_, expandTabs_tab some_, ih, advance, if_pos rfl,
        ← add_width size column some_, List.append_assoc]
    · rw [expandTabs_plain tab, expandTabs_plain tab, ih, advance, if_neg tab, List.cons_append]

/-- A character that is no tab stands at the column behind what is in front of it. -/
theorem getElem?_expandTabs {cs : List Char} {i : Nat} {c : Char} (here : cs[i]? = some c)
    (plain : c ≠ '\t') : (expandTabs size 0 cs)[columnBehind size 0 (cs.take i)]? = some c := by
  obtain ⟨inside, same⟩ := List.getElem?_eq_some_iff.1 here
  have split : cs = cs.take i ++ c :: cs.drop (i + 1) := by
    rw [← same, ← List.drop_eq_getElem_cons inside, List.take_append_drop]
  have place : columnBehind size 0 (cs.take i) = (expandTabs size 0 (cs.take i)).length := by
    rw [columnBehind_eq some_, Nat.zero_add]
  rw [split, expandTabs_append some_, ← split, place, expandTabs_plain plain,
    List.getElem?_append_right (Nat.le_refl _), Nat.sub_self, List.getElem?_cons_zero]

/-- The other columns hold spaces. -/
theorem eq_space_or_of_getElem? {column : Nat} {cs : List Char} {j : Nat} {c : Char}
    (here : (expandTabs size column cs)[j]? = some c) :
    c = ' ' ∨ ∃ i, cs[i]? = some c ∧ columnBehind size column (cs.take i) = column + j := by
  induction cs generalizing column j with
  | nil => cases here
  | cons d cs ih =>
    -- Behind the first character the line goes on at the column it ends at.
    have later : ∀ k, (expandTabs size (advance size column d) cs)[k]? = some c →
        advance size column d + k = column + j → c = ' ' ∨ ∃ i, (d :: cs)[i]? = some c ∧
          columnBehind size column ((d :: cs).take i) = column + j := by
      intro k found place
      rcases ih found with space | ⟨i, read, column'⟩
      · exact .inl space
      · exact .inr ⟨i + 1, read, column'.trans place⟩
    by_cases tab : d = '\t'
    · subst tab
      rw [expandTabs_tab some_] at here
      have width : advance size column '\t' = column + (size - column % size) := by
        rw [advance, if_pos rfl, add_width size column some_]
      rcases Nat.lt_or_ge j (size - column % size) with early | late
      · rw [List.getElem?_append_left (by simpa using early),
          List.getElem?_replicate_of_lt early] at here
        exact .inl (Option.some.inj here).symm
      · rw [List.getElem?_append_right (by simpa using late), List.length_replicate] at here
        refine later (j - (size - column % size)) (by rwa [width]) ?_
        omega
    · have step : advance size column d = column + 1 := if_neg tab
      rw [expandTabs_plain tab] at here
      cases j with
      | zero => exact .inr ⟨0, here, rfl⟩
      | succ j => exact later j (by rwa [step]) (by omega)

theorem not_mem_expandTabs (column : Nat) (cs : List Char) :
    '\t' ∉ expandTabs size column cs := by
  induction cs generalizing column with
  | nil => exact List.not_mem_nil
  | cons c cs ih =>
    by_cases tab : c = '\t'
    · subst tab
      rw [expandTabs_tab some_]
      simp [ih]
    · rw [expandTabs_plain tab]
      simp [ih, Ne.symm tab]

omit some_ in
theorem expandTabs_of_not_mem {column : Nat} {cs : List Char} (none_ : '\t' ∉ cs) :
    expandTabs size column cs = cs := by
  induction cs generalizing column with
  | nil => rfl
  | cons c cs ih =>
    simp only [List.mem_cons, not_or] at none_
    rw [expandTabs_plain (Ne.symm none_.1), ih none_.2]

end Expanded

/-! ### Lines -/

/-- The part of a line that is kept: all of it, or all up to the blanks at its end. -/
def kept (o : FormatOptions) (cs : List Char) : List Char :=
  if o.trimTrailingWhitespace then dropTrailing isBlank cs else cs

theorem dropTrailing_spaces (n : Nat) (cs : List Char) :
    dropTrailing isBlank (List.replicate n ' ' ++ cs) =
      if dropTrailing isBlank cs = [] then [] else List.replicate n ' ' ++ dropTrailing isBlank cs
    := by
  have spaces : dropTrailing isBlank (List.replicate n ' ') = [] := by
    rw [Text.dropTrailing_eq_nil_iff]
    intro c member
    rw [List.eq_of_mem_replicate member]
    decide
  rw [Text.dropTrailing_append, spaces]

/-- Tabs are blank, so it is the same to leave out the blanks at the end before or after. -/
theorem dropTrailing_expandTabs (size column : Nat) (cs : List Char) :
    dropTrailing isBlank (expandTabs size column cs) =
      expandTabs size column (dropTrailing isBlank cs) := by
  rcases Nat.eq_zero_or_pos size with rfl | some_
  · simp
  induction cs generalizing column with
  | nil => rfl
  | cons c cs ih =>
    have behind := ih (columnBehind size column [c])
    have first := expandTabs_append some_ column [c] cs
    have nonempty : ∀ {l column}, expandTabs size column l = [] ↔ l = [] := by
      intro l column
      cases l with
      | nil => simp [expandTabs]
      | cons d l =>
        by_cases tab : d = '\t'
        · subst tab
          have inside := Nat.mod_lt column some_
          rw [expandTabs_tab some_]
          simp
          omega
        · simp [expandTabs_plain tab]
    have single : dropTrailing isBlank (expandTabs size column [c]) =
        expandTabs size column (dropTrailing isBlank [c]) := by
      by_cases tab : c = '\t'
      · subst tab
        rw [expandTabs_tab some_, dropTrailing_spaces]
        rfl
      · rw [expandTabs_plain tab]
        cases blank : isBlank c with
        | true => simp [expandTabs, dropTrailing, blank]
        | false => simp [expandTabs, dropTrailing, blank, tab]
    rw [← List.singleton_append, first, Text.dropTrailing_append, behind, single,
      Text.dropTrailing_append]
    by_cases gone : dropTrailing isBlank cs = []
    · rw [if_pos (nonempty.2 gone), if_pos gone]
    · rw [if_neg (mt nonempty.1 gone), if_neg gone, expandTabs_append some_]

theorem line_eq (o : FormatOptions) (cs : List Char) :
    line o cs = expandTabs o.tabSize 0 (kept o cs) := by
  simp only [line, kept]
  split
  · exact dropTrailing_expandTabs _ _ _
  · rfl

/-- A formatted line is formatted already. -/
@[simp] theorem line_line (o : FormatOptions) (cs : List Char) :
    line o (line o cs) = line o cs := by
  have expanded : ∀ cs, expandTabs o.tabSize 0 (expandTabs o.tabSize 0 cs) =
      expandTabs o.tabSize 0 cs := by
    intro cs
    rcases Nat.eq_zero_or_pos o.tabSize with zero | some_
    · simp [zero]
    · exact expandTabs_of_not_mem (not_mem_expandTabs some_ 0 cs)
  simp only [line]
  split
  · rw [← dropTrailing_expandTabs, expanded, Text.dropTrailing_dropTrailing]
  · exact expanded cs

end GrammarIndex.Format
