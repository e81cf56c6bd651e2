import GrammarIndex.Proofs.Format.Columns

/-!
Formatting a text.

A formatted text has the lines of the text in their formatted form, with an empty one behind them if
a newline is added. So it is formatted already, no other characters than white space are added or
left out, and in each line the characters that are kept stand at their columns.
-/
namespace GrammarIndex.Format

open Text (isBlank split join dropTrailing)

/-- What is left of a text without its white space. -/
def solid (cs : List Char) : List Char := cs.filter fun c => !isBlank c

/-! ### Lines -/

theorem kept_isPrefix (o : FormatOptions) (cs : List Char) : kept o cs <+: cs := by
  rw [kept]
  split
  · obtain ⟨tail, cut, _⟩ := Text.dropTrailing_append_takeTrailing isBlank cs
    exact ⟨tail, cut.symm⟩
  · exact List.prefix_refl cs

theorem mem_of_mem_expandTabs {size column : Nat} {cs : List Char} {c : Char}
    (member : c ∈ expandTabs size column cs) : c = ' ' ∨ c ∈ cs := by
  rcases Nat.eq_zero_or_pos size with rfl | some_
  · rw [expandTabs_zero] at member
    exact .inr member
  · obtain ⟨j, here⟩ := List.mem_iff_getElem?.1 member
    rcases eq_space_or_of_getElem? some_ here with space | ⟨i, read, _⟩
    · exact .inl space
    · exact .inr (List.mem_of_getElem? read)

theorem clean_line (o : FormatOptions) {cs : List Char} (clean : '\n' ∉ cs) : '\n' ∉ line o cs := by
  rw [line_eq]
  intro member
  rcases mem_of_mem_expandTabs member with space | inside
  · cases space
  · exact clean ((kept_isPrefix o cs).subset inside)

@[simp] theorem solid_append (cs cs' : List Char) : solid (cs ++ cs') = solid cs ++ solid cs' :=
  List.filter_append ..

theorem solid_of_blank {cs : List Char} (blank : ∀ b ∈ cs, isBlank b = true) : solid cs = [] :=
  List.filter_eq_nil_iff.2 fun b member => by simp [blank b member]

@[simp] theorem solid_spaces (n : Nat) : solid (List.replicate n ' ') = [] :=
  solid_of_blank fun b member => by
    rw [List.eq_of_mem_replicate member]
    decide

theorem solid_expandTabs (size column : Nat) (cs : List Char) :
    solid (expandTabs size column cs) = solid cs := by
  rcases Nat.eq_zero_or_pos size with rfl | some_
  · rw [expandTabs_zero]
  induction cs generalizing column with
  | nil => rfl
  | cons c cs ih =>
    by_cases tab : c = '\t'
    · subst tab
      have blank : solid ('\t' :: cs) = solid cs := List.filter_cons_of_neg (by decide)
      rw [expandTabs_tab some_, blank, solid_append, solid_spaces, List.nil_append, ih]
    · rw [expandTabs_plain tab, solid, List.filter_cons, ← solid, ih, solid, solid,
        List.filter_cons]

theorem solid_line (o : FormatOptions) (cs : List Char) : solid (line o cs) = solid cs := by
  rw [line_eq, solid_expandTabs, kept]
  split
  · exact Text.filter_dropTrailing isBlank cs
  · rfl

/-! ### Texts -/

/-- The lines of a text in their formatted form. -/
def formattedLines (o : FormatOptions) (cs : List Char) : List (List Char) :=
  (split '\n' cs).map (line o)

section Texts

variable (o : FormatOptions) (cs : List Char)

theorem formattedLines_ne_nil : formattedLines o cs ≠ [] := by
  simp [formattedLines, Text.split_ne_nil]

theorem clean_formattedLines : ∀ l ∈ formattedLines o cs, '\n' ∉ l := by
  intro l member
  obtain ⟨l', listed, rfl⟩ := List.mem_map.1 member
  exact clean_line o (Text.clean_split cs l' listed)

theorem map_line_formattedLines : (formattedLines o cs).map (line o) = formattedLines o cs := by
  rw [formattedLines, List.map_map]
  exact List.map_congr_left fun l _ => line_line o l

/-- Ending a text adds a newline or nothing. -/
theorem endLine_eq_or : endLine cs = cs ∨ endLine cs = cs ++ ['\n'] := by
  unfold endLine
  split
  · next none_ => exact .inl (List.getLast?_eq_none_iff.1 none_).symm
  · split
    · exact .inl rfl
    · exact .inr rfl

@[simp] theorem endLine_endLine : endLine (endLine cs) = endLine cs := by
  unfold endLine
  cases last : cs.getLast? with
  | none => rfl
  | some c =>
    by_cases ends : c = '\n'
    · simp [ends, last]
    · simp [ends]

/-- A formatted text consists of the formatted lines, and an empty one if a newline is added. -/
theorem exists_chars_eq : ∃ added, (added = [] ∨ added = [[]]) ∧
    chars o cs = join '\n' (formattedLines o cs ++ added) := by
  have plain : join '\n' (formattedLines o cs) = join '\n' (formattedLines o cs ++ []) := by simp
  simp only [chars]
  split
  · rcases endLine_eq_or (join '\n' (formattedLines o cs)) with same | ended
    · exact ⟨[], .inl rfl, same.trans plain⟩
    · refine ⟨[[]], .inr rfl, ended.trans ?_⟩
      rw [Text.join_append_nil (formattedLines_ne_nil o cs)]
  · exact ⟨[], .inl rfl, plain⟩

theorem exists_split_chars : ∃ added, (added = [] ∨ added = [[]]) ∧
    chars o cs = join '\n' (formattedLines o cs ++ added) ∧
    split '\n' (chars o cs) = formattedLines o cs ++ added := by
  obtain ⟨added, few, whole⟩ := exists_chars_eq o cs
  refine ⟨added, few, whole, ?_⟩
  rw [whole]
  refine Text.split_join (by simp [formattedLines_ne_nil]) fun l member => ?_
  rcases List.mem_append.1 member with member | member
  · exact clean_formattedLines o cs l member
  · rcases few with rfl | rfl
    · cases member
    · rw [List.mem_singleton.1 member]
      exact List.not_mem_nil

/-- A formatted text is formatted already. -/
theorem chars_chars : chars o (chars o cs) = chars o cs := by
  obtain ⟨added, few, whole, pieces⟩ := exists_split_chars o cs
  have lines : formattedLines o (chars o cs) = formattedLines o cs ++ added := by
    rw [formattedLines, pieces, List.map_append, map_line_formattedLines]
    rcases few with rfl | rfl
    · rfl
    · simp [line_eq, kept, expandTabs, dropTrailing]
  have again : join '\n' (formattedLines o (chars o cs)) = chars o cs := by rw [lines, ← whole]
  rw [formattedLines] at again
  rw [chars, again]
  simp only [chars]
  split
  · exact endLine_endLine _
  · rfl

theorem solid_chars : solid (chars o cs) = solid cs := by
  obtain ⟨added, few, whole, _⟩ := exists_split_chars o cs
  have newline : (!isBlank '\n') = false := by decide
  have gone : added.flatMap (·.filter fun c => !isBlank c) = [] := by
    rcases few with rfl | rfl <;> rfl
  have same : (formattedLines o cs).flatMap (·.filter fun c => !isBlank c) =
      (split '\n' cs).flatMap (·.filter fun c => !isBlank c) := by
    rw [formattedLines, List.flatMap_map]
    simp only [List.flatMap]
    exact congrArg List.flatten (List.map_congr_left fun l _ => solid_line o l)
  rw [whole, solid, Text.filter_join newline, List.flatMap_append, gone, List.append_nil, same,
    ← Text.filter_join newline, Text.join_split, solid]

/-- A newline is added or none. -/
theorem count_chars : (chars o cs).count '\n' = cs.count '\n' ∨
    (chars o cs).count '\n' = cs.count '\n' + 1 := by
  obtain ⟨added, few, _, pieces⟩ := exists_split_chars o cs
  have count : ∀ cs : List Char, cs.count '\n' + 1 = (split '\n' cs).length := by
    intro cs
    have separators := Text.count_join (Text.split_ne_nil '\n' cs) (Text.clean_split cs)
    rwa [Text.join_split] at separators
  have before := count cs
  have after := count (chars o cs)
  rw [pieces, List.length_append, formattedLines, List.length_map] at after
  rcases few with rfl | rfl
  · rw [List.length_nil] at after
    exact .inl (by omega)
  · rw [List.length_singleton] at after
    exact .inr (by omega)

end Texts

/-! ### Columns -/

/-- Whether the character at a place of a line is kept: it does not belong to blanks at the end of
the line that are left out. -/
def Survives (o : FormatOptions) (l : List Char) (i : Nat) : Prop :=
  o.trimTrailingWhitespace = false ∨ ∃ c ∈ l.drop i, isBlank c = false

theorem survives_iff {o : FormatOptions} {l : List Char} {i : Nat} (inside : i < l.length) :
    Survives o l i ↔ i < (kept o l).length := by
  rw [Survives, kept]
  split
  · next trims => rw [Text.lt_length_dropTrailing_iff isBlank inside, trims]; simp
  · next trims => simp [trims, inside]

/-- The characters that are kept stand in their columns, and spaces in all others. -/
structure Aligned (o : FormatOptions) (l l' : List Char) : Prop where
  stands : ∀ i c, l[i]? = some c → c ≠ '\t' → Survives o l i →
    l'[columnBehind o.tabSize 0 (l.take i)]? = some c
  others : ∀ j c, l'[j]? = some c →
    c = ' ' ∨ ∃ i, l[i]? = some c ∧ columnBehind o.tabSize 0 (l.take i) = j

theorem aligned_line {o : FormatOptions} (some_ : 0 < o.tabSize) (l : List Char) :
    Aligned o l (line o l) := by
  obtain ⟨tail, cut⟩ := kept_isPrefix o l
  have front : ∀ i ≤ (kept o l).length, (kept o l).take i = l.take i := by
    intro i early
    have same : (kept o l ++ tail).take i = (kept o l).take i :=
      List.take_append_of_le_length early
    rw [← same, cut]
  rw [line_eq]
  refine ⟨fun i c here plain survives => ?_, fun j c here => ?_⟩
  · obtain ⟨inside, _⟩ := List.getElem?_eq_some_iff.1 here
    have early := (survives_iff inside).1 survives
    have read : (kept o l)[i]? = some c := by
      rwa [← cut, List.getElem?_append_left early] at here
    rw [← front i (Nat.le_of_lt early)]
    exact getElem?_expandTabs some_ read plain
  · rcases eq_space_or_of_getElem? some_ here with space | ⟨i, read, column⟩
    · exact .inl space
    · obtain ⟨early, _⟩ := List.getElem?_eq_some_iff.1 read
      rw [front i (Nat.le_of_lt early), Nat.zero_add] at column
      exact .inr ⟨i, by rwa [← cut, List.getElem?_append_left early], column⟩

/-- Formatting is stable and touches white space only: a formatted text is formatted already, it
has the same characters besides white space, and as many newlines or one more; and where tabs are
replaced, what is kept of a line stands at the columns at which it stood with its tabs. -/
theorem text_stable (o : FormatOptions) (s : String) :
    text o (text o s) = text o s ∧
      solid (text o s).toList = solid s.toList ∧
      ((text o s).toList.count '\n' = s.toList.count '\n' ∨
        (text o s).toList.count '\n' = s.toList.count '\n' + 1) ∧
      (0 < o.tabSize → ∀ (k : Nat) (l : List Char), (split '\n' s.toList)[k]? = some l →
        ∃ l', (split '\n' (text o s).toList)[k]? = some l' ∧ Aligned o l l') := by
  simp only [text, String.toList_ofList]
  refine ⟨congrArg String.ofList (chars_chars o s.toList), solid_chars o s.toList,
    count_chars o s.toList, fun some_ k l here => ⟨line o l, ?_, aligned_line some_ l⟩⟩
  obtain ⟨added, _, _, pieces⟩ := exists_split_chars o s.toList
  have formatted : (formattedLines o s.toList)[k]? = some (line o l) := by
    rw [formattedLines, List.getElem?_map, here, Option.map_some]
  obtain ⟨inside, _⟩ := List.getElem?_eq_some_iff.1 formatted
  rw [pieces, List.getElem?_append_left inside, formatted]

/-- A tab in front of a name, blanks behind it, and no newline at the end. -/
example : text {} "a :\tb \t\n\t " = "a : b\n" := by decide +kernel

end GrammarIndex.Format
