import GrammarIndex.Proofs.Format.Stable

/-!
Texts that differ in white space, as a formatted text differs from what it was.

Besides what is kept, a tab becomes spaces, a blank goes together with all behind it up to the end
of the line, and a newline is added at the end. So a character that is not blank has its place in
both texts, and what follows it there differs in the same way.
-/
namespace GrammarIndex.Format

open Text (isBlank split join dropTrailing)

/-- At the end of a line or of the text. -/
def LineEnd (cs : List Char) : Prop := ∀ c, cs.head? = some c → c = '\n'

/-- Texts that differ as the options allow it. -/
inductive Respaced (o : FormatOptions) : List Char → List Char → Prop
  | done : Respaced o [] []
  | ended (adds : o.insertFinalNewline = true) : Respaced o [] ['\n']
  | keep (c : Char) {cs cs' : List Char} (behind : Respaced o cs cs') :
    Respaced o (c :: cs) (c :: cs')
  | tab (width : Nat) (some_ : 0 < o.tabSize) {cs cs' : List Char} (behind : Respaced o cs cs') :
    Respaced o ('\t' :: cs) (List.replicate (width + 1) ' ' ++ cs')
  | trim {b : Char} (trims : o.trimTrailingWhitespace = true) (blank : isBlank b = true)
    (inLine : b ≠ '\n') {cs cs' : List Char} (behind : Respaced o cs cs') (ends : LineEnd cs') :
    Respaced o (b :: cs) cs'

theorem lineEnd_nil : LineEnd [] := fun _ first => nomatch first

theorem lineEnd_newline (cs : List Char) : LineEnd ('\n' :: cs) :=
  fun _ first => (Option.some.inj first).symm

/-- A blank within a line. -/
def isPadding (c : Char) : Bool := isBlank c && c != '\n'

/-- Blanks within a line. -/
def Blanks (cs : List Char) : Prop := ∀ b ∈ cs, isBlank b = true ∧ b ≠ '\n'

theorem Blanks.isPadding {cs : List Char} (blank : Blanks cs) : ∀ b ∈ cs, isPadding b = true := by
  intro b member
  simpa [Format.isPadding] using blank b member

namespace Respaced

variable {o : FormatOptions} {cs cs' : List Char}

/-! ### Formatted texts -/

/-- The blanks at the end of a line are left out. -/
theorem trimmed (trims : o.trimTrailingWhitespace = true) {blanks : List Char}
    (blank : Blanks blanks) (behind : Respaced o cs cs') (ends : LineEnd cs') :
    Respaced o (blanks ++ cs) cs' := by
  induction blanks with
  | nil => exact behind
  | cons b blanks ih =>
    obtain ⟨here, inLine⟩ := blank b List.mem_cons_self
    exact .trim trims here inLine (ih fun b member => blank b (List.mem_cons_of_mem _ member)) ends

/-- Tabs become spaces. -/
theorem expanded (column : Nat) (l : List Char) (behind : Respaced o cs cs') :
    Respaced o (l ++ cs) (expandTabs o.tabSize column l ++ cs') := by
  rcases Nat.eq_zero_or_pos o.tabSize with zero | some_
  · rw [zero, expandTabs_zero]
    induction l with
    | nil => exact behind
    | cons c l ih => exact .keep c ih
  induction l generalizing column with
  | nil => exact behind
  | cons c l ih =>
    by_cases tab : c = '\t'
    · subst tab
      obtain ⟨width, size⟩ : ∃ width, o.tabSize - column % o.tabSize = width + 1 :=
        Nat.exists_eq_add_one.2 (Nat.sub_pos_of_lt (Nat.mod_lt column some_))
      rw [expandTabs_tab some_, List.append_assoc, size]
      exact .tab width some_ (ih _)
    · rw [expandTabs_plain tab]
      exact .keep c (ih _)

theorem formattedLine {l : List Char} (clean : '\n' ∉ l) (behind : Respaced o cs cs')
    (ends : LineEnd cs') : Respaced o (l ++ cs) (line o l ++ cs') := by
  rw [line_eq, kept]
  split
  · next trims =>
    obtain ⟨tail, cut, blank⟩ := Text.dropTrailing_append_takeTrailing isBlank l
    have inLine : Blanks tail := fun b member => by
      refine ⟨blank b member, ?_⟩
      rintro rfl
      exact clean (cut ▸ List.mem_append_right _ member)
    have whole : l ++ cs = dropTrailing isBlank l ++ (tail ++ cs) := by
      rw [← List.append_assoc, ← cut]
    rw [whole]
    exact (behind.trimmed trims inLine ends).expanded 0 _
  · exact behind.expanded 0 l

theorem formattedLines (lines : List (List Char)) (some_ : lines ≠ [])
    (clean : ∀ l ∈ lines, '\n' ∉ l) (behind : Respaced o [] cs') (ends : LineEnd cs') :
    Respaced o (join '\n' lines) (join '\n' (lines.map (line o)) ++ cs') := by
  induction lines with
  | nil => exact absurd rfl some_
  | cons l lines ih =>
    cases lines with
    | nil =>
      have last := behind.formattedLine (clean l List.mem_cons_self) ends
      rwa [List.append_nil] at last
    | cons next rest =>
      have later := ih (List.cons_ne_nil _ _) fun l' member =>
        clean l' (List.mem_cons_of_mem _ member)
      have first := (Respaced.keep '\n' later).formattedLine (clean l List.mem_cons_self)
        (lineEnd_newline _)
      rw [List.map_cons, List.map_cons, join, join, List.append_assoc, List.cons_append]
      exact first

end Respaced

/-- A formatted text differs from the text as the options allow it. -/
theorem respaced_chars (o : FormatOptions) (cs : List Char) : Respaced o cs (chars o cs) := by
  have whole : ∀ {cs'}, Respaced o [] cs' → LineEnd cs' →
      Respaced o cs (join '\n' ((split '\n' cs).map (line o)) ++ cs') := fun behind ends => by
    have lines := behind.formattedLines _ (Text.split_ne_nil '\n' cs) (Text.clean_split cs) ends
    rwa [Text.join_split] at lines
  have plain := whole .done lineEnd_nil
  rw [List.append_nil] at plain
  simp only [chars]
  split
  · next adds =>
    rcases endLine_eq_or (join '\n' ((split '\n' cs).map (line o))) with same | ended
    · rwa [same]
    · rw [ended]
      exact whole (.ended adds) (lineEnd_newline [])
  · exact plain

namespace Respaced

variable {o : FormatOptions} {cs cs' : List Char}

/-! ### What comes first -/

/-- A character that is not blank comes first in both texts or in neither. -/
theorem head?_iff (r : Respaced o cs cs') {d : Char} (solid : isBlank d = false) :
    cs'.head? = some d ↔ cs.head? = some d := by
  have blank : ∀ b, isBlank b = true → b ≠ d := by
    rintro b white rfl
    rw [solid] at white
    cases white
  cases r with
  | done => exact Iff.rfl
  | ended => simp [blank '\n' (by decide)]
  | keep c behind => exact Iff.rfl
  | tab width some_ behind =>
    simp [List.replicate_succ, blank ' ' (by decide), blank '\t' (by decide)]
  | trim trims white inLine behind ends =>
    refine ⟨fun first => ?_, fun first => absurd (Option.some.inj first) (blank _ white)⟩
    exact absurd (ends d first).symm (blank '\n' (by decide))

theorem behind_solid {d : Char} (r : Respaced o (d :: cs) cs') (solid : isBlank d = false) :
    ∃ ds', cs' = d :: ds' ∧ Respaced o cs ds' := by
  cases r with
  | keep c behind => exact ⟨_, rfl, behind⟩
  | tab width some_ behind => cases solid
  | trim trims white inLine behind ends =>
    rw [white] at solid
    cases solid

/-- What is respaced to the end of a line are blanks up to the end of the line. -/
theorem of_lineEnd (r : Respaced o cs cs') (ends : LineEnd cs') :
    ∃ blanks rest, cs = blanks ++ rest ∧ Blanks blanks ∧ LineEnd rest ∧ Respaced o rest cs' := by
  have none_ : Blanks [] := fun b member => (List.not_mem_nil member).elim
  induction r with
  | done => exact ⟨[], [], rfl, none_, lineEnd_nil, .done⟩
  | ended adds => exact ⟨[], [], rfl, none_, lineEnd_nil, .ended adds⟩
  | keep c behind =>
    have line := ends c rfl
    subst line
    exact ⟨[], _, rfl, none_, lineEnd_newline _, .keep _ behind⟩
  | tab width some_ behind => exact absurd (ends ' ' rfl) (by decide)
  | @trim b trims white inLine cs cs' behind ends' ih =>
    obtain ⟨blanks, rest, rfl, blank, last, respaced⟩ := ih ends
    exact ⟨b :: blanks, rest, rfl, List.forall_mem_cons.2 ⟨⟨white, inLine⟩, blank⟩, last, respaced⟩

end Respaced

end GrammarIndex.Format
