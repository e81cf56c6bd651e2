import GrammarIndex.Proofs.Format.Respaced
import GrammarIndex.Proofs.Grammar.Machine

/-!
What machines take from texts that differ in white space.

A machine that makes nothing of blanks takes the same from both texts up to white space, ends in the
same way, and what it leaves differs in white space only. The exception is a bad state, in which a
blank stops the machine at the end of a line and its absence does not.
-/
namespace GrammarIndex.Format

open Text (isBlank)
open Grammar (Machine Move)

/-- A stretch that has no tab to expand and no blank at its end to leave out. -/
structure Unspaced (o : FormatOptions) (mid : List Char) : Prop where
  tabs : 0 < o.tabSize → '\t' ∉ mid
  ends : o.trimTrailingWhitespace = true → ∀ c, mid.getLast? = some c → isBlank c = false

section Machines

variable {σ : Type} {m : Machine σ} {bad : σ → Prop} {o : FormatOptions} {s s' : σ}

/-- What a machine takes and leaves of two texts. -/
structure Carried (m : Machine σ) (o : FormatOptions) (s : σ) (cs cs' : List Char) : Prop where
  closes : m.closes s cs' = m.closes s cs
  behind : Respaced o (m.left s cs) (m.left s cs')
  spelled : solid (m.taken s cs') = solid (m.taken s cs)
  kept : m.InLine → Unspaced o (m.taken s cs) →
    (o.insertFinalNewline = true → m.left s cs = [] →
      m.move (m.after s (m.taken s cs)) '\n' = .stop) → m.taken s cs' = m.taken s cs

/-- Where blanks are left out, none of those at the end of a line was taken in a bad state. -/
def Tidy (o : FormatOptions) (m : Machine σ) (bad : σ → Prop) (s : σ) (cs : List Char) : Prop :=
  o.trimTrailingWhitespace = true → m.closes s cs = false → (m.left s cs).head? = some '\n' →
    ∀ front blanks, m.taken s cs = front ++ blanks → blanks ≠ [] → Blanks blanks →
      ¬ bad (m.after s front)

theorem tidy_of_never (s : σ) (cs : List Char) : Tidy o m (fun _ => False) s cs :=
  fun _ _ _ _ _ _ _ _ => id

theorem Tidy.next {c : Char} {cs : List Char} (tidy : Tidy o m bad s (c :: cs))
    (goes : m.move s c = .next s') : Tidy o m bad s' cs := by
  intro trims open_ line front blanks split some_ blank
  rw [← Machine.after_next goes]
  refine tidy trims ?_ ?_ (c :: front) blanks ?_ some_ blank
  · rwa [Machine.closes_next goes]
  · rwa [Machine.left_next goes]
  · rw [Machine.taken_next goes, split, List.cons_append]

theorem Unspaced.tail {c : Char} {mid : List Char} (unspaced : Unspaced o (c :: mid)) :
    Unspaced o mid where
  tabs some_ member := unspaced.tabs some_ (List.mem_cons_of_mem c member)
  ends trims d last := unspaced.ends trims d (by rw [List.getLast?_cons, last, Option.getD_some])

/-- Blanks at the end are left out. -/
theorem not_unspaced (trims : o.trimTrailingWhitespace = true) {mid : List Char} (some_ : mid ≠ [])
    (blank : ∀ b ∈ mid, isBlank b = true) : ¬ Unspaced o mid := fun unspaced => by
  have solid := unspaced.ends trims _ (List.getLast?_eq_some_getLast some_)
  rw [blank _ (List.getLast_mem some_)] at solid
  cases solid

theorem solid_cons (c : Char) (cs : List Char) : solid (c :: cs) = solid [c] ++ solid cs :=
  solid_append [c] cs

/-- In a state that blanks do not change spaces are passed over. -/
theorem runs_spaces (again : m.move s ' ' = .next s) (n : Nat) (cs : List Char) :
    m.taken s (List.replicate n ' ' ++ cs) = List.replicate n ' ' ++ m.taken s cs ∧
      m.left s (List.replicate n ' ' ++ cs) = m.left s cs ∧
      m.closes s (List.replicate n ' ' ++ cs) = m.closes s cs := by
  induction n with
  | zero => exact ⟨rfl, rfl, rfl⟩
  | succ n ih =>
    rw [List.replicate_succ, List.cons_append, Machine.taken_next again, Machine.left_next again,
      Machine.closes_next again, ih.1, ih.2.1, ih.2.2]
    exact ⟨rfl, rfl, rfl⟩

/-- Blanks up to the end of a line are taken, and nothing else. -/
theorem runs_blanks (halts : m.Halts s) {blanks rest : List Char} (blank : Blanks blanks)
    (ends : LineEnd rest) : m.taken s (blanks ++ rest) = blanks ∧
      m.left s (blanks ++ rest) = rest ∧ m.closes s (blanks ++ rest) = false := by
  induction blanks with
  | nil =>
    cases rest with
    | nil => exact ⟨rfl, rfl, rfl⟩
    | cons c rest =>
      have line := ends c rfl
      subst line
      simp [Machine.taken, Machine.left, Machine.closes, halts.newline]
  | cons b blanks ih =>
    obtain ⟨white, inLine⟩ := blank b List.mem_cons_self
    have goes := halts.blank b white inLine
    obtain ⟨taken, left, closes⟩ := ih fun d member => blank d (List.mem_cons_of_mem b member)
    rw [List.cons_append, Machine.taken_next goes, Machine.left_next goes,
      Machine.closes_next goes, taken, left, closes]
    exact ⟨rfl, rfl, rfl⟩

/-- At the end of a line states that treat a newline alike are alike. -/
theorem runs_lineEnd (same : m.move s' '\n' = m.move s '\n') {cs : List Char} (ends : LineEnd cs) :
    m.taken s' cs = m.taken s cs ∧ m.closes s' cs = m.closes s cs ∧
      m.left s' cs = m.left s cs := by
  cases cs with
  | nil => exact ⟨rfl, rfl, rfl⟩
  | cons c cs =>
    have line := ends c rfl
    subst line
    simp [Machine.taken, Machine.left, Machine.closes, same]

theorem Carried.next {c : Char} {cs cs' : List Char} (goes : m.move s c = .next s')
    (carried : Carried m o s' cs cs') : Carried m o s (c :: cs) (c :: cs') where
  closes := by rw [Machine.closes_next goes, Machine.closes_next goes, carried.closes]
  behind := by
    rw [Machine.left_next goes, Machine.left_next goes]
    exact carried.behind
  spelled := by
    rw [Machine.taken_next goes, Machine.taken_next goes, solid_cons, carried.spelled, ← solid_cons]
  kept inLine unspaced ends := by
    rw [Machine.taken_next goes] at unspaced ⊢
    rw [Machine.taken_next goes, carried.kept inLine unspaced.tail]
    intro adds last
    have stops := ends adds (by rwa [Machine.left_next goes])
    rwa [Machine.taken_next goes, Machine.after_next goes] at stops

theorem Carried.tab {cs cs' : List Char} (width : Nat) (some_ : 0 < o.tabSize)
    (goes : m.move s '\t' = .next s') (goes' : m.move s ' ' = .next s')
    (again : m.move s' ' ' = .next s') (carried : Carried m o s' cs cs') :
    Carried m o s ('\t' :: cs) (List.replicate (width + 1) ' ' ++ cs') := by
  obtain ⟨taken, left, closes⟩ := runs_spaces again width cs'
  have blank : solid ['\t'] = [] := by decide
  rw [List.replicate_succ, List.cons_append]
  refine ⟨?_, ?_, ?_, fun _ unspaced => ?_⟩
  · rw [Machine.closes_next goes', Machine.closes_next goes, closes, carried.closes]
  · rw [Machine.left_next goes', Machine.left_next goes, left]
    exact carried.behind
  · rw [Machine.taken_next goes', Machine.taken_next goes, taken, ← List.cons_append,
      ← List.replicate_succ, solid_append, solid_spaces, solid_cons, blank, carried.spelled]
  · rw [Machine.taken_next goes] at unspaced
    exact absurd List.mem_cons_self (unspaced.tabs some_)

/-- What is taken up to blanks that are left out ends in a blank. -/
theorem not_unspaced_of_trim {b : Char} {cs cs' : List Char}
    (trims : o.trimTrailingWhitespace = true) (white : isBlank b = true) (inLine : b ≠ '\n')
    (goes : m.move s b = .next s') (r : Respaced o cs cs') (ends : LineEnd cs') (stays : m.InLine) :
    ¬ Unspaced o (m.taken s (b :: cs)) := by
  obtain ⟨blanks, rest, rfl, blank, last, _⟩ := r.of_lineEnd ends
  obtain ⟨taken, _⟩ := runs_blanks (stays s b s' white inLine goes) blank last
  rw [Machine.taken_next goes, taken]
  exact not_unspaced trims (List.cons_ne_nil b blanks)
    (List.forall_mem_cons.2 ⟨white, fun d member => (blank d member).1⟩)

theorem Carried.trim {b : Char} {cs cs' : List Char} (trims : o.trimTrailingWhitespace = true)
    (white : isBlank b = true) (inLine : b ≠ '\n') (goes : m.move s b = .next s')
    (r : Respaced o cs cs') (ends : LineEnd cs') (same : m.move s' '\n' = m.move s '\n')
    (carried : Carried m o s' cs cs') : Carried m o s (b :: cs) cs' := by
  obtain ⟨taken, closes, left⟩ := runs_lineEnd same ends
  have blank : solid [b] = [] := solid_of_blank (by simpa using white)
  refine ⟨?_, ?_, ?_, fun stays unspaced =>
    absurd unspaced (not_unspaced_of_trim trims white inLine goes r ends stays)⟩
  · rw [Machine.closes_next goes, ← closes, carried.closes]
  · rw [Machine.left_next goes, ← left]
    exact carried.behind
  · rw [Machine.taken_next goes, ← taken, carried.spelled, solid_cons, blank, List.nil_append]

/-- In a bad state nothing but blanks is left out, and the line is the last one. -/
theorem Carried.trim_bad {b : Char} {cs cs' : List Char} (trims : o.trimTrailingWhitespace = true)
    (white : isBlank b = true) (inLine : b ≠ '\n') (goes : m.move s b = .next s')
    (r : Respaced o cs cs') (ends : LineEnd cs') (isBad : bad s) (goes' : m.move s '\n' = .next s')
    (halts : m.Halts s') (tidy : Tidy o m bad s (b :: cs)) : Carried m o s (b :: cs) cs' := by
  have kept := not_unspaced_of_trim trims white inLine goes r ends
  obtain ⟨blanks, rest, rfl, blank, last, behind⟩ := r.of_lineEnd ends
  obtain ⟨taken, left, closes⟩ := runs_blanks halts blank last
  have all : ∀ d ∈ b :: blanks, isBlank d = true :=
    List.forall_mem_cons.2 ⟨white, fun d member => (blank d member).1⟩
  have gone : solid (m.taken s (b :: (blanks ++ rest))) = [] := by
    rw [Machine.taken_next goes, taken, solid_of_blank all]
  cases rest with
  | nil =>
    have closed : m.closes s (b :: (blanks ++ [])) = false := by
      rw [Machine.closes_next goes, closes]
    have nothing : m.left s (b :: (blanks ++ [])) = [] := by
      rw [Machine.left_next goes, left]
    cases behind with
    | done =>
      exact ⟨by rw [closed]; rfl, by rw [nothing]; exact .done, by rw [gone]; rfl,
        fun stays unspaced => absurd unspaced (kept stays)⟩
    | ended adds =>
      refine ⟨?_, ?_, ?_, fun stays unspaced => absurd unspaced (kept stays)⟩
      · rw [closed, Machine.closes_next goes']
        rfl
      · rw [nothing, Machine.left_next goes']
        exact .done
      · rw [gone, Machine.taken_next goes']
        rfl
  | cons c rest =>
    have line := last c rfl
    subst line
    have padding : Blanks (b :: blanks) := List.forall_mem_cons.2 ⟨⟨white, inLine⟩, blank⟩
    refine absurd isBad (tidy trims ?_ ?_ [] (b :: blanks) ?_ (List.cons_ne_nil b blanks) padding)
    · rw [Machine.closes_next goes, closes]
    · rw [Machine.left_next goes, left]
      rfl
    · rw [Machine.taken_next goes, taken, List.nil_append]

/-- A steady machine takes the same from texts that differ in white space, and what it leaves
differs in white space. -/
theorem carried (steady : m.Steady bad) {cs cs' : List Char} (r : Respaced o cs cs')
    (tidy : Tidy o m bad s cs) : Carried m o s cs cs' := by
  induction r generalizing s with
  | done => exact ⟨rfl, .done, rfl, fun _ _ _ => rfl⟩
  | ended adds =>
    cases move : m.move s '\n' with
    | stop =>
      have behind := Respaced.ended adds
      constructor <;> simp [Machine.closes, Machine.left, Machine.taken, move, behind]
    | last => exact absurd move (steady.newline s)
    | next s' =>
      refine ⟨?_, ?_, ?_, fun _ _ ends => ?_⟩
      · rw [Machine.closes_next move]
        rfl
      · rw [Machine.left_next move]
        exact .done
      · rw [Machine.taken_next move]
        rfl
      · have stops : m.move s '\n' = .stop := ends adds rfl
        rw [move] at stops
        cases stops
  | keep c behind ih =>
    cases move : m.move s c with
    | stop =>
      have whole := Respaced.keep c behind
      constructor <;> simp [Machine.closes, Machine.left, Machine.taken, move, whole]
    | last => constructor <;> simp [Machine.closes, Machine.left, Machine.taken, move, behind]
    | next s' => exact (ih (tidy.next move)).next move
  | @tab width some_ cs cs' behind ih =>
    rcases steady.tab s with ⟨stops, stops'⟩ | ⟨s', goes, goes', again⟩
    · have whole := Respaced.tab width some_ behind
      rw [List.replicate_succ, List.cons_append] at whole ⊢
      constructor <;> simp [Machine.closes, Machine.left, Machine.taken, stops, stops', whole]
    · exact (ih (tidy.next goes)).tab width some_ goes goes' again
  | @trim b trims white inLine cs cs' behind ends ih =>
    rcases steady.blank s b white inLine with ⟨stops, stops'⟩ | ⟨s', goes, same | isBad⟩
    · have whole := Respaced.trim trims white inLine behind ends
      cases cs' with
      | nil => constructor <;> simp [Machine.closes, Machine.left, Machine.taken, stops, whole]
      | cons c cs' =>
        have line := ends c rfl
        subst line
        constructor <;>
          simp [Machine.closes, Machine.left, Machine.taken, stops, stops', whole]
    · exact (ih (tidy.next goes)).trim trims white inLine goes behind ends same
    · obtain ⟨isBad, goes', halts⟩ := isBad
      exact .trim_bad trims white inLine goes behind ends isBad goes' halts tidy

end Machines

end GrammarIndex.Format
