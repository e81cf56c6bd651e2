import GrammarIndex.Proofs.Grammar.Lookahead

/-!
The readers of the scanner as machines.

A name, a literal, a comment and an action are all read in the same way: over the text from state to
state, one character at a time, until the state and the character say that it ends. What a reader
makes of white space is told from its moves.
-/
namespace GrammarIndex.Grammar

/-- Whether a backslash in a stretch of a literal takes the character behind it. -/
def escapes (cs : List Char) : Bool := cs.foldl (fun escaped c => !escaped && c == '\\') false

/-- What a machine does at a character: end in front of it, end with it, or go on. -/
inductive Move (σ : Type) where
  | stop
  | last
  | next (s : σ)

/-- The state after a move, which is the same if the machine ends. -/
def Move.state {σ : Type} (s : σ) : Move σ → σ
  | next s' => s'
  | _ => s

/-- A machine that goes over a text one character at a time. -/
structure Machine (σ : Type) where
  move : σ → Char → Move σ

namespace Machine

section Runs

variable {σ : Type} (m : Machine σ)

/-- The characters that are taken from a text. -/
def taken : σ → List Char → List Char
  | _, [] => []
  | s, c :: cs =>
    match m.move s c with
    | .stop => []
    | .last => [c]
    | .next s' => c :: taken s' cs

/-- The characters that are left. -/
def left : σ → List Char → List Char
  | _, [] => []
  | s, c :: cs =>
    match m.move s c with
    | .stop => c :: cs
    | .last => cs
    | .next s' => left s' cs

/-- Whether the machine ends with a character and not in front of one. -/
def closes : σ → List Char → Bool
  | _, [] => false
  | s, c :: cs =>
    match m.move s c with
    | .stop => false
    | .last => true
    | .next s' => closes s' cs

/-- The state behind a stretch that is taken. -/
def after (s : σ) (cs : List Char) : σ :=
  cs.foldl (fun s c => (m.move s c).state s) s

theorem taken_append_left (s : σ) (cs : List Char) : m.taken s cs ++ m.left s cs = cs := by
  induction cs generalizing s with
  | nil => rfl
  | cons c cs ih =>
    rw [taken, left]
    split
    · rfl
    · rfl
    · exact congrArg (c :: ·) (ih _)

variable {m} {s s' : σ} {c : Char}

theorem taken_next (goes : m.move s c = .next s') (cs : List Char) :
    m.taken s (c :: cs) = c :: m.taken s' cs := by
  rw [taken, goes]

theorem left_next (goes : m.move s c = .next s') (cs : List Char) :
    m.left s (c :: cs) = m.left s' cs := by
  rw [left, goes]

theorem closes_next (goes : m.move s c = .next s') (cs : List Char) :
    m.closes s (c :: cs) = m.closes s' cs := by
  rw [closes, goes]

theorem after_next (goes : m.move s c = .next s') (cs : List Char) :
    m.after s (c :: cs) = m.after s' cs := by
  rw [after, List.foldl_cons, goes, Move.state, after]

end Runs

/-! ### Machines -/

/-- Takes characters as long as they satisfy a test. -/
def run (p : Char → Bool) : Machine Unit where
  move _ c := if p c then .next () else .stop

/-- Takes a literal up to its closing character or the end of the line. The state says whether a
backslash takes the next character. -/
def literal (close : Char) : Machine Bool where
  move escaped c :=
    if escaped then .next false
    else if c = '\\' then .next true
    else if c = close then .last
    else if c = '\n' then .stop
    else .next false

/-- Takes a comment up to its end. The state says whether a star stands in front. -/
def comment : Machine Bool where
  move star c := if star && c == '/' then .last else .next (c == '*')

/-- Takes an action up to its closing brace. The state counts the braces that are open, and says
whether a backslash takes the next character. -/
def action : Machine (Nat × Bool) where
  move state c :=
    match state with
    | (depth, true) => .next (depth, false)
    | (depth, false) =>
      if c = '\\' then .next (depth, true)
      else if c = '{' then .next (depth + 1, false)
      else if c = '}' then
        match depth with
        | 0 => .last
        | depth + 1 => .next (depth, false)
      else .next (depth, false)

theorem taken_run (p : Char → Bool) (cs : List Char) : (run p).taken () cs = cs.takeWhile p := by
  induction cs with
  | nil => rfl
  | cons c cs ih =>
    rw [List.takeWhile_cons]
    cases holds : p c with
    | true =>
      have goes : (run p).move () c = .next () := if_pos holds
      rw [taken_next goes, ih, if_pos rfl]
    | false => simp [taken, run, holds]

theorem quotedLength_eq (close : Char) (cs : List Char) : quotedLength close cs =
    (((literal close).taken false cs).length, (literal close).closes false cs) := by
  fun_induction quotedLength close cs with
  | case1 => rfl
  | case2 => rfl
  | case3 c cs n closed inner ih =>
    obtain ⟨rfl, rfl⟩ := Prod.mk.inj (inner.symm.trans ih)
    rfl
  | case4 cs lone pair =>
    have ends : (literal close).move false close = .last := by
      simp [literal, Cursor.ne_backslash lone pair]
    simp [taken, closes, ends]
  | case5 cs lone pair other =>
    have ends : (literal close).move false '\n' = .stop := by simp [literal, other]
    simp [taken, closes, ends]
  | case6 c cs lone pair other line n closed inner ih =>
    have goes : (literal close).move false c = .next false := by
      simp [literal, Cursor.ne_backslash lone pair, other, line]
    obtain ⟨rfl, rfl⟩ := Prod.mk.inj (inner.symm.trans ih)
    rw [taken_next goes, closes_next goes, List.length_cons]

theorem blockCommentLength_eq (cs : List Char) :
    blockCommentLength cs = (comment.taken false cs).length := by
  induction cs with
  | nil => rfl
  | cons c cs ih =>
    have goes : comment.move false c = .next (c == '*') := rfl
    rw [taken_next goes, List.length_cons, blockCommentLength_cons]
    by_cases star : c = '*'
    · subst star
      cases cs with
      | nil => rfl
      | cons d cs =>
        by_cases slash : d = '/'
        · subst slash
          rfl
        · have again : comment.move true d = .next (d == '*') := by simp [comment, slash]
          have goes' : comment.move false d = .next (d == '*') := rfl
          rw [if_neg (by simp [slash]), ih, taken_next goes', beq_self_eq_true, taken_next again]
    · have plain : (c == '*') = false := beq_false_of_ne star
      rw [if_neg (fun closes => star closes.1), ih, plain]

theorem actionLength_eq (depth : Nat) (cs : List Char) :
    actionLength depth cs = (action.taken (depth, false) cs).length := by
  fun_induction actionLength depth cs with
  | case1 => rfl
  | case2 => rfl
  | case3 depth skipped cs ih => rw [ih]; rfl
  | case4 depth cs lone pair ih => rw [ih]; rfl
  | case5 cs lone pair other => rfl
  | case6 cs depth lone pair other ih => rw [ih]; rfl
  | case7 depth c cs lone pair notOpening notClosing ih =>
    have goes : action.move (depth, false) c = .next (depth, false) := by
      simp [action, Cursor.ne_backslash lone pair, notOpening, notClosing]
    rw [taken_next goes, List.length_cons, ih]

/-! ### Blanks -/

section Blanks

variable {σ : Type} (m : Machine σ)

/-- A state in which blanks are passed over up to the end of the line. -/
structure Halts (s : σ) : Prop where
  newline : m.move s '\n' = .stop
  blank : ∀ b, Text.isBlank b = true → b ≠ '\n' → m.move s b = .next s

/-- In all states but the bad ones a machine does the same whatever blanks there are before the end
of a line. In a bad state a blank keeps it from going on with the next line. -/
structure Steady (bad : σ → Prop) : Prop where
  newline : ∀ s, m.move s '\n' ≠ .last
  tab : ∀ s, m.move s '\t' = .stop ∧ m.move s ' ' = .stop ∨
    ∃ s', m.move s '\t' = .next s' ∧ m.move s ' ' = .next s' ∧ m.move s' ' ' = .next s'
  blank : ∀ s b, Text.isBlank b = true → b ≠ '\n' →
    m.move s b = .stop ∧ m.move s '\n' = .stop ∨
    ∃ s', m.move s b = .next s' ∧ (m.move s' '\n' = m.move s '\n' ∨
      bad s ∧ m.move s '\n' = .next s' ∧ m.Halts s')

/-- Behind a blank a machine goes no further than to the end of the line. -/
def InLine : Prop :=
  ∀ s b s', Text.isBlank b = true → b ≠ '\n' → m.move s b = .next s' → m.Halts s'

end Blanks

theorem isBlank_ne {b c : Char} (blank : Text.isBlank b = true) (solid : Text.isBlank c = false) :
    b ≠ c := by
  rintro rfl
  rw [solid] at blank
  cases blank

/-- What takes no blank ends in front of each. -/
theorem steady_run {p : Char → Bool} (rejects : ∀ b, Text.isBlank b = true → p b = false) :
    (run p).Steady fun _ => False where
  newline s := by simp [run, rejects '\n' (by decide)]
  tab s := .inl (by simp [run, rejects '\t' (by decide), rejects ' ' (by decide)])
  blank s b blank _ := .inl (by simp [run, rejects b blank, rejects '\n' (by decide)])

theorem inLine_run {p : Char → Bool} (rejects : ∀ b, Text.isBlank b = true → p b = false) :
    (run p).InLine := by
  intro s b s' blank _ goes
  simp [run, rejects b blank] at goes

theorem steady_line : (run (· != '\n')).Steady fun _ => False where
  newline s := by simp [run]
  tab s := .inr ⟨(), rfl, rfl, rfl⟩
  blank s b _ inLine := .inr ⟨(), by simp [run, inLine], .inl rfl⟩

theorem steady_comment : comment.Steady fun _ => False where
  newline s := by simp [comment]
  tab s := .inr ⟨false, by simp [comment], by simp [comment], rfl⟩
  blank s b blank _ := by
    have slash := isBlank_ne blank (c := '/') (by decide)
    have star := isBlank_ne blank (c := '*') (by decide)
    exact .inr ⟨false, by simp [comment, slash, star], .inl (by simp [comment])⟩

theorem steady_action : action.Steady fun _ => False where
  newline := by
    rintro ⟨depth, _ | _⟩ <;> simp [action]
  tab := by
    rintro ⟨depth, escaped⟩
    exact .inr ⟨(depth, false), by cases escaped <;> rfl, by cases escaped <;> rfl, rfl⟩
  blank := by
    rintro ⟨depth, escaped⟩ b blank _
    refine .inr ⟨(depth, false), ?_, .inl (by cases escaped <;> rfl)⟩
    cases escaped with
    | true => rfl
    | false =>
      simp [action, isBlank_ne blank (c := '\\') (by decide),
        isBlank_ne blank (c := '{') (by decide), isBlank_ne blank (c := '}') (by decide)]

section Literals

variable {close : Char} (solid : Text.isBlank close = false)

include solid

theorem halts_literal : (literal close).Halts false where
  newline := by simp [literal, isBlank_ne (b := '\n') (by decide) solid]
  blank b blank inLine := by
    simp [literal, isBlank_ne blank (c := '\\') (by decide), isBlank_ne blank solid, inLine]

/-- Where a backslash takes the next character, it makes a difference whether this is a newline. -/
theorem steady_literal : (literal close).Steady fun escaped => escaped = true where
  newline
    | true => nofun
    | false => by rw [(halts_literal solid).newline]; nofun
  tab escaped := by
    have tab := (halts_literal solid).blank '\t' (by decide) (by decide)
    have space := (halts_literal solid).blank ' ' (by decide) (by decide)
    refine .inr ⟨false, ?_, ?_, space⟩ <;> cases escaped <;> first | rfl | assumption
  blank escaped b blank inLine := by
    refine .inr ⟨false, ?_, ?_⟩
    · cases escaped with
      | true => rfl
      | false => exact (halts_literal solid).blank b blank inLine
    · cases escaped with
      | true => exact .inr ⟨rfl, rfl, halts_literal solid⟩
      | false => exact .inl rfl

theorem inLine_literal : (literal close).InLine := by
  intro escaped b s' blank inLine goes
  have state : s' = false := by
    cases escaped with
    | true => cases goes; rfl
    | false =>
      rw [(halts_literal solid).blank b blank inLine] at goes
      cases goes
      rfl
  exact state ▸ halts_literal solid

end Literals

theorem after_literal (close : Char) (cs : List Char) :
    (literal close).after false cs = escapes cs := by
  have step : ∀ escaped c,
      ((literal close).move escaped c).state escaped = (!escaped && c == '\\') := by
    intro escaped c
    cases escaped with
    | true => rfl
    | false =>
      by_cases escape : c = '\\'
      · subst escape
        rfl
      · have other : (c == '\\') = false := beq_false_of_ne escape
        simp only [literal, Bool.false_eq_true, if_false, escape, other, Bool.and_false]
        split
        · rfl
        · split <;> rfl
  simp only [after, step]
  rfl

end Machine

end GrammarIndex.Grammar
