/-!
Cutting a text at a separator and gluing pieces back together.
-/
namespace GrammarIndex.Text

/-- Cut a text at every separator; there is one piece more than there are separators. -/
def split (sep : Char) : List Char → List (List Char)
  | [] => [[]]
  | c :: cs =>
    if c = sep then [] :: split sep cs
    else
      match split sep cs with
      | [] => [[c]]
      | piece :: rest => (c :: piece) :: rest

/-- Glue pieces together with a separator between neighbours. -/
def join (sep : Char) : List (List Char) → List Char
  | [] => []
  | [piece] => piece
  | piece :: next :: rest => piece ++ sep :: join sep (next :: rest)

/-- Drop the longest run at the end whose members all satisfy `p`. -/
def dropTrailing {α : Type} (p : α → Bool) : List α → List α
  | [] => []
  | a :: rest =>
    match dropTrailing p rest with
    | [] => if p a then [] else [a]
    | kept => a :: kept

/-- The lines of a text without their ends. A line ends in a newline, with or without a carriage
return before it; the last need not end. -/
def lines (cs : List Char) : List (List Char) :=
  let pieces := split '\n' cs
  let ended := pieces.dropLast.map fun piece =>
    if piece.getLast? = some '\r' then piece.dropLast else piece
  ended ++ (pieces.getLast?.toList.filter (!·.isEmpty))

theorem split_ne_nil (sep : Char) (cs : List Char) : split sep cs ≠ [] := by
  cases cs with
  | nil => simp [split]
  | cons c cs =>
    simp only [split]
    split
    · simp
    · split <;> simp

/-- Splitting loses nothing. -/
@[simp] theorem join_split (sep : Char) (cs : List Char) : join sep (split sep cs) = cs := by
  induction cs with
  | nil => rfl
  | cons c cs ih =>
    rw [split]
    split
    case isTrue same =>
      cases pieces : split sep cs with
      | nil => exact absurd pieces (split_ne_nil sep cs)
      | cons piece rest => rw [pieces] at ih; simp [join, ih, same]
    case isFalse =>
      cases pieces : split sep cs with
      | nil => exact absurd pieces (split_ne_nil sep cs)
      | cons piece rest =>
        rw [pieces] at ih
        cases rest with
        | nil => simp [join] at ih ⊢; exact ih
        | cons next rest => simp [join] at ih ⊢; exact ih

theorem dropTrailing_append_takeTrailing {α : Type} (p : α → Bool) (l : List α) :
    ∃ tail, l = dropTrailing p l ++ tail ∧ ∀ a ∈ tail, p a = true := by
  induction l with
  | nil => exact ⟨[], rfl, by simp⟩
  | cons a rest ih =>
    obtain ⟨tail, cut, all⟩ := ih
    simp only [dropTrailing]
    cases kept : dropTrailing p rest with
    | nil =>
      rw [kept] at cut
      by_cases pa : p a = true
      · refine ⟨a :: tail, by simpa [pa] using cut, ?_⟩
        intro b member
        rcases List.mem_cons.1 member with rfl | member
        · exact pa
        · exact all b member
      · exact ⟨tail, by simpa [pa] using cut, all⟩
    | cons b kept' =>
      rw [kept] at cut
      exact ⟨tail, by simpa using cut, all⟩

end GrammarIndex.Text
