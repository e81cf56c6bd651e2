import GrammarIndex.Edit.Script

/-!
The two texts that a list of chunks spells.

Kept and deleted characters make up the text before, kept and inserted ones the text after. The
edits written for chunks, applied to the text before, give the text after.
-/
namespace GrammarIndex.Diff

/-- The characters of the text before that a run of one kind stands for. -/
def oldPart (kind : EditKind) (chars : List Char) : List Char :=
  if kind = .insert then [] else chars

/-- The characters of the text after that a run of one kind stands for. -/
def newPart (kind : EditKind) (chars : List Char) : List Char :=
  if kind = .delete then [] else chars

/-- The text before. -/
def oldChars (chunks : List Chunk) : List Char := chunks.flatMap fun c => oldPart c.kind c.chars

/-- The text after. -/
def newChars (chunks : List Chunk) : List Char := chunks.flatMap fun c => newPart c.kind c.chars

/-- The text before single-character steps. -/
def oldSteps (steps : List Step) : List Char := steps.flatMap fun s => oldPart s.1 [s.2]

/-- The text after single-character steps. -/
def newSteps (steps : List Step) : List Char := steps.flatMap fun s => newPart s.1 [s.2]

theorem oldPart_append (kind : EditKind) (xs ys : List Char) :
    oldPart kind (xs ++ ys) = oldPart kind xs ++ oldPart kind ys := by
  unfold oldPart
  split <;> rfl

theorem newPart_append (kind : EditKind) (xs ys : List Char) :
    newPart kind (xs ++ ys) = newPart kind xs ++ newPart kind ys := by
  unfold newPart
  split <;> rfl

/-- Joining a run with its neighbour changes neither text. -/
theorem oldChars_prepend (kind : EditKind) (chars : List Char) (chunks : List Chunk) :
    oldChars (prepend kind chars chunks) = oldPart kind chars ++ oldChars chunks := by
  unfold prepend
  split
  · simp [oldPart]
  · simp [oldChars]
  · next next rest _ =>
    split
    case isTrue joined => simp [oldChars, oldPart_append, joined]
    case isFalse => simp [oldChars]

theorem newChars_prepend (kind : EditKind) (chars : List Char) (chunks : List Chunk) :
    newChars (prepend kind chars chunks) = newPart kind chars ++ newChars chunks := by
  unfold prepend
  split
  · simp [newPart]
  · simp [newChars]
  · next next rest _ =>
    split
    case isTrue joined => simp [newChars, newPart_append, joined]
    case isFalse => simp [newChars]

theorem oldChars_ofSteps (steps : List Step) (chunks : List Chunk) :
    oldChars (steps.foldr (fun s rest => prepend s.1 [s.2] rest) chunks) =
      oldSteps steps ++ oldChars chunks := by
  induction steps with
  | nil => rfl
  | cons s steps ih => simp [oldChars_prepend, ih, oldSteps]

theorem newChars_ofSteps (steps : List Step) (chunks : List Chunk) :
    newChars (steps.foldr (fun s rest => prepend s.1 [s.2] rest) chunks) =
      newSteps steps ++ newChars chunks := by
  induction steps with
  | nil => rfl
  | cons s steps ih => simp [newChars_prepend, ih, newSteps]

/-! ### What two texts share at an end -/

theorem take_commonLength (a b : List Char) :
    a.take (commonLength a b) = b.take (commonLength a b) := by
  fun_induction commonLength a b with
  | case1 as b bs ih => simp [ih]
  | case2 => simp
  | case3 => simp

/-- The shared tails of two texts are the same. -/
theorem drop_commonLength_reverse (a b : List Char) :
    a.drop (a.length - commonLength a.reverse b.reverse) =
      b.drop (b.length - commonLength a.reverse b.reverse) := by
  have heads := congrArg List.reverse (take_commonLength a.reverse b.reverse)
  rw [List.reverse_take, List.reverse_take] at heads
  simpa using heads

end GrammarIndex.Diff

namespace GrammarIndex.Script

open Diff

/-! ### Edits by offsets of the text before -/

/-- The edits for a run of changes at an offset: the deletion, then the insertion behind it. -/
def flush (offset deleted : Nat) (inserted : List Char) : List Edit :=
  (if deleted = 0 then [] else [Edit.delete offset deleted]) ++
    (if inserted.isEmpty then [] else [Edit.insert (offset + deleted) (String.ofList inserted)])

/-- The edits for chunks that start at an offset, with the changes collected since the last kept
character. -/
def ofChunks (offset deleted : Nat) (inserted : List Char) : List Chunk → List Edit
  | [] => flush offset deleted inserted
  | c :: rest =>
    match c.kind with
    | .equal =>
      flush offset deleted inserted ++ ofChunks (offset + deleted + c.chars.length) 0 [] rest
    | .delete => ofChunks offset (deleted + c.chars.length) inserted rest
    | .insert => ofChunks offset deleted (inserted ++ c.chars) rest

/-- A deletion behind `kept` characters: they stay, the deleted ones go. -/
theorem applyFrom_delete (cursor : Nat) (kept deleted rest : List Char) (edits : List Edit) :
    applyFrom cursor (kept ++ (deleted ++ rest))
        (Edit.delete (cursor + kept.length) deleted.length :: edits) =
      kept ++ applyFrom (cursor + kept.length + deleted.length) rest edits := by
  simp [applyFrom, Edit.delete]

/-- An insertion behind `kept` characters: they stay, the new ones follow. -/
theorem applyFrom_insert (cursor : Nat) (kept rest inserted : List Char) (edits : List Edit) :
    applyFrom cursor (kept ++ rest)
        (Edit.insert (cursor + kept.length) (String.ofList inserted) :: edits) =
      kept ++ (inserted ++ applyFrom (cursor + kept.length) rest edits) := by
  simp [applyFrom, Edit.insert]

/-- A flushed run of changes takes out what was deleted and puts in what was inserted. The edits
that follow may find the characters before them already passed or not. -/
theorem applyFrom_flush {cursor offset : Nat} {kept : List Char}
    (deleted inserted rest out : List Char) (edits : List Edit)
    (here : offset = cursor + kept.length)
    (tail : ∀ cursor' kept', offset + deleted.length = cursor' + kept'.length →
      applyFrom cursor' (kept' ++ rest) edits = kept' ++ out) :
    applyFrom cursor (kept ++ (deleted ++ rest)) (flush offset deleted.length inserted ++ edits) =
      kept ++ (inserted ++ out) := by
  subst here
  have passed : applyFrom (cursor + kept.length + deleted.length) rest edits = out := by
    simpa using tail (cursor + kept.length + deleted.length) [] (by simp)
  cases deleted with
  | nil =>
    cases inserted with
    | nil => simpa [flush] using tail cursor kept (by simp)
    | cons c cs =>
      have inserting := applyFrom_insert cursor kept rest (c :: cs) edits
      simp only [List.length_nil, Nat.add_zero] at passed
      simp only [flush, List.length_nil, ↓reduceIte, List.isEmpty_cons, Bool.false_eq_true,
        Nat.add_zero, List.nil_append, List.cons_append]
      rw [inserting, passed]
      rfl
  | cons d ds =>
    cases inserted with
    | nil =>
      have deleting := applyFrom_delete cursor kept (d :: ds) rest edits
      simp only [flush, List.length_cons, Nat.add_eq_zero_iff, Nat.one_ne_zero, and_false,
        ↓reduceIte, List.isEmpty_nil, List.append_nil, List.cons_append, List.nil_append]
      simp only [List.length_cons, List.cons_append] at deleting passed
      rw [deleting, passed]
    | cons c cs =>
      have deleting := applyFrom_delete cursor kept (d :: ds) rest
        (Edit.insert (cursor + kept.length + (d :: ds).length) (String.ofList (c :: cs)) :: edits)
      have inserting := applyFrom_insert (cursor + kept.length + (d :: ds).length) [] rest
        (c :: cs) edits
      simp only [List.length_nil, Nat.add_zero, List.nil_append] at inserting
      simp only [flush, List.length_cons, Nat.add_eq_zero_iff, Nat.one_ne_zero, and_false,
        ↓reduceIte, List.isEmpty_cons, Bool.false_eq_true, List.cons_append, List.nil_append]
      simp only [List.length_cons, List.cons_append] at deleting inserting passed
      rw [deleting, inserting, passed]

/-- The edits of chunks turn the text before into the text after. The induction carries the changes
collected since the last kept character, and the characters the cursor has not passed yet. -/
theorem applyFrom_ofChunks (chunks : List Chunk) (cursor offset : Nat)
    (kept deleted inserted : List Char) (here : offset = cursor + kept.length) :
    applyFrom cursor (kept ++ (deleted ++ oldChars chunks))
        (ofChunks offset deleted.length inserted chunks) =
      kept ++ (inserted ++ newChars chunks) := by
  induction chunks generalizing cursor offset kept deleted inserted with
  | nil =>
    have flushed := applyFrom_flush deleted inserted [] [] [] here
      (fun _ _ _ => by simp [applyFrom])
    simpa [ofChunks, oldChars, newChars] using flushed
  | cons c rest ih =>
    obtain ⟨kind, chars⟩ := c
    cases kind with
    | equal =>
      have flushed := applyFrom_flush deleted inserted (chars ++ oldChars rest)
        (chars ++ newChars rest) (ofChunks (offset + deleted.length + chars.length) 0 [] rest) here
        (fun cursor' kept' reached => by
          have next := ih cursor' (offset + deleted.length + chars.length) (kept' ++ chars) [] []
            (by simp; omega)
          simpa using next)
      simpa [ofChunks, oldChars, newChars, oldPart, newPart] using flushed
    | delete =>
      have next := ih cursor offset kept (deleted ++ chars) inserted here
      simpa [ofChunks, oldChars, newChars, oldPart, newPart] using next
    | insert =>
      have next := ih cursor offset kept deleted (inserted ++ chars) here
      simpa [ofChunks, oldChars, newChars, oldPart, newPart] using next

end GrammarIndex.Script
