import GrammarIndex.Proofs.Edit.Chunks

/-!
The offsets of an edit script.

A run computes its offsets from a place in the new text and a signed length. However insertions and
deletions alternate, `position - delta` is the number of characters of the old text in front of what
is being collected. So it is never below zero, a run never fails, and it writes the edits that are
told by offsets of the old text.
-/
namespace GrammarIndex.Script

open Diff

namespace Run

/-- The run stands at this offset of the old text. -/
def At (r : Run) (offset : Nat) : Prop := r.position - r.delta = offset

theorem offset?_eq {r : Run} {offset : Nat} (here : r.At offset) : r.offset? = some offset := by
  unfold At at here
  simp [offset?, here]

/-- Writing a deletion down moves the run behind what is deleted. -/
theorem flushDeleted?_eq {r : Run} {offset : Nat} (here : r.At offset) :
    ∃ r', r.flushDeleted? = some r' ∧ r'.At (offset + r.deleted) ∧ r'.deleted = 0 ∧
      r'.position = r.position ∧ r'.inserted = r.inserted ∧
      r'.edits = r.edits ++ if r.deleted = 0 then [] else [Edit.delete offset r.deleted] := by
  unfold flushDeleted?
  by_cases nothing : r.deleted = 0
  · rw [if_pos nothing]
    refine ⟨r, rfl, ?_, nothing, rfl, rfl, ?_⟩
    · rwa [nothing]
    · rw [if_pos nothing, List.append_nil]
  · rw [if_neg nothing, offset?_eq here]
    refine ⟨_, rfl, ?_, rfl, rfl, rfl, ?_⟩
    · unfold At at here ⊢
      simp only [Int.natCast_add]
      omega
    · rw [if_neg nothing]

/-- Writing an insertion down moves the place in the new text and leaves the offset alone. -/
theorem flushInserted?_eq {r : Run} {offset : Nat} (here : r.At offset) :
    ∃ r', r.flushInserted? = some r' ∧ r'.At offset ∧ r'.inserted = [] ∧
      r'.position = r.position + r.inserted.length ∧ r'.deleted = r.deleted ∧
      r'.edits = r.edits ++
        if r.inserted.isEmpty then [] else [Edit.insert offset (String.ofList r.inserted)] := by
  unfold flushInserted?
  by_cases empty : r.inserted.isEmpty = true
  · have none_ : r.inserted = [] := List.isEmpty_iff.1 empty
    rw [if_pos empty]
    refine ⟨r, rfl, here, none_, ?_, rfl, ?_⟩
    · simp [none_]
    · rw [if_pos empty, List.append_nil]
  · rw [if_neg empty, offset?_eq here]
    refine ⟨_, rfl, ?_, rfl, rfl, rfl, ?_⟩
    · unfold At at here ⊢
      simp only
      omega
    · rw [if_neg empty]

/-- One flush: it never fails, it leaves the run behind what was deleted with nothing collected, and
it writes a deletion at the offset and an insertion where that one ends. -/
theorem flush?_eq {r : Run} {offset : Nat} (here : r.At offset) :
    ∃ r', r.flush? = some r' ∧ r'.At (offset + r.deleted) ∧ r'.deleted = 0 ∧ r'.inserted = [] ∧
      r'.position = r.position + r.inserted.length ∧
      r'.edits = r.edits ++ flush offset r.deleted r.inserted := by
  obtain ⟨r₁, first, here₁, deleted₁, position₁, inserted₁, edits₁⟩ := flushDeleted?_eq here
  obtain ⟨r₂, second, here₂, inserted₂, position₂, deleted₂, edits₂⟩ := flushInserted?_eq here₁
  refine ⟨r₂, ?_, here₂, deleted₂.trans deleted₁, inserted₂, ?_, ?_⟩
  · rw [flush?, first]
    exact second
  · rw [position₂, position₁, inserted₁]
  · rw [edits₂, edits₁, inserted₁, List.append_assoc]
    rfl

/-! ### Where a run stands behind some chunks -/

/-- The run has passed these chunks: `position - delta` counts what it has passed of the text before
without what it still has to write as deleted, `position` what it has passed of the text after
without what it still has to write as inserted. -/
structure Behind (passed : List Chunk) (r : Run) : Prop where
  offset : ∃ offset : Nat, r.At offset ∧ offset + r.deleted = (oldChars passed).length
  position : r.position + r.inserted.length = (newChars passed).length

theorem behind_start : Behind [] start := ⟨⟨0, rfl, rfl⟩, rfl⟩

/-- One more chunk: the run never fails, and its counts are right behind it too. -/
theorem behind_pass? {passed : List Chunk} {r : Run} (behind : Behind passed r) (c : Chunk) :
    ∃ r', r.pass? c = some r' ∧ Behind (passed ++ [c]) r' := by
  obtain ⟨⟨offset, here, old⟩, new⟩ := behind
  obtain ⟨kind, chars⟩ := c
  have oldLength : (oldChars (passed ++ [⟨kind, chars⟩])).length =
      (oldChars passed).length + (oldPart kind chars).length := by simp [oldChars]
  have newLength : (newChars (passed ++ [⟨kind, chars⟩])).length =
      (newChars passed).length + (newPart kind chars).length := by simp [newChars]
  cases kind with
  | equal =>
    obtain ⟨r', flushed, here', deleted', inserted', position', _⟩ := flush?_eq here
    refine ⟨{ r' with position := r'.position + chars.length }, ?_, ?_, ?_⟩
    · simp [pass?, flushed]
    · refine ⟨offset + r.deleted + chars.length, ?_, ?_⟩
      · unfold At at here' ⊢
        simp only [Int.natCast_add] at here' ⊢
        omega
      · simp only [oldLength, oldPart, reduceCtorEq, if_false]
        omega
    · simp only [newLength, newPart, reduceCtorEq, if_false, inserted', List.length_nil]
      omega
  | delete =>
    refine ⟨_, rfl, ⟨offset, here, ?_⟩, ?_⟩
    · simp only [oldLength, oldPart, reduceCtorEq, if_false]
      omega
    · simpa [newLength, newPart] using new
  | insert =>
    refine ⟨_, rfl, ⟨offset, here, ?_⟩, ?_⟩
    · simpa [oldLength, oldPart] using old
    · simp only [newLength, newPart, reduceCtorEq, if_false, List.length_append]
      omega

/-- Any chunks in any order: a run passes them all, and its counts stay right. -/
theorem behind_foldlM {passed : List Chunk} {r : Run} (behind : Behind passed r)
    (chunks : List Chunk) :
    ∃ r', chunks.foldlM pass? r = some r' ∧ Behind (passed ++ chunks) r' := by
  induction chunks generalizing passed r with
  | nil => exact ⟨r, rfl, (List.append_nil passed).symm ▸ behind⟩
  | cons c rest ih =>
    obtain ⟨r₁, step, behind₁⟩ := behind_pass? behind c
    obtain ⟨r', run, behind'⟩ := ih behind₁
    refine ⟨r', ?_, ?_⟩
    · rw [List.foldlM_cons, step]
      exact run
    · rwa [List.append_assoc] at behind'

/-- A run from anywhere, flushed at its end, adds the edits that are told by offsets. -/
theorem flush?_foldlM {r : Run} {offset : Nat} (here : r.At offset) (chunks : List Chunk) :
    ∃ r', (chunks.foldlM pass? r).bind flush? = some r' ∧
      r'.edits = r.edits ++ ofChunks offset r.deleted r.inserted chunks := by
  induction chunks generalizing r offset with
  | nil =>
    obtain ⟨r', flushed, _, _, _, _, edits⟩ := flush?_eq here
    exact ⟨r', flushed, edits⟩
  | cons c rest ih =>
    obtain ⟨kind, chars⟩ := c
    cases kind with
    | equal =>
      obtain ⟨r₁, flushed, here₁, deleted₁, inserted₁, _, edits₁⟩ := flush?_eq here
      have passed : r.pass? ⟨.equal, chars⟩ =
          some { r₁ with position := r₁.position + chars.length } := by simp [pass?, flushed]
      have behind : At { r₁ with position := r₁.position + chars.length }
          (offset + r.deleted + chars.length) := by
        unfold At at here₁ ⊢
        simp only [Int.natCast_add] at here₁ ⊢
        omega
      obtain ⟨r', run, edits⟩ := ih behind
      refine ⟨r', ?_, ?_⟩
      · rw [List.foldlM_cons, passed]
        exact run
      · rw [edits, edits₁, deleted₁, inserted₁, List.append_assoc]
        rfl
    | delete => exact ih (r := { r with deleted := r.deleted + chars.length }) here
    | insert => exact ih (r := { r with inserted := r.inserted ++ chars }) here

end Run

/-- Whatever the chunks are, no offset is below zero, and the edits are those told by offsets. -/
theorem ofChunks?_eq (chunks : List Chunk) : ofChunks? chunks = some (ofChunks 0 0 [] chunks) := by
  have here : Run.start.At 0 := rfl
  obtain ⟨r, run, edits⟩ := Run.flush?_foldlM here chunks
  obtain ⟨passed, folded, flushed⟩ := Option.bind_eq_some_iff.1 run
  rw [ofChunks?, folded]
  simp only [Option.bind_eq_bind, Option.bind_some, flushed, edits]
  rfl

end GrammarIndex.Script

namespace GrammarIndex

/-- The edit script of two texts, told by offsets of the first. -/
theorem editScript_eq (old new : String) :
    editScript old new = Script.ofChunks 0 0 [] (Diff.chunks old.toList new.toList) := by
  rw [editScript, Script.ofChunks?_eq, Option.getD_some]

end GrammarIndex
