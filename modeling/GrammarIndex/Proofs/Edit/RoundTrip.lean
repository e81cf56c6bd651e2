import GrammarIndex.Proofs.Edit.Offsets
import GrammarIndex.Proofs.Edit.Search

/-!
Edit scripts lead from one text to the other.

The chunks of two texts spell the first before and the second after, whether the search finds steps
for the middles or gives up and replaces them. So the edits, applied to the first text, give the
second.
-/
namespace GrammarIndex

namespace Diff

theorem oldChars_middle (a b : List Char) (rest : List Chunk) :
    oldChars (middle a b rest) = a ++ oldChars rest := by
  obtain ⟨found, answered, spells⟩ := shortestEdit?_spells a.toArray b.toArray
  unfold middle
  rw [answered]
  cases found with
  | none => simp [oldChars_prepend, oldPart]
  | some steps =>
    have old := (spells steps rfl).1
    simp only [oldChars_ofSteps, old]

theorem newChars_middle (a b : List Char) (rest : List Chunk) :
    newChars (middle a b rest) = b ++ newChars rest := by
  obtain ⟨found, answered, spells⟩ := shortestEdit?_spells a.toArray b.toArray
  unfold middle
  rw [answered]
  cases found with
  | none => simp [newChars_prepend, newPart]
  | some steps =>
    have new := (spells steps rfl).2
    simp only [newChars_ofSteps, new]

/-- The chunks of two texts spell the first before. -/
theorem oldChars_chunks (a b : List Char) : oldChars (chunks a b) = a := by
  have ends : oldChars [] = [] := rfl
  unfold chunks
  simp only [oldChars_prepend, oldChars_middle, oldPart, reduceCtorEq, if_false, ends,
    List.append_nil, List.take_append_drop]

/-- The chunks of two texts spell the second after: what is kept is common to both. -/
theorem newChars_chunks (a b : List Char) : newChars (chunks a b) = b := by
  have ends : newChars [] = [] := rfl
  unfold chunks
  simp only [newChars_prepend, newChars_middle, newPart, reduceCtorEq, if_false, ends,
    List.append_nil]
  rw [drop_commonLength_reverse, take_commonLength, List.take_append_drop, List.take_append_drop]

end Diff

/-- Applying the edit script of two texts to the first gives the second. -/
theorem applyEdits_editScript (old new : String) : applyEdits old (editScript old new) = new := by
  have spelled := Script.applyFrom_ofChunks (Diff.chunks old.toList new.toList) 0 0 [] [] [] rfl
  rw [Diff.oldChars_chunks, Diff.newChars_chunks] at spelled
  simp only [List.nil_append, List.length_nil] at spelled
  rw [applyEdits, editScript_eq, spelled, String.ofList_toList]

end GrammarIndex
