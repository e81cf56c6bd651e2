import GrammarIndex.Edit.Diff

/-!
Edit scripts: the edits that turn one text into another.

The chunks of the two texts are passed once. What is deleted and inserted between two kept chunks is
collected and then flushed: first the deletion, then the insertion. Where they go in the old text is
not counted but computed, from the place in the new text and the length gained so far. An offset
below zero is the failure `none`, never a made-up value.
-/
namespace GrammarIndex

namespace Script

/-- A run over chunks, with the changes collected since the last flush. -/
structure Run where
  /-- The place in the new text. -/
  position : Int
  /-- How much longer the text has become; `position - delta` is the offset in the old text. -/
  delta : Int
  deleted : Nat
  inserted : List Char
  edits : List Edit
  deriving DecidableEq, Repr

namespace Run

def start : Run := ⟨0, 0, 0, [], []⟩

/-- The offset in the old text. -/
def offset? (r : Run) : Option Nat :=
  let offset := r.position - r.delta
  if offset < 0 then none else some offset.toNat

/-- Write the deletion down, if something is deleted. The place in the new text stays. -/
def flushDeleted? (r : Run) : Option Run :=
  if r.deleted = 0 then some r
  else do
    let edit := Edit.delete (← r.offset?) r.deleted
    return { r with delta := r.delta - r.deleted, deleted := 0, edits := r.edits ++ [edit] }

/-- Write the insertion down, if something is inserted. -/
def flushInserted? (r : Run) : Option Run :=
  if r.inserted.isEmpty then some r
  else do
    let edit := Edit.insert (← r.offset?) (String.ofList r.inserted)
    let count : Int := r.inserted.length
    return { r with
      position := r.position + count, delta := r.delta + count, inserted := [],
      edits := r.edits ++ [edit] }

/-- Write down what was collected. The insertion computes its offset anew, with the `delta` that the
deletion has left. -/
def flush? (r : Run) : Option Run := do (← r.flushDeleted?).flushInserted?

/-- Pass one chunk. -/
def pass? (r : Run) (c : Diff.Chunk) : Option Run :=
  match c.kind with
  | .equal => do
    let r ← r.flush?
    return { r with position := r.position + c.chars.length }
  | .delete => some { r with deleted := r.deleted + c.chars.length }
  | .insert => some { r with inserted := r.inserted ++ c.chars }

end Run

/-- The edits for chunks: pass them all, then flush what is left. -/
def ofChunks? (chunks : List Diff.Chunk) : Option (List Edit) := do
  let r ← chunks.foldlM Run.pass? Run.start
  return (← r.flush?).edits

end Script

/-- The edits that turn `old` into `new`; equal texts need none. -/
def editScript (old new : String) : List Edit :=
  (Script.ofChunks? (Diff.chunks old.toList new.toList)).getD []

end GrammarIndex
