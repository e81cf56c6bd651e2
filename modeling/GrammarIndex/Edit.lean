/-!
Edits to a text and how they are applied.

Offsets count characters of the text before any of the edits. `applyEdits` makes one pass over the
text, so its edits come sorted and do not overlap.
-/
namespace GrammarIndex

inductive EditKind where
  | equal
  | delete
  | insert
  deriving DecidableEq, Repr, Inhabited

def EditKind.name : EditKind → String
  | equal => "equal"
  | delete => "delete"
  | insert => "insert"

/-- One edit: `length` characters from `start` on go, or `text` comes in at `start`. -/
structure Edit where
  kind : EditKind
  start : Nat
  length : Nat
  text : String
  deriving DecidableEq, Repr, Inhabited

namespace Edit

def delete (start length : Nat) : Edit := ⟨.delete, start, length, ""⟩

def insert (start : Nat) (text : String) : Edit := ⟨.insert, start, 0, text⟩

/-- Put `text` in the place of `length` characters: a deletion, then an insertion where it ends. -/
def substitute (start length : Nat) (text : String) : List Edit :=
  [delete start length, insert (start + length) text]

/-- Where the affected range ends. -/
def stop (e : Edit) : Nat := e.start + e.length

end Edit

/-- Apply edits to the characters from offset `cursor` on. An edit that starts before the cursor
takes effect at the cursor, one that starts behind the end takes effect at the end. -/
def applyFrom (cursor : Nat) (rest : List Char) : List Edit → List Char
  | [] => rest
  | e :: edits =>
    let skip := min (e.start - cursor) rest.length
    let behind := rest.drop skip
    rest.take skip ++
      match e.kind with
      | .equal => applyFrom (cursor + skip) behind edits
      | .delete =>
        applyFrom (cursor + skip + min e.length behind.length) (behind.drop e.length) edits
      | .insert => e.text.toList ++ applyFrom (cursor + skip) behind edits

/-- Apply sorted edits that do not overlap. -/
def applyEdits (text : String) (edits : List Edit) : String :=
  String.ofList (applyFrom 0 text.toList edits)

end GrammarIndex
